import SrtVpn.Arrivals
import SrtVpn.Tunnel

namespace SrtVpn.Streams

open BigEndian (Bytes)
open HalfClose (Side)
open Wire Encoder Decoder Dispatch Connection Uplink Endpoints ServerTasks Tunnel
  TurnTaking Arrivals Runs

/-- A client of TCP sessions: every session is opened before it is closed and sends fewer than `2 ^
24 - 1` frames, and an id is given out again only when the sessions that had it have sent their
Close. -/
def InTurn (s : Net) : Tunnel.Label → Prop
  | .sys (.client (.allocate udp)) => udp = false ∧ ∀ sid c reg,
    s.sys.clientReg.allocate = (some (sid, c), reg) →
      ∀ i x, s.sys.instances[i]? = some x → x.sid = sid → ClientAct.close i ∈ s.log
  | .sys (.client (.datagram _ _)) => False
  | .sys (.client a) => ∀ i, sender a = some i → framesOf s.log i + 1 < 2 ^ 24 - 1 ∧
      (a = .close i → s.sys.instances[i]?.map Instance.phase = some .opened)
  | _ => True

def Isolated (s : Net) : Prop :=
  ∀ j t, s.sys.tasks[j]? = some t →
    (∀ p ∈ (s.workers .server j).writes, p.1 = t.owner) ∧
      ((s.workers .server j).writes.map Prod.snd).flatten <+: sentBytes s.log t.owner

/-- What holds along a run: the client takes its ids in turn, its frames are under way in order, the
server's channels have them, and its loops write what their channels begin with. -/
structure Separate (s : Net) : Prop where
  client : Client s.sys.instances s.sys.clientEnc s.log
  way : Way s.sys s.log
  serving : Serving s.sys s.log
  reads : ∀ j, (s.workers .server j).Reads (queueOf s.sys.serverReg j)

theorem separate_start (reliable : Bool) : Separate (Tunnel.start reliable) :=
  ⟨client_start reliable, way_start reliable, serving_start reliable, fun _ => Worker.reads_idle⟩

theorem Separate.isolated {s : Net} (h : Separate s) : Isolated s := by
  intro j t ht
  have hlt : j < s.sys.serverReg.channels.length := by
    rw [← h.serving.housed.length]
    exact (List.getElem?_eq_some_iff.mp ht).1
  have hch := List.getElem?_eq_getElem hlt
  have hqueue : queueOf s.sys.serverReg j = s.sys.serverReg.channels[j].queue := queueOf_some hch
  obtain ⟨more, rest, heq, hrest, -⟩ := h.serving.kept j t _ ht hch
  obtain ⟨after, hafter⟩ := hqueue ▸ (h.reads j).writes
  apply data_of_sentEvents
  rw [← hafter, List.append_assoc] at heq
  rcases List.append_eq_append_iff.mp heq with ⟨a', hsent, -⟩ | ⟨c', hwrites, hrest'⟩
  · exact ⟨a', hsent.symm⟩
  · rcases List.eq_nil_or_concat c' with rfl | ⟨c'', e, rfl⟩
    · exact prefix_of_eq (hwrites.trans (List.append_nil _)).symm
    -- the writes would go past the Close of the instance
    · have hclose : SessionEvent.close ∈ sentEvents s.log t.owner :=
        List.mem_filterMap.mpr ⟨.close t.owner, hrest (by simp [hrest']), by simp [frameEvent]⟩
      have hmem : SessionEvent.close ∈ (s.workers .server j).writes.map SessionEvent.data := by
        rw [hwrites]
        exact List.mem_append_left _ hclose
      simp at hmem

section Run

variable {s t : Net} {l : Endpoints.Label}

theorem clientSend_eq (s : Sys) {c : Call Tagged} (hc : c.ftype ≠ .datagram) :
    clientSend s false c =
      { s with clientEnc := (stamp s.clientEnc c).2, up := afterSend s c } := by
  simp [clientSend, afterSend, hc]

theorem Separate.speak (h : Separate s) {a : ClientAct} {i : Nat} {x : Instance} {c : Call Tagged}
    {p : Phase} (hs : Speaking s.sys s.log a i x c p) (replies : List Tagged) :
    Separate { s with sys := spoken s.sys i c p, log := s.log ++ [a], replies := replies } := by
  refine ⟨?_, h.way.speak h.client hs, h.serving.speak h.way h.client hs, h.reads⟩
  exact h.client.send hs.live hs.phase hs.sender hs.sid hs.session hs.opens hs.bound
    hs.next hs.close

theorem spoken_self {s : Sys} {i : Nat} {x : Instance} (hx : s.instances[i]? = some x)
    {c : Call Tagged} (hc : c.ftype ≠ .datagram) : clientSend s false c = spoken s i c x.phase := by
  have hsame : s.instances.modify i (fun y => { y with phase := x.phase }) = s.instances := by
    apply List.ext_getElem?
    intro k
    rw [List.getElem?_modify]
    by_cases hk : i = k
    · rw [← hk, hx]
      simp
    · cases s.instances[k]? <;> simp [hk]
  rw [clientSend_eq s hc, spoken, setPhase]
  simp only [hsame]

theorem Separate.still (h : Separate s) {u : Sys} {log : List ClientAct} {replies : List Tagged}
    (hclient : Client u.instances u.clientEnc log) (hway : Way u log)
    (hpend : pending u.up = pending s.sys.up)
    (hh : Healthy u.up → Healthy s.sys.up) (hinst : Extends s.sys u) (hlog : Still s.log log)
    (htasks : u.tasks = s.sys.tasks) (hreg : u.serverReg = s.sys.serverReg) :
    Separate { s with sys := u, log := log, replies := replies } := by
  refine ⟨hclient, hway, ?_, fun j => ?_⟩
  · refine h.serving.still hpend hh hinst hlog (htasks ▸ sameTasks_refl _) ?_
    rw [hreg]
    exact shrinks_refl _
  · have hqueue : queueOf u.serverReg j = queueOf s.sys.serverReg j := by rw [hreg]
    exact hqueue ▸ h.reads j

theorem Separate.unsent (h : Separate s) {a : ClientAct} (ha : sender a = none)
    (reg : SessionRegistry Tagged) {instances : List Instance}
    (hclient : Client instances s.sys.clientEnc s.log)
    (hext : Extends s.sys { s.sys with clientReg := reg, instances := instances })
      (replies : List Tagged) :
    Separate { s with
      sys := { s.sys with clientReg := reg, instances := instances }
      log := s.log ++ [a]
      replies := replies } :=
  h.still (hclient.quiet ha) (h.way.still rfl rfl rfl hext (still_snoc ha)) rfl id hext
    (still_snoc ha) rfl rfl

theorem quiet_of_isControl {t : FrameType} (h : isControl t = true) :
    usesSessionOrder t = false ∧ (∀ f : Msg, f.ftype = t → eventOf f = none) ∧ t ≠ .datagram := by
  refine ⟨?_, ?_, ?_⟩
  · cases t <;> simp_all [isControl, usesSessionOrder]
  · intro f hf
    cases t <;> simp_all [isControl, eventOf]
  · rintro rfl
    simp [isControl] at h

theorem Separate.clientAct (h : Separate s) {a : ClientAct} {u : Sys}
    (hok : InTurn s (.sys (.client a))) (hact : clientAct s.sys a = some u)
    (replies : List Tagged) :
    Separate { s with sys := u, log := s.log ++ [a], replies := replies } := by
  cases a with
  | allocate udp =>
      rw [Endpoints.clientAct] at hact
      obtain ⟨rfl, hclosed⟩ := hok
      split at hact
      next sid c reg halloc =>
        obtain rfl := Option.some.inj hact
        have hext : Extends s.sys { s.sys with clientReg := reg, instances := s.sys.instances ++
          [⟨sid, false, .allocated⟩] } := by
          intro k y hy
          exact ⟨y, by rw [List.getElem?_append_left (List.getElem?_eq_some_iff.mp hy).1]; exact hy, rfl⟩
        exact h.unsent rfl reg (h.client.allocate (hclosed sid c reg halloc)) hext replies
      next reg halloc =>
        obtain rfl := Option.some.inj hact
        have hext : Extends s.sys { s.sys with clientReg := reg } := fun k y hy => ⟨y, hy, rfl⟩
        exact h.unsent rfl reg h.client hext replies
  | «open» i payload =>
      obtain ⟨x, hx, hact⟩ := Option.bind_eq_some_iff.mp hact
      obtain ⟨hphase, rfl⟩ := Option.ite_some_none_eq_some.mp hact
      have hs : Speaking s.sys s.log (.open i payload) i x
          ⟨.open, x.sid, 0, (i, payload)⟩ .opened :=
        ⟨hx, Or.inl hphase, rfl, rfl, rfl, rfl, rfl,
          by simp [hphase], (hok i rfl).1, Or.inl rfl, by simp, rfl⟩
      rw [clientSend_eq _ (by simp)]
      exact h.speak hs replies
  | data i payload =>
      obtain ⟨x, hx, hact⟩ := Option.bind_eq_some_iff.mp hact
      obtain ⟨hphase, rfl⟩ := Option.ite_some_none_eq_some.mp hact
      have hs : Speaking s.sys s.log (.data i payload) i x
          ⟨.data, x.sid, 0, (i, payload)⟩ x.phase :=
        ⟨hx, Or.inr hphase.1, rfl, rfl, rfl, rfl, rfl,
          by simp [hphase.1], (hok i rfl).1, Or.inl hphase.1, by simp,
          by simp [frameEvent]; rfl⟩
      rw [spoken_self hx (by simp)]
      exact h.speak hs replies
  | fin i =>
      obtain ⟨x, hx, hact⟩ := Option.bind_eq_some_iff.mp hact
      obtain ⟨hphase, rfl⟩ := Option.ite_some_none_eq_some.mp hact
      have hs : Speaking s.sys s.log (.fin i) i x ⟨.fin, x.sid, 0, (i, [])⟩ x.phase :=
        ⟨hx, Or.inr hphase.1, rfl, rfl, rfl, rfl, rfl,
          by simp [hphase.1], (hok i rfl).1, Or.inl hphase.1, by simp,
          by simp [frameEvent]; rfl⟩
      rw [spoken_self hx (by simp)]
      exact h.speak hs replies
  | datagram i payload => exact hok.elim
  | close i =>
      obtain ⟨x, hx, hact⟩ := Option.bind_eq_some_iff.mp hact
      obtain ⟨-, rfl⟩ := Option.ite_some_none_eq_some.mp hact
      have hphase : x.phase = .opened := by
        have := (hok i rfl).2 rfl
        rw [hx] at this
        exact Option.some.inj this
      have hs : Speaking s.sys s.log (.close i) i x ⟨.close, x.sid, 0, (i, [])⟩ .closed :=
        ⟨hx, Or.inr hphase, rfl, rfl, rfl, rfl, rfl,
          by simp [hphase], (hok i rfl).1, Or.inr rfl, fun _ => rfl, by simp [frameEvent]; rfl⟩
      rw [clientSend_eq _ (by simp)]
      exact h.speak hs replies
  | drop i =>
      obtain ⟨x, hx, hact⟩ := Option.bind_eq_some_iff.mp hact
      obtain ⟨-, hact⟩ := Option.ite_none_left_eq_some.mp hact
      obtain rfl := Option.some.inj hact
      have hext : Extends s.sys
          (setPhase { s.sys with clientReg := dropReceiver (s.sys.clientReg.remove x.sid) i } i
            .dropped) :=
        extends_setPhase rfl i .dropped
      exact h.unsent rfl _ (h.client.drop i) hext replies
  | control priority ftype payload =>
      obtain ⟨hcontrol, rfl⟩ := Option.ite_some_none_eq_some.mp hact
      obtain ⟨hu, he, hd⟩ := quiet_of_isControl hcontrol
      have hup : (clientSend s.sys priority ⟨ftype, 0, 0, (0, payload)⟩).up =
          s.sys.up.sendItemTo priority ⟨(stamp s.sys.clientEnc ⟨ftype, 0, 0, (0, payload)⟩).1,
            true⟩ := by
        simp [clientSend, hd]
      have hiff :=
        (ordered_send h.way.ordered priority (stamp s.sys.clientEnc ⟨ftype, 0, 0, (0, payload)⟩).1
          (fun _ => hu)).2
      refine h.still ((h.client.control hu).quiet rfl) (h.way.control rfl hu (he _ rfl) hd) ?_ ?_
        (fun k y hy => ⟨y, hy, rfl⟩) (still_snoc rfl) rfl rfl
      · rw [hup]
        exact pending_send_other hu
      · rw [hup]
        exact hiff.mp

theorem Separate.arrive (h : Separate s) {act : LinkAct} {f : Msg} {link : Link Msg}
    (hact : s.sys.up.act act = some (some f, link)) :
    Separate { s with sys := serverRecv { s.sys with up := link } f } := by
  obtain ⟨lost, hshift⟩ := shifted h.way.ordered hact
  have hfed := h.way.feed hact
  have hrecv := serverRecv_of_feedFrame (s := { s.sys with up := link }) hfed.1
  rw [hrecv]
  generalize hw : ({ s.sys with
      up := link
      serverDec := (feedFrame (countRx s.sys.serverDec) f).2
      arrived := if f.ftype = .open then s.sys.arrived ++ [owner f] else s.sys.arrived } : Sys) = w
  obtain ⟨hup, henc, hdec, hinst⟩ := fields_dispatchOneFrame w f
  have hshift' :
      Shifted s.sys.up w.up ((some f).toList.filter fun f => usesSessionOrder f.ftype) lost := by
    rw [← hw]
    exact hshift
  refine ⟨?_, ?_, ?_, fun j => ?_⟩
  · rw [hinst, henc, ← hw]
    exact h.client
  · refine h.way.shift hshift hfed.2 ?_ ?_ ?_ ?_
    · rw [hup, ← hw]
    · rw [henc, ← hw]
    · rw [hdec, ← hw]
    · rw [hinst, ← hw]
  · cases hu : usesSessionOrder f.ftype with
    | true =>
        have hhead : (some f).toList.filter (fun f : Msg => usesSessionOrder f.ftype) = [f] := by
          simp [hu]
        rw [hhead] at hshift'
        by_cases ho : Opens w f
        · exact h.serving.arrive_opened h.way hshift' (by rw [← hw]) (by rw [← hw])
            (by rw [← hw]) ho
        · exact h.serving.arrive_routed hshift' (by rw [← hw]) (by rw [← hw]) (by rw [← hw]) ho
    | false =>
        have hhead : (some f).toList.filter (fun f : Msg => usesSessionOrder f.ftype) = [] := by
          simp [hu]
        rw [hhead] at hshift'
        have he := h.way.quiet f ((mem_msgs_act hact).2 f rfl) hu
        exact h.serving.arrive_other hshift' (by rw [← hw]) (by rw [← hw]) (by rw [← hw]) hu he
  · refine (h.reads j).mono ?_
    have hgrow := queueOf_dispatchOneFrame w f j
    rw [show w.serverReg = s.sys.serverReg by rw [← hw]] at hgrow
    exact hgrow

theorem Separate.up (h : Separate s) {act : LinkAct} {u : Sys}
    (hstep : Endpoints.step s.sys (.up act) = some u) : Separate { s with sys := u } := by
  rcases up_cases hstep with ⟨f, link, hact, rfl⟩ | ⟨link, hact, rfl⟩
  · exact h.arrive hact
  · obtain ⟨lost, hshift⟩ := shifted h.way.ordered hact
    refine ⟨h.client, ?_, h.serving.shift hshift rfl rfl rfl rfl, h.reads⟩
    exact h.way.shift hshift (h.way.synced.other h.way.ordered hact (by simp)) rfl rfl rfl rfl

theorem Separate.shed (h : Separate s) {u : Sys} (hq : Sheds s.sys u) (replies : List Tagged) :
    Separate { s with sys := u, replies := replies } := by
  have hext : Extends s.sys u := fun k y hy => ⟨y, hq.instances ▸ hy, rfl⟩
  have hlog : Still s.log s.log := fun _ => ⟨rfl, id⟩
  refine ⟨?_, h.way.still hq.up hq.clientEnc hq.serverDec hext hlog, ?_, fun j => ?_⟩
  · rw [hq.instances, hq.clientEnc]
    exact h.client
  · exact h.serving.still (by rw [hq.up]) (by rw [hq.up]; exact id) hext hlog hq.tasks hq.reg
  · rw [hq.reg.queueOf]
    exact h.reads j

theorem Separate.sysStep (h : Separate s) {u : Sys} (hok : InTurn s (.sys l))
    (hstep : Endpoints.step s.sys l = some u) (replies : List Tagged) :
    Separate { s with sys := u, log := s.log ++ logged l, replies := replies } := by
  cases l with
  | client a => exact h.clientAct hok hstep replies
  | up act =>
      simp only [logged, List.append_nil]
      obtain ⟨hclient, hway, hserving, hreads⟩ := h.up hstep
      exact ⟨hclient, hway, hserving, hreads⟩
  | task j a =>
      simp only [logged, List.append_nil]
      exact h.shed (sheds_taskAct hstep) replies
  | control priority ftype payload =>
      simp only [logged, List.append_nil]
      obtain ⟨-, rfl⟩ := Option.ite_some_none_eq_some.mp hstep
      exact h.shed (sheds_serverSend _ _ _) replies
  | down act =>
      simp only [logged, List.append_nil]
      rcases down_cases hstep with ⟨f, link, -, rfl⟩ | ⟨link, -, rfl⟩
      · exact h.shed (sheds_clientRecv _ _ _) replies
      · have hq : Sheds s.sys { s.sys with down := link } :=
          sheds_of_tasks_eq rfl rfl rfl rfl rfl (shrinks_refl _)
        exact h.shed hq replies

theorem Separate.setWorker (h : Separate s) {x : Side} {k : Nat} {w : Worker}
    (hw : x = .server → w.Reads (queueOf s.sys.serverReg k)) : Separate (setWorker s x k w) := by
  refine ⟨h.client, h.way, h.serving, fun j => ?_⟩
  rw [workers_setWorker]
  split
  next heq =>
    obtain ⟨hx, rfl⟩ := heq
    exact hw hx.symm
  next => exact h.reads j

theorem Separate.step (h : Separate s) {l : Tunnel.Label} (hok : InTurn s l)
    (hstep : Tunnel.step s l = some t) : Separate t := by
  cases l with
  | sys l =>
      obtain ⟨-, hstep⟩ := Option.ite_none_right_eq_some.mp hstep
      obtain ⟨u, hu, rfl⟩ := Option.map_eq_some_iff.mp hstep
      exact h.sysStep hok hu _
  | begin x k now =>
      obtain ⟨i, -, hstep⟩ := Option.bind_eq_some_iff.mp hstep
      obtain ⟨ch, -, hstep⟩ := Option.bind_eq_some_iff.mp hstep
      obtain ⟨⟨-, -, hidle⟩, rfl⟩ := Option.ite_some_none_eq_some.mp hstep
      apply h.setWorker
      rintro rfl
      refine ⟨(h.reads k).writes, fun _ => (h.reads k).taken ?_⟩
      intro l hl
      rw [hidle] at hl
      simp at hl
  | turn x k b =>
      obtain ⟨ch, hch, hstep⟩ := Option.bind_eq_some_iff.mp hstep
      obtain ⟨-, hstep⟩ := Option.ite_none_right_eq_some.mp hstep
      obtain ⟨w, hw, rfl⟩ := Option.map_eq_some_iff.mp hstep
      apply h.setWorker
      rintro rfl
      have hqueue : queueOf s.sys.serverReg k = ch.queue := queueOf_some hch
      have hreads := h.reads k
      rw [hqueue] at hreads ⊢
      exact hreads.turn hw

/-- Over a link that delivers in order, sessions of the client that use their ids one after the
other do not reach each other's targets, however the server's tasks are scheduled. -/
theorem streams_isolated (reliable : Bool) (ls : List Tunnel.Label)
    (h : EachStep Tunnel.step InTurn (Tunnel.start reliable) ls) :
    Throughout Tunnel.step Isolated (Tunnel.start reliable) ls := by
  have hrun : Throughout Tunnel.step Separate (Tunnel.start reliable) ls :=
    throughout_of_eachStep (separate_start reliable) (fun s l t hs hok hstep => hs.step hok hstep) h
  exact hrun.mono fun s hs => hs.isolated

end Run

theorem reuse_iff (s : Net) :
    (∀ p ∈ s.sys.clientReg.allocate.1, ∀ q ∈ s.sys.instances.zipIdx, q.1.sid = p.1 →
      ClientAct.close q.2 ∈ s.log) ↔
    ∀ sid c reg, s.sys.clientReg.allocate = (some (sid, c), reg) →
      ∀ i x, s.sys.instances[i]? = some x → x.sid = sid → ClientAct.close i ∈ s.log := by
  constructor
  · intro h sid c reg hreg i x hx hsid
    exact h (sid, c) (by rw [hreg]; rfl) (x, i) (List.mem_zipIdx_iff_getElem?.mpr hx) hsid
  · intro h p hp q hq hsid
    exact h p.1 p.2 _ (Prod.ext hp rfl) q.2 q.1 (List.mem_zipIdx_iff_getElem?.mp hq) hsid

instance decidableInTurn (s : Net) : (l : Tunnel.Label) → Decidable (InTurn s l)
  | .sys (.client a) =>
      have speaks : Decidable (∀ i, sender a = some i → framesOf s.log i + 1 < 2 ^ 24 - 1 ∧
          (a = .close i → s.sys.instances[i]?.map Instance.phase = some .opened)) :=
        Option.decidableForallMem (sender a)
      match a with
      | .allocate udp => by
          have := Option.decidableForallMem s.sys.clientReg.allocate.1
            (p := fun p => ∀ q ∈ s.sys.instances.zipIdx, q.1.sid = p.1 →
            ClientAct.close q.2 ∈ s.log)
          exact decidable_of_iff (udp = false ∧ _) (and_congr_right' (reuse_iff s))
      | .datagram _ _ => instDecidableFalse
      | .open _ _ => speaks
      | .data _ _ => speaks
      | .fin _ => speaks
      | .close _ => speaks
      | .drop _ => speaks
      | .control _ _ _ => speaks
  | .sys (.up _) => instDecidableTrue
  | .sys (.down _) => instDecidableTrue
  | .sys (.task _ _) => instDecidableTrue
  | .sys (.control _ _ _) => instDecidableTrue
  | .begin _ _ _ => instDecidableTrue
  | .turn _ _ _ => instDecidableTrue

def spoken (i k : Nat) (first : Bytes) : List Tunnel.Label :=
  [.sys (.client (.allocate false)), .sys (.client (.open i [])), .sys (.client (.data i first)),
    .sys (.client (.data i [3])), .sys (.up (.work true)), .sys (.up (.work true)),
    .sys (.up (.work true)), .sys (.up (.work true)), .sys (.up .deliver),
    .sys (.up .deliver), .begin .server k 0, .turn .server k (.recv 0 (.ok ())),
    .sys (.client (.close i)), .sys (.client (.drop i)),
    .sys (.up (.work true)), .sys (.up (.work true)), .sys (.up (.work true)),
    .sys (.up (.work true)), .sys (.up .deliver),
    .sys (.up .deliver)]

def spokenTwice : List Tunnel.Label :=
  spoken 0 0 [1, 2] ++ [.sys (.task 0 (.drop true)), .sys (.task 0 .notify),
    .sys (.task 0 .cleanup)] ++ (List.range' 1 254).flatMap
      (fun i => [.sys (.client (.allocate false)), .sys (.client (.drop i))]) ++ spoken 255 1 [4]

theorem streams_isolated_spokenTwice :
    ∃ s, exec Tunnel.step (Tunnel.start true) spokenTwice = some s ∧
    s.sys.tasks.map (fun t => (t.owner, t.sid)) = [(0, 1), (255, 1)] ∧
      (s.workers .server 0).writes = [(0, [1, 2])] ∧ (s.workers .server 1).writes = [(255, [4])] ∧
      Isolated s := by
  have hrun : (exec (guarded Tunnel.step InTurn) (Tunnel.start true) spokenTwice).map
      (fun s => (s.sys.tasks.map fun t => (t.owner, t.sid), (s.workers .server 0).writes,
        (s.workers .server 1).writes)) =
        some ([(0, 1), (255, 1)], [(0, [1, 2])], [(255, [4])]) := by decide +kernel
  obtain ⟨s, hs, hwritten⟩ := Option.map_eq_some_iff.mp hrun
  simp only [Prod.mk.injEq] at hwritten
  obtain ⟨hturn, hexec⟩ := eachStep_of_guarded hs
  refine ⟨s, hexec, hwritten.1, hwritten.2.1, hwritten.2.2, ?_⟩
  exact streams_isolated true spokenTwice hturn spokenTwice (List.prefix_refl _) s hexec

end SrtVpn.Streams
