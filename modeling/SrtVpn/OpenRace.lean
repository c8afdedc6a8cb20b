import SrtVpn.Endpoints
import SrtVpn.Runs
import SrtVpn.Sync

namespace SrtVpn.OpenRace

open BigEndian Tables Wire Encoder Decoder Slots Dispatch Connection Endpoints Runs

/-- Every reset comes after the handling of the Open of the same instance. -/
def Answered (log : List Answer) : Prop :=
  ∀ before i after, log = before ++ .reset i :: after → .opened i ∈ before

/-- No Datagram arrives while the Open of its instance is still in the reliable queue or on its way,
and no send of an Open fails while a Datagram of its instance is on its way. -/
def InTime (s : Sys) : Label → Prop
  | .up (.deliverLoose k) => ∀ f ∈ s.up.loose[k]?,
      ∀ g ∈ s.up.wire ++ s.up.rel.map SendItem.msg, g.ftype = .open → owner g ≠ owner f
  | .up (.work false) => s.up.pc = .wait → ∀ x ∈ s.up.rel.head?, x.msg.ftype = .open →
      ∀ f ∈ s.up.loose, owner f ≠ owner x.msg
  | _ => True

instance (s : Sys) : (l : Label) → Decidable (InTime s l)
  | .up (.deliverLoose k) => @Option.decidableForallMem Msg
      (fun f => ∀ g ∈ s.up.wire ++ s.up.rel.map SendItem.msg, g.ftype = .open → owner g ≠ owner f)
      (fun _ => List.decidableBAll _ _) s.up.loose[k]?
  | .up (.work false) => @instDecidableForall _ _ inferInstance
      (@Option.decidableForallMem (SendItem Msg) (fun x => x.msg.ftype = .open →
        ∀ f ∈ s.up.loose, owner f ≠ owner x.msg) (fun _ => inferInstance) s.up.rel.head?)
  | .up (.work true) => isTrue trivial
  | .up .deliver => isTrue trivial
  | .up (.lose _) => isTrue trivial
  | .up .close => isTrue trivial
  | .client _ => isTrue trivial
  | .task _ _ => isTrue trivial
  | .control _ _ _ => isTrue trivial
  | .down _ => isTrue trivial

section Order

variable {A B : List Nat} {L K : List Msg} {f : Msg}

/-- Each Data of a list has the Open of its instance before it, in the list or among those of
`A`. -/
def Preceded (A : List Nat) : List Msg → Prop
  | [] => True
  | g :: L => (g.ftype = .data → owner g ∈ A) ∧
      Preceded (if g.ftype = .open then owner g :: A else A) L

def opens (A : List Nat) : List Msg → List Nat
  | [] => A
  | g :: L => opens (if g.ftype = .open then owner g :: A else A) L

theorem opens_mono (hAB : ∀ i ∈ A, i ∈ B) : ∀ i ∈ opens A L, i ∈ opens B L := by
  induction L generalizing A B with
  | nil => exact hAB
  | cons g L ih =>
      apply ih
      split
      · intro i hi
        exact (List.mem_cons.mp hi).elim (fun h => h ▸ List.mem_cons_self) fun h =>
          List.mem_cons_of_mem _ (hAB i h)
      · exact hAB

theorem opens_append : opens A (L ++ K) = opens (opens A L) K := by
  induction L generalizing A with
  | nil => rfl
  | cons g L ih => exact ih

theorem subset_opens : ∀ i ∈ A, i ∈ opens A L := by
  induction L generalizing A with
  | nil => exact fun i hi => hi
  | cons g L ih =>
      intro i hi
      apply ih
      split
      · exact List.mem_cons_of_mem _ hi
      · exact hi

theorem mem_opens {i : Nat} : i ∈ opens A L ↔ i ∈ A ∨ ∃ g ∈ L, g.ftype = .open ∧ owner g = i := by
  induction L generalizing A with
  | nil => simp [opens]
  | cons g L ih =>
      rw [opens, ih]
      split
      next hopen =>
        simp only [List.mem_cons]
        grind
      next hopen => simp [hopen]

theorem Preceded.mono (h : Preceded A L) (hAB : ∀ i ∈ A, i ∈ B) : Preceded B L := by
  induction L generalizing A B with
  | nil => trivial
  | cons g L ih =>
      refine ⟨fun hg => hAB _ (h.1 hg), ih h.2 ?_⟩
      split
      · intro i hi
        exact (List.mem_cons.mp hi).elim (fun h => h ▸ List.mem_cons_self) fun h =>
          List.mem_cons_of_mem _ (hAB i h)
      · exact hAB

theorem preceded_append : Preceded A (L ++ K) ↔ Preceded A L ∧ Preceded (opens A L) K := by
  induction L generalizing A with
  | nil => simp [Preceded, opens]
  | cons g L ih => simp only [List.cons_append, Preceded, opens, ih, and_assoc]

theorem Preceded.insert (h : Preceded A (L ++ K)) (hf : f.ftype ≠ .data) :
    Preceded A (L ++ [f] ++ K) := by
  rw [preceded_append, preceded_append, opens_append]
  obtain ⟨hL, hK⟩ := preceded_append.mp h
  exact ⟨⟨hL, fun hd => absurd hd hf, trivial⟩, hK.mono subset_opens⟩

end Order

/-- The reliable messages that can still arrive, in the order of their arrival. -/
def reliablePath (l : Link Msg) : List Msg :=
  l.wire ++ if l.pc = .exited then [] else l.rel.map SendItem.msg

/-- What the queues hold: only reliable session frames in the reliable queue, control frames and
Datagrams in the priority queue. -/
structure Queued (l : Link Msg) : Prop where
  rel : ∀ x ∈ l.rel, x.reliable = true ∧ x.msg.ftype ≠ .datagram
  prio : ∀ x ∈ l.prio, if x.reliable then isControl x.msg.ftype = true else x.msg.ftype = .datagram
  wire : ∀ m ∈ l.wire, m.ftype ≠ .datagram
  loose : ∀ m ∈ l.loose, m.ftype = .datagram

structure Ordered (s : Sys) : Prop where
  queued : Queued s.up
  preceded : Preceded s.arrived (reliablePath s.up)
  opened : ∀ i x, s.instances[i]? = some x → x.phase = .opened → s.up.closed = false →
    s.up.pc ≠ .exited →
    i ∈ opens s.arrived (reliablePath s.up)
  held : ∀ g, Holds s.serverDec g → Speaks g → owner g ∈ s.arrived
  answers : ∀ i, .opened i ∈ s.answers ↔ i ∈ s.arrived

theorem ordered_start (reliable : Bool) : Ordered (start reliable) := by
  refine ⟨⟨?_, ?_, ?_, ?_⟩, trivial, ?_, ?_, ?_⟩
  · simp [start, Link.new]
  · simp [start, Link.new]
  · simp [start, Link.new]
  · simp [start, Link.new]
  · simp [start]
  · exact fun g hg => absurd hg (not_holds_new g)
  · simp [start]

def core (s : Sys) : Link Msg × List Instance × MuxDecoder Tagged × List Nat × List Answer :=
  (s.up, s.instances, s.serverDec, s.arrived, s.answers)

theorem Ordered.of_core {s t : Sys} (h : Ordered s) (heq : core t = core s) : Ordered t := by
  simp only [core, Prod.mk.injEq] at heq
  obtain ⟨hup, hinst, hdec, harr, hans⟩ := heq
  exact ⟨hup ▸ h.queued,
    by rw [hup, harr]; exact h.preceded, by rw [hup, harr, hinst]; exact h.opened,
    by rw [hdec, harr]; exact h.held, by rw [hans, harr]; exact h.answers⟩

section Client

variable {s : Sys} {i : Nat}

theorem sendItemTo_keeps (l : Link Msg) (priority : Bool) (item : SendItem Msg) :
    (l.sendItemTo priority item).closed = l.closed ∧ (l.sendItemTo priority item).pc = l.pc := by
  rw [Link.sendItemTo]
  split
  · exact ⟨rfl, rfl⟩
  · split <;> exact ⟨rfl, rfl⟩

theorem reliablePath_rel (l : Link Msg) (item : SendItem Msg) :
    reliablePath (l.sendItemTo false item) =
      if l.closed = true ∨ l.pc = .exited then reliablePath l
      else reliablePath l ++ [item.msg] := by
  by_cases hclosed : l.closed = true
  · rw [Link.sendItemTo, if_pos hclosed, if_pos (.inl hclosed)]
  · by_cases hpc : l.pc = .exited
    · simp [Link.sendItemTo, reliablePath, hclosed, hpc]
    · simp [Link.sendItemTo, reliablePath, hclosed, hpc]

theorem reliablePath_prio (l : Link Msg) (item : SendItem Msg) :
    reliablePath (l.sendItemTo true item) = reliablePath l := by
  rw [Link.sendItemTo]
  split <;> rfl

theorem Queued.sendItemTo {l : Link Msg} (h : Queued l) (priority : Bool) (item : SendItem Msg)
    (hrel : priority = false → item.reliable = true ∧ item.msg.ftype ≠ .datagram)
    (hprio : priority = true →
      if item.reliable then isControl item.msg.ftype = true else item.msg.ftype = .datagram) :
    Queued (l.sendItemTo priority item) := by
  rw [Link.sendItemTo]
  split
  · exact h
  · split
    next hp =>
      refine ⟨h.rel, fun x hx => ?_, h.wire, h.loose⟩
      rcases List.mem_append.mp hx with hx | hx
      · exact h.prio x hx
      · exact List.mem_singleton.mp hx ▸ hprio hp
    next hp =>
      refine ⟨fun x hx => ?_, h.prio, h.wire, h.loose⟩
      rcases List.mem_append.mp hx with hx | hx
      · exact h.rel x hx
      · exact List.mem_singleton.mp hx ▸ hrel (by simpa using hp)

theorem Ordered.sendReliable (h : Ordered s) {c : Call Tagged} (hc : c.ftype ≠ .datagram)
    (hdata : c.ftype = .data → s.up.closed = false → s.up.pc ≠ .exited →
      c.payload.1 ∈ opens s.arrived (reliablePath s.up)) :
    Ordered (clientSend s false c) ∧ (c.ftype = .open → s.up.closed = false → s.up.pc ≠ .exited →
      c.payload.1 ∈ opens s.arrived (reliablePath (clientSend s false c).up)) := by
  have hpath := reliablePath_rel s.up ⟨(stamp s.clientEnc c).1, c.ftype ≠ .datagram⟩
  have hkeeps := sendItemTo_keeps s.up false ⟨(stamp s.clientEnc c).1, c.ftype ≠ .datagram⟩
  have htype : (stamp s.clientEnc c).1.ftype = c.ftype := rfl
  have howner : owner (stamp s.clientEnc c).1 = c.payload.1 := rfl
  have hqueued : Queued (clientSend s false c).up :=
    h.queued.sendItemTo false _ (fun _ => ⟨by simpa using hc, hc⟩) (by simp)
  by_cases hdead : s.up.closed = true ∨ s.up.pc = .exited
  · rw [if_pos hdead] at hpath
    refine ⟨⟨hqueued, ?_, ?_, h.held, h.answers⟩, fun _ hclosed hpc => ?_⟩
    · simp only [clientSend, hpath]
      exact h.preceded
    · simp only [clientSend, hpath, hkeeps]
      exact h.opened
    · exact absurd hdead (by simp [hclosed, hpc])
  · obtain ⟨hclosed, hpc⟩ := not_or.mp hdead
    rw [if_neg hdead] at hpath
    have hclosed' : s.up.closed = false := by simpa using hclosed
    refine ⟨⟨hqueued, ?_, fun j x hx hphase _ _ => ?_, h.held, h.answers⟩, fun hopen _ _ => ?_⟩
    · simp only [clientSend, hpath]
      rw [preceded_append]
      exact ⟨h.preceded, fun hd => howner ▸ hdata (htype ▸ hd) hclosed' hpc, trivial⟩
    · simp only [clientSend, hpath]
      rw [opens_append]
      exact subset_opens j (h.opened j x hx hphase hclosed' hpc)
    · simp only [clientSend, hpath, opens_append, opens]
      rw [if_pos (htype.trans hopen)]
      exact List.mem_cons_self

theorem Ordered.sendPriority (h : Ordered s) {c : Call Tagged}
    (hc : isControl c.ftype = true ∨ c.ftype = .datagram) : Ordered (clientSend s true c) := by
  have hpath := reliablePath_prio s.up ⟨(stamp s.clientEnc c).1, c.ftype ≠ .datagram⟩
  have hkeeps := sendItemTo_keeps s.up true ⟨(stamp s.clientEnc c).1, c.ftype ≠ .datagram⟩
  have htype : (stamp s.clientEnc c).1.ftype = c.ftype := rfl
  refine ⟨h.queued.sendItemTo true _ (by simp) fun _ => ?_, ?_, ?_, h.held, h.answers⟩
  · rcases hc with hc | hc
    · simpa [(isControl_ne hc).2.1, htype] using hc
    · simp [hc, htype]
  · simp only [clientSend, hpath]
    exact h.preceded
  · simp only [clientSend, hpath, hkeeps]
    exact h.opened

theorem Ordered.setPhase (h : Ordered s) (p : Phase)
    (hp : p = .opened → s.up.closed = false → s.up.pc ≠ .exited →
      i ∈ opens s.arrived (reliablePath s.up)) :
    Ordered (setPhase s i p) := by
  refine ⟨h.queued, h.preceded, fun j x hx hphase hclosed hpc => ?_, h.held, h.answers⟩
  simp only [Endpoints.setPhase, List.getElem?_modify] at hx
  split at hx
  next hij =>
    obtain ⟨y, hy, rfl⟩ := Option.map_eq_some_iff.mp hx
    exact hij ▸ hp hphase hclosed hpc
  next =>
    obtain ⟨y, hy, rfl⟩ := Option.map_eq_some_iff.mp hx
    exact h.opened j _ hy hphase hclosed hpc

theorem Ordered.clientAct {t : Sys} (h : Ordered s) {a : ClientAct}
    (hact : clientAct s a = some t) : Ordered t := by
  cases acted hact with
  | allocated udp sid c reg halloc =>
      refine ⟨h.queued, h.preceded, fun j x hx hphase => ?_, h.held, h.answers⟩
      rw [List.getElem?_append] at hx
      split at hx
      · exact h.opened j x hx hphase
      · obtain rfl := List.mem_singleton.mp (List.mem_of_getElem? hx)
        simp at hphase
  | exhausted udp reg halloc => exact h.of_core rfl
  | opened a i x payload hx hphase =>
      obtain ⟨hsent, hopen⟩ :=
        h.sendReliable (c := ⟨.open, x.sid, 0, (i, payload)⟩) (by simp) (by simp)
      have hkeeps :=
        sendItemTo_keeps s.up false ⟨(stamp s.clientEnc ⟨.open, x.sid, 0, (i, payload)⟩).1, true⟩
      apply hsent.setPhase
      intro _ hclosed hpc
      exact hopen rfl (hkeeps.1 ▸ hclosed) (hkeeps.2 ▸ hpc)
  | sent a i x ftype payload hx hphase htype =>
      refine (h.sendReliable ?_ fun _ => h.opened i x hx hphase).1
      rcases htype with rfl | rfl <;> simp
  | cast a i x payload hx hphase => exact h.sendPriority (.inr rfl)
  | closed a i x hx hphase =>
      exact (h.sendReliable (c := ⟨.close, x.sid, 0, (i, [])⟩) (by simp) (by simp)).1.setPhase _
        (by simp)
  | dropped a i x hx hphase =>
      have hcore : Ordered { s with clientReg := dropReceiver (s.clientReg.remove x.sid) i } :=
        h.of_core rfl
      exact hcore.setPhase _ (by simp)
  | controlled a priority ftype payload hcontrol =>
      cases priority with
      | true => exact h.sendPriority (.inl hcontrol)
      | false =>
          have hne := isControl_ne hcontrol
          exact (h.sendReliable hne.2.1 fun hd => absurd hd hne.1).1

end Client

section Uplink

variable {s : Sys} {l : Link Msg}

theorem reliablePath_exited (h : l.pc = .exited) : reliablePath l = l.wire := by
  rw [reliablePath, if_pos h, List.append_nil]

theorem reliablePath_running (h : l.pc ≠ .exited) :
    reliablePath l = l.wire ++ l.rel.map SendItem.msg := by
  rw [reliablePath, if_neg h]

/-- What the thread does to the reliable path: it ends it, leaves it, or slips in a control
frame. -/
structure Advanced (l l' : Link Msg) : Prop where
  queued : Queued l'
  closed : l'.closed = l.closed
  path : (l'.pc = .exited ∧ reliablePath l' = l.wire) ∨
    (l.pc ≠ .exited ∧ l'.pc ≠ .exited ∧ (reliablePath l' = reliablePath l ∨
      ∃ m, isControl m.ftype = true ∧ reliablePath l' = l.wire ++ [m] ++ l.rel.map SendItem.msg))

theorem advanced_prio {item : SendItem Msg} {prio : List (SendItem Msg)} (h : Queued l)
    (hpc : l.pc ≠ .exited) (hprio : l.prio = item :: prio) (alive : Bool) :
    Advanced l (if alive then Link.sendOne { l with prio := prio } item
      else { l with prio := prio, pc := .exited }) := by
  have hrest : ∀ x ∈ prio, if x.reliable then isControl x.msg.ftype =
      true else x.msg.ftype = .datagram :=
    fun x hx => h.prio x (hprio ▸ List.mem_cons_of_mem _ hx)
  have hitem := h.prio item (hprio ▸ List.mem_cons_self)
  split
  · rw [Link.sendOne]
    split
    next hreliable =>
      rw [if_pos hreliable] at hitem
      refine ⟨⟨h.rel, hrest, fun m hm => ?_, h.loose⟩, rfl,
        .inr ⟨hpc, hpc, .inr ⟨item.msg, hitem, ?_⟩⟩⟩
      · rcases List.mem_append.mp hm with hm | hm
        · exact h.wire m hm
        · exact List.mem_singleton.mp hm ▸ (isControl_ne hitem).2.1
      · exact reliablePath_running hpc
    next hreliable =>
      rw [if_neg hreliable] at hitem
      refine ⟨⟨h.rel, hrest, h.wire, fun m hm => ?_⟩, rfl, .inr ⟨hpc, hpc, .inl rfl⟩⟩
      rcases List.mem_append.mp hm with hm | hm
      · exact h.loose m hm
      · exact List.mem_singleton.mp hm ▸ hitem
  · exact ⟨⟨h.rel, hrest, h.wire, h.loose⟩, rfl, .inl ⟨rfl, reliablePath_exited rfl⟩⟩

theorem advanced_rel {item : SendItem Msg} {rel : List (SendItem Msg)} (h : Queued l)
    (hpc : l.pc ≠ .exited) (hrel : l.rel = item :: rel) (alive : Bool) :
    Advanced l (if alive then { Link.sendOne { l with rel := rel } item with pc := .drain }
      else { l with rel := rel, pc := .exited }) := by
  have hrest : ∀ x ∈ rel, x.reliable = true ∧ x.msg.ftype ≠ .datagram :=
    fun x hx => h.rel x (hrel ▸ List.mem_cons_of_mem _ hx)
  obtain ⟨hreliable, htype⟩ := h.rel item (hrel ▸ List.mem_cons_self)
  split
  · rw [Link.sendOne, if_pos hreliable]
    refine ⟨⟨hrest, h.prio, fun m hm => ?_, h.loose⟩, rfl, .inr ⟨hpc, by simp, .inl ?_⟩⟩
    · rcases List.mem_append.mp hm with hm | hm
      · exact h.wire m hm
      · exact List.mem_singleton.mp hm ▸ htype
    · rw [reliablePath_running hpc, hrel, reliablePath_running (by simp)]
      simp
  · exact ⟨⟨hrest, h.prio, h.wire, h.loose⟩, rfl, .inl ⟨rfl, reliablePath_exited rfl⟩⟩

theorem advanced_pc (h : Queued l) (hpc : l.pc ≠ .exited) {pc : Pc} (hpc' : pc ≠ .exited) :
    Advanced l { l with pc := pc } := by
  refine ⟨⟨h.rel, h.prio, h.wire, h.loose⟩, rfl, .inr ⟨hpc, hpc', .inl ?_⟩⟩
  rw [reliablePath_running hpc, reliablePath_running hpc']

theorem advanced_runSendLoop (h : Queued l) (alive : Bool) : Advanced l (l.runSendLoop alive) := by
  rw [Link.runSendLoop]
  split
  next hpc =>
    split
    next item prio hprio => exact advanced_prio h (by simp [hpc]) hprio alive
    next => exact advanced_pc h (by simp [hpc]) (by simp)
  next hpc =>
    split
    next item rel hrel => exact advanced_rel h (by simp [hpc]) hrel alive
    next => exact advanced_pc h (by simp [hpc]) (by split <;> simp)
  next hpc =>
    split
    next item prio hprio => exact advanced_prio h (by simp [hpc]) hprio alive
    next => exact ⟨⟨h.rel, h.prio, h.wire, h.loose⟩, rfl, .inl ⟨rfl, reliablePath_exited rfl⟩⟩
  next hpc => exact ⟨h, rfl, .inl ⟨hpc, reliablePath_exited hpc⟩⟩

theorem preceded_wire {A : List Nat} (h : Preceded A (reliablePath l)) : Preceded A l.wire := by
  rw [reliablePath] at h
  exact (preceded_append.mp h).1

theorem Ordered.advance {l' : Link Msg} (h : Ordered s) (hadv : Advanced s.up l') :
    Ordered { s with up := l' } := by
  rcases hadv.path with ⟨hpc', hpath⟩ | ⟨hpc, hpc', hpath | ⟨m, hm, hpath⟩⟩
  · refine ⟨hadv.queued, ?_, fun i x _ _ _ hrun => absurd hpc' hrun, h.held, h.answers⟩
    simp only [hpath]
    exact preceded_wire h.preceded
  · refine ⟨hadv.queued, ?_, fun i x hx hphase hclosed _ => ?_, h.held, h.answers⟩
    · simp only [hpath]
      exact h.preceded
    · simp only [hpath]
      exact h.opened i x hx hphase (hadv.closed ▸ hclosed) hpc
  · have hold := h.preceded
    rw [reliablePath_running hpc] at hold
    refine ⟨hadv.queued, ?_, fun i x hx hphase hclosed _ => ?_, h.held, h.answers⟩
    · simp only [hpath]
      exact hold.insert (isControl_ne hm).1
    · have hmem := h.opened i x hx hphase (hadv.closed ▸ hclosed) hpc
      simp only [hpath]
      rw [reliablePath_running hpc, opens_append] at hmem
      rw [opens_append, opens_append]
      exact opens_mono subset_opens i hmem

end Uplink

section Server

variable {s t : Sys} {f : Msg}

theorem answered_opened {log : List Answer} (h : Answered log) (i : Nat) :
    Answered (log ++ [.opened i]) := by
  intro before j after heq
  rcases List.eq_nil_or_concat after with rfl | ⟨after, a, rfl⟩
  · have hlast := congrArg List.getLast? heq
    simp at hlast
  · rw [List.concat_eq_append, ← List.cons_append, ← List.append_assoc] at heq
    exact h before j after (List.append_inj_left' heq rfl)

theorem answered_reset {log : List Answer} {i : Nat} :
    Answered (log ++ [.reset i]) ↔ Answered log ∧ .opened i ∈ log := by
  constructor
  · intro h
    refine ⟨fun before j after heq => ?_, h log i [] rfl⟩
    exact h before j (after ++ [.reset i]) (by rw [heq, List.append_assoc, List.cons_append])
  · rintro ⟨h, hmem⟩ before j after heq
    rcases List.eq_nil_or_concat after with rfl | ⟨after, a, rfl⟩
    · obtain ⟨rfl, hlast⟩ := List.append_inj' heq rfl
      simp only [List.cons.injEq, Answer.reset.injEq, and_true] at hlast
      exact hlast ▸ hmem
    · rw [List.concat_eq_append, ← List.cons_append, ← List.append_assoc] at heq
      exact h before j after (List.append_inj_left' heq rfl)

def supply (s : Sys) : Link Msg × List Instance × MuxDecoder Tagged × List Nat :=
  (s.up, s.instances, s.serverDec, s.arrived)

theorem dispatch_answers (s : Sys) (f : Msg) :
    supply (dispatchOneFrame s f) = supply s ∧
      ((f.ftype ≠ .open ∧ (dispatchOneFrame s f).answers = s.answers) ∨
      ((f.ftype = .data ∨ f.ftype = .datagram) ∧
        (s.serverReg.route f.sessionId (.data f.payload)).1 = false ∧
        (dispatchOneFrame s f).answers = s.answers ++ [.reset (owner f)]) ∨
      (f.ftype = .open ∧ (dispatchOneFrame s f).answers = s.answers ++ [.opened (owner f)])) := by
  have h := dispatched s f
  generalize dispatchOneFrame s f = t at h ⊢
  cases h with
  | quiet reg htype => exact ⟨rfl, .inl ⟨htype, rfl⟩⟩
  | reset reg htype hroute => exact ⟨rfl, .inr (.inl ⟨htype, hroute, rfl⟩)⟩
  | accept reg htype => exact ⟨rfl, .inr (.inr ⟨htype, rfl⟩)⟩
  | refuse reg htype => exact ⟨rfl, .inr (.inr ⟨htype, rfl⟩)⟩
  | pong reg htype => exact ⟨rfl, .inl ⟨by simp [htype], rfl⟩⟩

theorem foldl_dispatch (A : List Nat) (out : List Msg) (hA : ∀ i, .opened i ∈ s.answers ↔ i ∈ A)
    (hout : ∀ g ∈ out, Speaks g → owner g ∈ A) :
    supply (out.foldl dispatchOneFrame s) = supply s ∧
      (∀ i, .opened i ∈ (out.foldl dispatchOneFrame s).answers ↔ i ∈ A) ∧
      (Answered s.answers → Answered (out.foldl dispatchOneFrame s).answers) := by
  induction out generalizing s with
  | nil => exact ⟨rfl, hA, id⟩
  | cons g out ih =>
      obtain ⟨hsupply, hcases⟩ := dispatch_answers s g
      have howner := hout g List.mem_cons_self
      have hrest : ∀ g ∈ out, Speaks g → owner g ∈ A :=
        fun g hg => hout g (List.mem_cons_of_mem _ hg)
      have hnext : (∀ i, .opened i ∈ (dispatchOneFrame s g).answers ↔ i ∈ A) ∧
          (Answered s.answers → Answered (dispatchOneFrame s g).answers) := by
        rcases hcases with ⟨-, hans⟩ | ⟨htype, -, hans⟩ | ⟨htype, hans⟩
        · rw [hans]
          exact ⟨hA, id⟩
        · have hmem : owner g ∈ A := howner (htype.elim .inl fun h => .inr (.inl h))
          refine ⟨fun i => ?_, fun h => ?_⟩
          · simp [hans, hA]
          · rw [hans]
            exact answered_reset.mpr ⟨h, (hA _).mpr hmem⟩
        · have hmem : owner g ∈ A := howner (.inr (.inr htype))
          refine ⟨fun i => ?_, fun h => hans ▸ answered_opened h _⟩
          rw [hans]
          simp only [List.mem_append, hA, List.mem_singleton, Answer.opened.injEq]
          exact ⟨fun h => h.elim id (· ▸ hmem), .inl⟩
      obtain ⟨hsup, hmem, hlog⟩ := ih hnext.1 hrest
      exact ⟨hsup.trans hsupply, hmem, fun h => hlog (hnext.2 h)⟩

theorem foldl_dispatch_open (A : List Nat) (out : List Msg)
    (hA : ∀ i, .opened i ∈ s.answers ↔ i ∈ A) (hf : f.ftype = .open)
    (hout : ∀ g ∈ out, Speaks g → owner g ∈ A ++ [owner f]) :
    supply ((f :: out).foldl dispatchOneFrame s) = supply s ∧
      (∀ i, .opened i ∈ ((f :: out).foldl dispatchOneFrame s).answers ↔ i ∈ A ++ [owner f]) ∧
      (Answered s.answers → Answered ((f :: out).foldl dispatchOneFrame s).answers) := by
  obtain ⟨hsupply, hcases⟩ := dispatch_answers s f
  have hans : (dispatchOneFrame s f).answers = s.answers ++ [.opened (owner f)] := by
    rcases hcases with ⟨hne, -⟩ | ⟨hdata, -⟩ | ⟨-, h⟩
    · exact absurd hf hne
    · simp [hf] at hdata
    · exact h
  have hA' : ∀ i, .opened i ∈ (dispatchOneFrame s f).answers ↔ i ∈ A ++ [owner f] := by
    intro i
    rw [hans]
    simp [hA]
  obtain ⟨hsup, hmem, hlog⟩ := foldl_dispatch (A ++ [owner f]) out hA' hout
  exact ⟨hsup.trans hsupply, hmem, fun h => hlog (hans ▸ answered_opened h _)⟩

theorem feedFrame_open (d : MuxDecoder Tagged) (hf : f.ftype = .open) :
    ∃ rest, (feedFrame d f).1 = f :: rest := by
  simp only [feedFrame, hf, if_true]
  split
  · exact ⟨[], rfl⟩
  split
  · exact ⟨[], rfl⟩
  obtain ⟨fs, hout, -⟩ := flushLoop_spec
    (mergeWaiting (baseline f) ((find d.preopen f.sessionId).getD [])).1.buffered
    (mergeWaiting (baseline f) ((find d.preopen f.sessionId).getD [])).1 [f]
  exact ⟨fs, hout⟩

theorem serverRecv_answers (hans : ∀ i, .opened i ∈ s.answers ↔ i ∈ s.arrived)
    (hheld : ∀ g, Holds s.serverDec g → Speaks g → owner g ∈ s.arrived)
    (hf : Speaks f → f.ftype ≠ .open → owner f ∈ s.arrived) :
    supply (serverRecv s f) = (s.up, s.instances, (feedFrame (countRx s.serverDec) f).2,
        if f.ftype = .open then s.arrived ++ [owner f] else s.arrived) ∧
      (∀ i, .opened i ∈ (serverRecv s f).answers ↔
        i ∈ if f.ftype = .open then s.arrived ++ [owner f] else s.arrived) ∧
      (Answered s.answers → Answered (serverRecv s f).answers) := by
  have hout : ∀ g ∈ (feedFrame (countRx s.serverDec) f).1, g ≠ f → Speaks g →
      owner g ∈ s.arrived := by
    intro g hg hne hspeaks
    exact (mem_feedFrame hg).elim (fun h => absurd h hne) fun h => hheld g h hspeaks
  by_cases htype : f.ftype = .open
  · obtain ⟨rest, hrest⟩ := feedFrame_open (countRx s.serverDec) htype
    rw [hrest] at hout
    simp only [serverRecv, htype, if_true, hrest]
    refine foldl_dispatch_open s.arrived rest hans htype fun g hg hspeaks => ?_
    by_cases hgf : g = f
    · simp [hgf]
    · exact List.mem_append_left _ (hout g (List.mem_cons_of_mem _ hg) hgf hspeaks)
  · simp only [serverRecv, htype, if_false]
    refine foldl_dispatch s.arrived _ hans fun g hg hspeaks => ?_
    by_cases hgf : g = f
    · exact hgf ▸ hf (hgf ▸ hspeaks) htype
    · exact hout g hg hgf hspeaks

theorem ordered_of_supply {l : Link Msg} {dec : MuxDecoder Tagged} {A : List Nat}
    (hsup : supply t = (l, s.instances, dec, A)) (queued : Queued l)
    (preceded : Preceded A (reliablePath l))
    (opened : ∀ i x, s.instances[i]? = some x → x.phase = .opened → l.closed = false →
      l.pc ≠ .exited →
      i ∈ opens A (reliablePath l))
    (held : ∀ g, Holds dec g → Speaks g → owner g ∈ A)
    (answers : ∀ i, .opened i ∈ t.answers ↔ i ∈ A) :
    Ordered t := by
  simp only [supply, Prod.mk.injEq] at hsup
  obtain ⟨hup, hinst, hdec, harr⟩ := hsup
  exact ⟨hup ▸ queued, by rw [hup, harr]; exact preceded, by rw [hup, harr, hinst]; exact opened,
    by rw [hdec, harr]; exact held, by rw [harr]; exact answers⟩

theorem Ordered.deliver {wire : List Msg} (h : Ordered s) (hwire : s.up.wire = f :: wire) :
    Ordered (serverRecv { s with up := { s.up with wire := wire } } f) ∧
      (Answered s.answers →
        Answered (serverRecv { s with up := { s.up with wire := wire } } f).answers) := by
  have hpath : reliablePath s.up = f :: reliablePath { s.up with wire := wire } := by
    simp only [reliablePath, hwire, List.cons_append]
  have hloose : f.ftype ≠ .datagram := h.queued.wire f (hwire ▸ List.mem_cons_self)
  have hpreceded := h.preceded
  rw [hpath] at hpreceded
  have hknown : Speaks f → f.ftype ≠ .open → owner f ∈ s.arrived := by
    rintro (hdata | hdatagram | hopen) hne
    · exact hpreceded.1 hdata
    · exact absurd hdatagram hloose
    · exact absurd hopen hne
  have hmore : ∀ i ∈ (if f.ftype = .open then owner f :: s.arrived else s.arrived),
      i ∈ if f.ftype = .open then s.arrived ++ [owner f] else s.arrived := by
    split
    · simp [or_comm]
    · exact fun i hi => hi
  obtain ⟨hsup, hans, hlog⟩ :=
    serverRecv_answers (s := { s with up := { s.up with wire := wire } }) h.answers h.held hknown
  refine ⟨ordered_of_supply (s := s) hsup ?_ (hpreceded.2.mono ?_) ?_ ?_ hans, hlog⟩
  · exact ⟨h.queued.rel, h.queued.prio,
      fun m hm => h.queued.wire m (hwire ▸ List.mem_cons_of_mem _ hm), h.queued.loose⟩
  · exact hmore
  · intro i x hx hphase hclosed hpc
    have hmem := h.opened i x hx hphase hclosed hpc
    rw [hpath] at hmem
    exact opens_mono hmore i hmem
  · intro g hg hspeaks
    by_cases hopen : f.ftype = .open
    · rw [if_pos hopen]
      rcases holds_feedFrame hg with rfl | hg
      · simp
      · exact List.mem_append_left _ (h.held g hg hspeaks)
    · rw [if_neg hopen]
      rcases holds_feedFrame hg with rfl | hg
      · exact hknown hspeaks hopen
      · exact h.held g hg hspeaks

theorem serverRecv_datagram (hf : f.ftype = .datagram) :
    serverRecv s f = dispatchOneFrame { s with serverDec := countRx s.serverDec } f := by
  have hout := feedFrame_unordered (countRx s.serverDec) (f := f) (by rw [hf]; rfl)
  simp [serverRecv, hout, hf]

theorem Queued.eraseLoose {l : Link Msg} (h : Queued l) (k : Nat) :
    Queued { l with loose := l.loose.eraseIdx k } :=
  ⟨h.rel, h.prio, h.wire, fun m hm => h.loose m (List.mem_of_mem_eraseIdx hm)⟩

theorem Ordered.deliverLoose {k : Nat} (h : Ordered s) (hf : s.up.loose[k]? = some f) :
    let t := serverRecv { s with up := { s.up with loose := s.up.loose.eraseIdx k } } f
    Ordered t ∧ t.answers = s.answers ++
      if (s.serverReg.route f.sessionId (.data f.payload)).1 then [] else [.reset (owner f)] := by
  have htype : f.ftype = .datagram := h.queued.loose f (List.mem_of_getElem? hf)
  intro t
  have hans : t.answers = s.answers ++
      if (s.serverReg.route f.sessionId (.data f.payload)).1 then [] else [.reset (owner f)] := by
    simp only [t, serverRecv_datagram htype, dispatchOneFrame_data (.inr htype)]
    split
    · simp
    · rfl
  have hsup : supply t =
      ({ s.up with loose := s.up.loose.eraseIdx k }, s.instances, countRx s.serverDec,
        s.arrived) := by
    simp only [t, serverRecv_datagram htype]
    exact (dispatch_answers _ f).1
  refine ⟨ordered_of_supply (s := s) hsup (h.queued.eraseLoose k) h.preceded h.opened
    h.held fun i => ?_, hans⟩
  rw [hans, ← h.answers]
  split <;> simp

end Server

section Steps

variable {s t : Sys}

theorem core_taskAct {j : Nat} {a : TaskAct} (h : taskAct s j a = some t) : core t = core s := by
  obtain ⟨x, -, ⟨-, priority, c, -, -, rfl⟩ | ⟨reg, rfl⟩ | ⟨-, rfl⟩ | ⟨-, reg, rfl⟩⟩ :=
    taskAct_cases h <;> rfl

theorem core_clientRecv (s : Sys) (f : Msg) : core (clientRecv s f) = core s := by
  apply clientRecv_induction (P := fun u => core u = core s) rfl
  exact fun u hu g _ => hu

def Known (s : Sys) (i : Nat) : Prop :=
  i ∈ s.arrived ∨ ∃ g ∈ s.up.wire ++ s.up.rel.map SendItem.msg, g.ftype = .open ∧ owner g = i

structure Tracked (s : Sys) : Prop where
  loose : ∀ f ∈ s.up.loose, Known s (owner f)
  prio : ∀ x ∈ s.up.prio, x.msg.ftype = .datagram → s.up.pc ≠ .exited → Known s (owner x.msg)

theorem tracked_start (reliable : Bool) : Tracked (start reliable) :=
  ⟨List.forall_mem_nil _, List.forall_mem_nil _⟩

theorem Tracked.of_core (h : Tracked s) (heq : core t = core s) : Tracked t := by
  simp only [core, Prod.mk.injEq] at heq
  obtain ⟨hup, -, -, harr, -⟩ := heq
  obtain ⟨hloose, hprio⟩ := h
  simp only [Known] at hloose hprio
  constructor
  · simpa only [Known, hup, harr] using hloose
  · simpa only [Known, hup, harr] using hprio

theorem Known.of_opened {i : Nat} {x : Instance} (h : Ordered s) (hx : s.instances[i]? = some x)
    (hphase : x.phase = .opened) (hclosed : s.up.closed = false) (hpc : s.up.pc ≠ .exited) :
    Known s i := by
  have hmem := h.opened i x hx hphase hclosed hpc
  rwa [reliablePath_running hpc, mem_opens] at hmem

theorem Known.clientSend {i : Nat} (h : Known s i) (priority : Bool) (c : Call Tagged) :
    Known (clientSend s priority c) i := by
  refine h.imp id ?_
  rintro ⟨g, hg, hopen⟩
  refine ⟨g, ?_, hopen⟩
  simp only [Endpoints.clientSend, Link.sendItemTo]
  split
  · exact hg
  · split
    · exact hg
    · rw [List.map_append, ← List.append_assoc]
      exact List.mem_append_left _ hg

theorem Tracked.clientSend (h : Tracked s) (priority : Bool) (c : Call Tagged)
    (hc : priority = true → c.ftype = .datagram → s.up.closed = false → s.up.pc ≠ .exited →
      Known s c.payload.1) :
    Tracked (clientSend s priority c) := by
  have hkeeps := sendItemTo_keeps s.up priority ⟨(stamp s.clientEnc c).1, c.ftype ≠ .datagram⟩
  constructor
  · intro f hf
    have hf' : f ∈ s.up.loose := by
      simp only [Endpoints.clientSend, Link.sendItemTo] at hf
      split at hf
      · exact hf
      · split at hf <;> exact hf
    exact (h.loose f hf').clientSend priority c
  · intro x hx htype hpc
    have hpc' : s.up.pc ≠ .exited := hkeeps.2 ▸ hpc
    by_cases hold : x ∈ s.up.prio
    · exact (h.prio x hold htype hpc').clientSend priority c
    · simp only [Endpoints.clientSend, Link.sendItemTo] at hx
      split at hx
      · exact absurd hx hold
      next hclosed =>
        split at hx
        next hp =>
          obtain rfl := List.mem_singleton.mp ((List.mem_append.mp hx).resolve_left hold)
          exact (hc hp htype (by simpa using hclosed) hpc').clientSend priority c
        next => exact absurd hx hold

theorem Tracked.clientAct {a : ClientAct} (h : Tracked s) (ho : Ordered s)
    (hact : clientAct s a = some t) : Tracked t := by
  cases acted hact with
  | allocated udp sid c reg halloc => exact ⟨h.loose, h.prio⟩
  | exhausted udp reg halloc => exact ⟨h.loose, h.prio⟩
  | opened a i x payload hx hphase =>
      have hsent := h.clientSend false ⟨.open, x.sid, 0, (i, payload)⟩ (by simp)
      exact ⟨hsent.loose, hsent.prio⟩
  | sent a i x ftype payload hx hphase htype =>
      exact h.clientSend false ⟨ftype, x.sid, 0, (i, payload)⟩ (by simp)
  | cast a i x payload hx hphase =>
      exact h.clientSend true ⟨.datagram, x.sid, 0, (i, payload)⟩ fun _ _ hclosed hpc =>
        .of_opened ho hx hphase hclosed hpc
  | closed a i x hx hphase =>
      have hsent := h.clientSend false ⟨.close, x.sid, 0, (i, [])⟩ (by simp)
      exact ⟨hsent.loose, hsent.prio⟩
  | dropped a i x hx hphase => exact ⟨h.loose, h.prio⟩
  | controlled a priority ftype payload hcontrol =>
      exact h.clientSend priority ⟨ftype, 0, 0, (0, payload)⟩ fun _ htype =>
        absurd htype (isControl_ne hcontrol).2.1

/-- What one operation of the sending thread does to the queues. -/
inductive Worked (l : Link Msg) : Bool → Link Msg → Prop
  | idle (alive : Bool) (pc : Pc) : (pc ≠ .exited → l.pc ≠ .exited) →
    Worked l alive { l with pc := pc }
  | urgent (item : SendItem Msg) (prio : List (SendItem Msg)) : l.pc ≠ .exited →
      l.prio = item :: prio →
      Worked l true (Link.sendOne { l with prio := prio } item)
  | urgentLost (item : SendItem Msg) (prio : List (SendItem Msg)) : l.prio = item :: prio →
      Worked l false { l with prio := prio, pc := .exited }
  | next (item : SendItem Msg) (rel : List (SendItem Msg)) : l.pc = .wait → l.rel = item :: rel →
      Worked l true { Link.sendOne { l with rel := rel } item with pc := .drain }
  | nextLost (item : SendItem Msg) (rel : List (SendItem Msg)) : l.pc = .wait →
      l.rel = item :: rel →
      Worked l false { l with rel := rel, pc := .exited }

theorem worked (l : Link Msg) (alive : Bool) : Worked l alive (l.runSendLoop alive) := by
  have hprio {item : SendItem Msg} {prio : List (SendItem Msg)} (hpc : l.pc ≠ .exited)
      (hp : l.prio = item :: prio) :
        Worked l alive (if alive then Link.sendOne { l with prio := prio }
          item else { l with prio := prio, pc := .exited }) := by
    cases alive with
    | true => exact .urgent item prio hpc hp
    | false => exact .urgentLost item prio hp
  rw [Link.runSendLoop]
  split
  next hpc =>
    split
    next item prio hp => exact hprio (by simp [hpc]) hp
    next => exact .idle alive .wait fun _ => by simp [hpc]
  next hpc =>
    split
    next item rel hr =>
      cases alive with
      | true => exact .next item rel hpc hr
      | false => exact .nextLost item rel hpc hr
    next => exact .idle alive _ fun _ => by simp [hpc]
  next hpc =>
    split
    next item prio hp => exact hprio (by simp [hpc]) hp
    next => exact .idle alive .exited fun hne => absurd rfl hne
  next hpc => exact .idle alive l.pc id

theorem Known.advance {i : Nat} {l : Link Msg} (h : Known s i)
    (hmsgs : s.up.wire ++ s.up.rel.map SendItem.msg ⊆ l.wire ++ l.rel.map SendItem.msg) :
    Known { s with up := l } i := by
  refine h.imp id ?_
  rintro ⟨g, hg, hopen⟩
  exact ⟨g, hmsgs hg, hopen⟩

theorem Tracked.work {l : Link Msg} {alive : Bool} (h : Tracked s) (hq : Queued s.up)
    (hl : InTime s (.up (.work alive))) (hw : Worked s.up alive l) :
    Tracked { s with up := l } := by
  cases hw with
  | idle alive pc hpc => exact ⟨h.loose, fun x hx htype hne => h.prio x hx htype (hpc hne)⟩
  | urgent item prio hpc hp =>
      have hitem := hq.prio item (hp ▸ List.mem_cons_self)
      have hrest : ∀ x ∈ prio, x.msg.ftype = .datagram → Known s (owner x.msg) :=
        fun x hx htype => h.prio x (hp ▸ List.mem_cons_of_mem _ hx) htype hpc
      rw [Link.sendOne]
      split
      next hreliable =>
        have hmsgs : s.up.wire ++ s.up.rel.map SendItem.msg ⊆ s.up.wire ++ [item.msg] ++
            s.up.rel.map SendItem.msg := by
          simp
        exact ⟨fun f hf => (h.loose f hf).advance hmsgs,
          fun x hx htype _ => (hrest x hx htype).advance hmsgs⟩
      next hloose =>
        rw [if_neg hloose] at hitem
        refine ⟨fun f hf => ?_, fun x hx htype _ => hrest x hx htype⟩
        rcases List.mem_append.mp hf with hf | hf
        · exact h.loose f hf
        · obtain rfl := List.mem_singleton.mp hf
          exact h.prio item (hp ▸ List.mem_cons_self) hitem hpc
  | urgentLost item prio hp => exact ⟨h.loose, fun x _ _ hne => absurd rfl hne⟩
  | next item rel hpc hr =>
      have hreliable := (hq.rel item (hr ▸ List.mem_cons_self)).1
      have hmsgs : s.up.wire ++ s.up.rel.map SendItem.msg ⊆ s.up.wire ++ [item.msg] ++
          rel.map SendItem.msg := by
        simp [hr]
      rw [Link.sendOne, if_pos hreliable]
      exact ⟨fun f hf => (h.loose f hf).advance hmsgs,
        fun x hx htype _ => (h.prio x hx htype (by simp [hpc])).advance hmsgs⟩
  | nextLost item rel hpc hr =>
      refine ⟨fun f hf => ?_, fun x _ _ hne => absurd rfl hne⟩
      rcases h.loose f hf with harrived | ⟨g, hg, hopen, howner⟩
      · exact Or.inl harrived
      · refine Or.inr ⟨g, ?_, hopen, howner⟩
        rw [hr, List.map_cons] at hg
        rcases List.mem_append.mp hg with hg | hg
        · exact List.mem_append_left _ hg
        · rcases List.mem_cons.mp hg with rfl | hg
          -- the Open that is lost is not that of a Datagram on its way
          · exact absurd howner.symm (hl hpc item (by simp [hr]) hopen f hf)
          · exact List.mem_append_right _ hg

theorem arrival_serverRecv (s : Sys) (f : Msg) : (serverRecv s f).up = s.up ∧
    (serverRecv s f).arrived = if f.ftype = .open then s.arrived ++ [owner f] else s.arrived := by
  apply serverRecv_induction
    (P := fun u => u.up = s.up ∧
      u.arrived = if f.ftype = .open then s.arrived ++ [owner f] else s.arrived) ⟨rfl, rfl⟩
  intro u hu g _
  have hsupply := (dispatch_answers u g).1
  simp only [supply, Prod.mk.injEq] at hsupply
  rw [hsupply.1, hsupply.2.2.2]
  exact hu

theorem Tracked.recv {f : Msg} {l : Link Msg} (h : Tracked s)
    (hmsgs : s.up.wire ++ s.up.rel.map SendItem.msg ⊆ f :: (l.wire ++ l.rel.map SendItem.msg))
    (hloose : l.loose ⊆ s.up.loose) (hprio : l.prio ⊆ s.up.prio) (hpc : l.pc = s.up.pc) :
    Tracked (serverRecv { s with up := l } f) := by
  obtain ⟨hup, harrived⟩ := arrival_serverRecv { s with up := l } f
  have hknown {i : Nat} (hi : Known s i) : Known (serverRecv { s with up := l } f) i := by
    rw [Known, hup, harrived]
    rcases hi with hi | ⟨g, hg, hopen, howner⟩
    · left
      split
      · exact List.mem_append_left _ hi
      · exact hi
    · rcases List.mem_cons.mp (hmsgs hg) with rfl | hg
      · left
        rw [if_pos hopen, ← howner]
        exact List.mem_append_right _ List.mem_cons_self
      · exact Or.inr ⟨g, hg, hopen, howner⟩
  constructor
  · rw [hup]
    exact fun g hg => hknown (h.loose g (hloose hg))
  · rw [hup]
    exact fun x hx htype hne => hknown (h.prio x (hprio hx) htype (hpc ▸ hne))

def Settled (s : Sys) : Prop := Ordered s ∧ Tracked s ∧ Answered s.answers

/-- The Open of a Datagram that arrives in time has arrived before. -/
theorem arrived_of_inTime {k : Nat} {f : Msg} (h : Tracked s)
    (hl : InTime s (.up (.deliverLoose k))) (hf : s.up.loose[k]? = some f) :
    owner f ∈ s.arrived := by
  rcases h.loose f (List.mem_of_getElem? hf) with harrived | ⟨g, hg, hopen, howner⟩
  · exact harrived
  · exact absurd howner (hl f hf g hg hopen)

theorem Settled.deliverLoose {k : Nat} {f : Msg} (h : Settled s)
    (hl : InTime s (.up (.deliverLoose k))) (hf : s.up.loose[k]? = some f) :
    Settled (serverRecv { s with up := { s.up with loose := s.up.loose.eraseIdx k } } f) := by
  obtain ⟨ho, ht, hlog⟩ := h
  obtain ⟨hordered, hans⟩ := ho.deliverLoose hf
  have htracked :
      Tracked (serverRecv { s with up := { s.up with loose := s.up.loose.eraseIdx k } } f) :=
    ht.recv (List.subset_cons_self f _) (List.eraseIdx_subset) (List.Subset.refl _) rfl
  refine ⟨hordered, htracked, ?_⟩
  rw [hans]
  split
  · rwa [List.append_nil]
  · exact answered_reset.mpr ⟨hlog, (ho.answers _).mpr (arrived_of_inTime ht hl hf)⟩

theorem Settled.up {a : LinkAct} (h : Settled s) (hl : InTime s (.up a))
    (hstep : step s (.up a) = some t) : Settled t := by
  obtain ⟨ho, ht, hlog⟩ := h
  obtain ⟨⟨m, link⟩, hact, hstep⟩ := Option.bind_eq_some_iff.mp hstep
  cases a with
  | work alive =>
      obtain ⟨rfl, rfl⟩ := Prod.mk.inj (Option.some.inj hact)
      obtain rfl := Option.some.inj hstep
      exact ⟨ho.advance (advanced_runSendLoop ho.queued alive),
        ht.work ho.queued hl (worked s.up alive), hlog⟩
  | deliver =>
      rw [Link.act] at hact
      split at hact
      next f wire hwire =>
        obtain ⟨rfl, rfl⟩ := Prod.mk.inj (Option.some.inj hact)
        obtain rfl := Option.some.inj hstep
        obtain ⟨hordered, hanswered⟩ := ho.deliver hwire
        refine ⟨hordered, ht.recv ?_ (List.Subset.refl _) (List.Subset.refl _) rfl, hanswered hlog⟩
        rw [hwire]
        exact List.Subset.refl _
      next => simp at hact
  | deliverLoose k =>
      obtain ⟨f, hf, heq⟩ := Option.map_eq_some_iff.mp hact
      obtain ⟨rfl, rfl⟩ := Prod.mk.inj heq
      obtain rfl := Option.some.inj hstep
      exact Settled.deliverLoose ⟨ho, ht, hlog⟩ hl hf
  | lose k =>
      rw [Link.act] at hact
      split at hact
      · obtain ⟨rfl, rfl⟩ := Prod.mk.inj (Option.some.inj hact)
        obtain rfl := Option.some.inj hstep
        exact ⟨⟨ho.queued.eraseLoose k, ho.preceded, ho.opened, ho.held, ho.answers⟩,
          ⟨fun f hf => ht.loose f (List.mem_of_mem_eraseIdx hf), ht.prio⟩, hlog⟩
      · simp at hact
  | close =>
      obtain ⟨rfl, rfl⟩ := Prod.mk.inj (Option.some.inj hact)
      obtain rfl := Option.some.inj hstep
      have hqueued : Queued { s.up with closed := true } :=
        ⟨ho.queued.rel, ho.queued.prio, ho.queued.wire, ho.queued.loose⟩
      refine ⟨⟨hqueued, ho.preceded, fun i x _ _ hclosed => ?_, ho.held, ho.answers⟩,
        ⟨ht.loose, ht.prio⟩, hlog⟩
      simp at hclosed

theorem answers_clientAct {a : ClientAct} (h : clientAct s a = some t) : t.answers = s.answers := by
  cases acted h <;> rfl

theorem Settled.of_core (h : Settled s) (heq : core t = core s) : Settled t := by
  have hans : t.answers = s.answers := congrArg (fun c => c.2.2.2.2) heq
  exact ⟨h.1.of_core heq, h.2.1.of_core heq, hans ▸ h.2.2⟩

theorem Settled.step {l : Label} (h : Settled s) (hl : InTime s l) (hstep : step s l = some t) :
    Settled t := by
  cases l with
  | client a =>
      exact ⟨h.1.clientAct hstep, h.2.1.clientAct h.1 hstep, answers_clientAct hstep ▸ h.2.2⟩
  | up a => exact h.up hl hstep
  | task j a => exact h.of_core (core_taskAct hstep)
  | control priority ftype payload =>
      rw [Endpoints.step] at hstep
      split at hstep
      · obtain rfl := Option.some.inj hstep
        exact h.of_core rfl
      · simp at hstep
  | down a =>
      apply h.of_core
      rcases down_cases hstep with ⟨f, link, -, rfl⟩ | ⟨link, -, rfl⟩
      · exact core_clientRecv _ f
      · rfl

end Steps

/-- A run in which no Datagram overtakes its Open resets only instances whose Open it has
handled. -/
theorem resets_follow_opens (reliable : Bool) (ls : List Label)
    (h : EachStep step InTime (start reliable) ls) :
    Throughout step (fun s => Answered s.answers) (start reliable) ls := by
  have hstart : Settled (start reliable) := by
    refine ⟨ordered_start reliable, tracked_start reliable, fun before i after heq => ?_⟩
    simp [start] at heq
  have hall : Throughout step Settled (start reliable) ls :=
    throughout_of_eachStep hstart (fun s l t hs hl hstep => hs.step hl hstep) h
  exact hall.mono fun s hs => hs.2.2

def waiting : List Label :=
  [.client (.allocate true), .client (.open 0 [1, 0, 0]),
    .client (.datagram 0 [1, 97, 0, 53, 7])] ++
  List.replicate 3 (.up (.work true)) ++
  [.up .deliver, .up (.deliverLoose 0), .task 0 (.drop true), .task 0 .notify, .task 0 .cleanup,
    .client (.datagram 0 [1, 97, 0, 53, 8]), .up (.work true), .up (.deliverLoose 0)]

theorem resets_follow_opens_waiting : EachStep step InTime (start true) waiting ∧
    (exec step (start true) waiting).map Sys.answers = some [.opened 0, .reset 0] ∧
    Throughout step (fun s => Answered s.answers) (start true) waiting := by
  have hok : EachStep step InTime (start true) waiting := by decide +kernel
  exact ⟨hok, by decide +kernel, resets_follow_opens true waiting hok⟩

/-- A UDP session opens and sends at once; its Datagram is taken from the priority queue first. -/
def overtaking : List Label :=
  [.client (.allocate true), .client (.open 0 [1, 0, 0]), .client (.datagram 0 [1, 97, 0, 53, 7]),
    .up (.work true), .up (.deliverLoose 0)]

theorem datagram_overtakes_open :
    ¬ Throughout step (fun s => Answered s.answers) (start true) overtaking := by
  intro h
  have hrun : (exec step (start true) overtaking).map Sys.answers = some [.reset 0] := by
    decide +kernel
  obtain ⟨s, hs, hans⟩ := Option.map_eq_some_iff.mp hrun
  have hlog := h overtaking (List.prefix_refl _) s hs [] 0 [] hans
  simp at hlog

end SrtVpn.OpenRace
