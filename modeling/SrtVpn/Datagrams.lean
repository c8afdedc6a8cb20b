import SrtVpn.Provenance
import SrtVpn.Tunnel

namespace SrtVpn.Datagrams

open BigEndian Tables Wire Encoder Decoder Dispatch Connection Endpoints Ownership ServerTasks
  Provenance Tunnel Runs
open HalfClose (Side)

def SentAsData (s : Net) : Side → Tagged → Prop
  | .server, p => ClientAct.data p.1 p.2 ∈ s.log
  | .client, p => p ∈ s.replies

/-- Every TCP loop has written only what Data frames of its own instance have brought, and its
instance is none that sends Datagrams. -/
def Unmixed (s : Net) : Prop :=
  ∀ x k, ∀ p ∈ (s.workers x k).writes, instanceOf s.sys x k = some p.1 ∧ isUdp s.sys p.1 = false ∧
  SentAsData s x p

/-- The client gives out an id only after all of its earlier sessions has passed. -/
def InTime (s : Net) : Tunnel.Label → Prop
  | .sys l => Patient s.sys l
  | _ => True

def fromClient (s : Net) (p : Tagged) : Prop := isUdp s.sys p.1 = true ∨ SentAsData s .server p

def fromServer (s : Net) (p : Tagged) : Prop := isUdp s.sys p.1 = true ∨ SentAsData s .client p

/-- All events that have been put into a channel. -/
def eventsAt (s : Sys) : Side → Nat → List (SessionEvent Tagged)
  | .client, i => eventsFor s.routed i
  | .server, j => queueOf s.serverReg j

def Manned (s : Net) (x : Side) (k : Nat) : Prop :=
  s.workers x k = .idle ∨ ∃ i y, instanceOf s.sys x k = some i ∧ s.sys.instances[i]? = some y ∧
  y.udp = false

structure Accounted (s : Net) : Prop where
  owned : Owned s.sys
  recorded : Recorded s.sys
  carries : Carries (fromClient s) (fromServer s) s.sys
  sorted : Sorted (fromClient s) s.sys
  manned : ∀ x k, Manned s x k
  reads : ∀ x k, (s.workers x k).Reads (eventsAt s.sys x k)

theorem accounted_start (reliable : Bool) : Accounted (Tunnel.start reliable) := by
  refine ⟨owned_start reliable, ⟨?_, ?_⟩, carries_start reliable, sorted_start reliable,
    fun _ _ => Or.inl rfl, ?_⟩
  · simp [Tunnel.start, Endpoints.start]
  · simp [Tunnel.start, Endpoints.start, SessionRegistry.new]
  · intro x k
    cases x <;> exact Worker.reads_idle

section Written

variable {s : Net} {i k : Nat} {y : Instance} {x : Side}

theorem isUdp_of (h : s.sys.instances[i]? = some y) : isUdp s.sys i = y.udp := by
  rw [isUdp, h]
  rfl

theorem Accounted.event (h : Accounted s) {p : Tagged} (hp : .data p ∈ eventsAt s.sys x k)
    (hi : instanceOf s.sys x k = some i) :
    p.1 = i ∧ (isUdp s.sys p.1 = true ∨ SentAsData s x p) := by
  cases x with
  | client =>
      obtain rfl := Option.some.inj hi
      obtain ⟨q, hq, he⟩ := List.mem_filterMap.mp hp
      obtain ⟨rfl, hevent⟩ := Option.ite_none_right_eq_some.mp he
      have howner := h.owned.delivered q hq
      rw [owner, (eventOf_data hevent).2] at howner
      exact ⟨howner, h.carries.routed q hq p hevent⟩
  | server =>
      obtain ⟨t, ht, rfl⟩ := Option.map_eq_some_iff.mp hi
      have hlt : k < s.sys.serverReg.channels.length := by
        rw [← h.sorted.housed.length]
        exact (List.getElem?_eq_some_iff.mp ht).1
      have hch := List.getElem?_eq_getElem hlt
      rw [eventsAt, queueOf_some hch] at hp
      exact h.sorted.contents k t _ p ht hch hp

theorem Accounted.unmixed (h : Accounted s) : Unmixed s := by
  intro x k p hp
  rcases h.manned x k with hidle | ⟨i, y, hi, hy, hudp⟩
  · rw [hidle] at hp
    simp [Worker.idle] at hp
  · have hevent := (h.reads x k).writes.subset (List.mem_map_of_mem hp)
    obtain ⟨rfl, hfrom⟩ := h.event hevent hi
    have htcp : isUdp s.sys p.1 = false := (isUdp_of hy).trans hudp
    refine ⟨hi, htcp, hfrom.resolve_left ?_⟩
    simp [htcp]

end Written

section Run

variable {s t : Net} {l : Endpoints.Label} {u : Sys}

def afterSys (s : Net) (l : Endpoints.Label) (u : Sys) : Net :=
  { s with sys := u, log := s.log ++ logged l, replies := s.replies ++ replied s.sys l }

theorem isUdp_grows (h : Grows s.sys u) {i : Nat} (hi : isUdp s.sys i = true) :
    isUdp u i = true := by
  rw [isUdp] at hi
  cases hy : s.sys.instances[i]? with
  | none => simp [hy] at hi
  | some y =>
      obtain ⟨z, hz, hzy⟩ := h.instances i y hy
      rw [hy] at hi
      rw [isUdp, hz]
      exact hzy.trans hi

theorem fromClient_grows (h : Grows s.sys u) {p : Tagged} (hp : fromClient s p) :
    fromClient (afterSys s l u) p :=
  hp.imp (isUdp_grows h) (List.mem_append_left _)

theorem fromServer_grows (h : Grows s.sys u) {p : Tagged} (hp : fromServer s p) :
    fromServer (afterSys s l u) p :=
  hp.imp (isUdp_grows h) (List.mem_append_left _)

theorem Accounted.carries_step (h : Accounted s) (hgrows : Grows s.sys u)
    (hallowed : allowed s.sys l = true) (hstep : Endpoints.step s.sys l = some u) :
    Carries (fromClient (afterSys s l u)) (fromServer (afterSys s l u)) u := by
  have hc : Carries (fromClient (afterSys s l u)) (fromServer (afterSys s l u)) s.sys :=
    h.carries.mono (fun p => fromClient_grows hgrows) (fun p => fromServer_grows hgrows)
  have hudp {i : Nat} {y : Instance} (hy : s.sys.instances[i]? = some y) (hyes : y.udp = true) :
      isUdp u i = true :=
    isUdp_grows hgrows ((isUdp_of hy).trans hyes)
  cases l with
  | client a =>
      apply hc.clientAct hstep
      · rintro i payload rfl
        exact Or.inr (List.mem_append_right _ (List.mem_singleton_self _))
      · rintro i y payload rfl hy hyes
        exact Or.inl (hudp hy hyes)
  | up act =>
      rcases up_cases hstep with ⟨f, link, hact, rfl⟩ | ⟨link, hact, rfl⟩
      · exact (hc.up_act hact).serverRecv (hc.up f (.inl ((mem_msgs_act hact).2 f rfl)))
      · exact hc.up_act hact
  | task j a =>
      apply hc.taskAct hstep
      rintro y payload hy (rfl | rfl)
      · refine Or.inr (List.mem_append_right _ ?_)
        simp [replied, hy]
      · simp only [allowed, hy, Option.map_some, Option.getD_some] at hallowed
        exact Or.inl (isUdp_grows hgrows hallowed)
  | control priority ftype payload =>
      obtain ⟨hcontrol, rfl⟩ := Option.ite_some_none_eq_some.mp hstep
      obtain ⟨hne, hne', -⟩ := isControl_ne hcontrol
      exact hc.serverSend priority (brings_of_ne hne hne')
  | down act =>
      rcases down_cases hstep with ⟨f, link, hact, rfl⟩ | ⟨link, hact, rfl⟩
      · exact (hc.down_act hact).clientRecv (hc.down f (.inl ((mem_msgs_act hact).2 f rfl)))
      · exact hc.down_act hact

theorem serverSide_clientAct {s t : Sys} {a : ClientAct} (h : clientAct s a = some t) :
    t.tasks = s.tasks ∧ t.serverReg = s.serverReg := by
  cases acted h <;> exact ⟨rfl, rfl⟩

theorem serverSide_clientRecv (s : Sys) (f : Msg) :
    (clientRecv s f).tasks = s.tasks ∧ (clientRecv s f).serverReg = s.serverReg := by
  apply clientRecv_induction
    (P := fun u => u.tasks = s.tasks ∧ u.serverReg = s.serverReg) ⟨rfl, rfl⟩
  exact fun u hu g _ => hu

theorem Accounted.sorted_step (h : Accounted s) (hgrows : Grows s.sys u)
    (hallowed : allowed s.sys l = true) (hstep : Endpoints.step s.sys l = some u) :
    Sorted (fromClient (afterSys s l u)) u := by
  have hs : Sorted (fromClient (afterSys s l u)) s.sys :=
    h.sorted.mono fun p => fromClient_grows hgrows
  cases l with
  | client a =>
      obtain ⟨htasks, hreg⟩ := serverSide_clientAct hstep
      exact hs.of_eq htasks hreg
  | up act =>
      rcases up_cases hstep with ⟨f, link, hact, rfl⟩ | ⟨link, hact, rfl⟩
      · have hf : InUp s.sys f := Or.inl ((mem_msgs_act hact).2 f rfl)
        have hlink :
            Sorted (fromClient (afterSys s (.up act) (serverRecv { s.sys with up := link } f)))
              { s.sys with up := link } :=
          hs.of_eq rfl rfl
        have hbrings : ∀ g, InUp s.sys g →
            Brings (fromClient (afterSys s (.up act) (serverRecv { s.sys with up := link } f))) g :=
          fun g hg p hp => fromClient_grows hgrows (h.carries.up g hg p hp)
        apply hlink.serverRecv (h.owned.sent.up_act hact) _ (h.owned.sent.up f hf) (hbrings f hf)
        exact fun g hg => hbrings g (hg.imp ((mem_msgs_act hact).1 g) id)
      · exact hs.of_eq rfl rfl
  | task j a =>
      apply hs.taskAct hstep
      rintro rfl
      simpa [allowed] using hallowed
  | control priority ftype payload =>
      obtain ⟨-, rfl⟩ := Option.ite_some_none_eq_some.mp hstep
      exact hs.of_eq rfl rfl
  | down act =>
      rcases down_cases hstep with ⟨f, link, -, rfl⟩ | ⟨link, -, rfl⟩
      · obtain ⟨htasks, hreg⟩ := serverSide_clientRecv { s.sys with down := link } f
        exact hs.of_eq htasks hreg
      · exact hs.of_eq rfl rfl

theorem instanceOf_grows {s t : Sys} (h : Grows s t) {x : Side} {k i : Nat}
    (hi : instanceOf s x k = some i) : instanceOf t x k = some i := by
  cases x with
  | client => exact hi
  | server =>
      obtain ⟨y, hy, rfl⟩ := Option.map_eq_some_iff.mp hi
      obtain ⟨z, hz, hzy⟩ := h.tasks k y hy
      rw [instanceOf, hz, Option.map_some, hzy]

theorem eventsAt_grows {s t : Sys} (h : Grows s t) (x : Side) (k : Nat) :
    eventsAt s x k <+: eventsAt t x k := by
  cases x with
  | client => exact h.routed.filterMap _
  | server => exact h.queue k

theorem Accounted.sysStep (h : Accounted s) (hok : Patient s.sys l)
    (hallowed : allowed s.sys l = true) (hstep : Endpoints.step s.sys l = some u) :
    Accounted (afterSys s l u) := by
  have hgrows := grows_step hstep
  refine ⟨h.owned.step hok hstep, h.recorded.step hstep, h.carries_step hgrows hallowed hstep,
    h.sorted_step hgrows hallowed hstep, ?_, ?_⟩
  · intro x k
    rcases h.manned x k with hidle | ⟨i, y, hi, hy, hudp⟩
    · exact Or.inl hidle
    · obtain ⟨z, hz, hzy⟩ := hgrows.instances i y hy
      exact Or.inr ⟨i, z, instanceOf_grows hgrows hi, hz, hzy.trans hudp⟩
  · intro x k
    exact (h.reads x k).mono (eventsAt_grows hgrows x k)

theorem Accounted.known (h : Accounted s) {x : Side} {k i : Nat} {ch : Channel Tagged}
    (hi : instanceOf s.sys x k = some i) (hch : channelOf s.sys x k = some ch)
    (hr : ch.receiver = true) : ∃ y, s.sys.instances[i]? = some y := by
  cases x with
  | client =>
      obtain rfl := Option.some.inj hi
      have hlt := (List.getElem?_eq_some_iff.mp hch).1
      rw [h.owned.channels] at hlt
      exact ⟨_, List.getElem?_eq_getElem hlt⟩
  | server =>
      obtain ⟨t, ht, rfl⟩ := Option.map_eq_some_iff.mp hi
      have hnotified := h.sorted.silent k t ht ((holdsReceiver_of hch).trans hr)
      have hlatest := (h.owned.sent.tasks t (List.mem_of_getElem? ht) hnotified).1
      rw [sids, List.getElem?_map] at hlatest
      obtain ⟨y, hy, -⟩ := Option.map_eq_some_iff.mp hlatest
      exact ⟨y, hy⟩

theorem Accounted.setWorker (h : Accounted s) {x : Side} {k i : Nat} {y : Instance} {w : Worker}
    (hi : instanceOf s.sys x k = some i) (hy : s.sys.instances[i]? = some y) (hudp : y.udp = false)
    (hw : w.Reads (eventsAt s.sys x k)) : Accounted (setWorker s x k w) := by
  refine ⟨h.owned, h.recorded, h.carries, h.sorted, ?_, ?_⟩
  · intro x' k'
    rw [Manned, workers_setWorker]
    split
    next heq =>
      obtain ⟨rfl, rfl⟩ := heq
      exact Or.inr ⟨i, y, hi, hy, hudp⟩
    next => exact h.manned x' k'
  · intro x' k'
    rw [workers_setWorker]
    split
    next heq =>
      obtain ⟨rfl, rfl⟩ := heq
      exact hw
    next => exact h.reads x' k'

theorem Accounted.step (h : Accounted s) {l : Tunnel.Label} (hok : InTime s l)
    (hstep : Tunnel.step s l = some t) : Accounted t := by
  cases l with
  | sys l =>
      obtain ⟨hallowed, hstep⟩ := Option.ite_none_right_eq_some.mp hstep
      obtain ⟨u, hu, rfl⟩ := Option.map_eq_some_iff.mp hstep
      exact h.sysStep hok hallowed hu
  | begin x k now =>
      obtain ⟨i, hi, hstep⟩ := Option.bind_eq_some_iff.mp hstep
      obtain ⟨ch, hch, hstep⟩ := Option.bind_eq_some_iff.mp hstep
      obtain ⟨⟨hudp, hrecv, hidle⟩, rfl⟩ := Option.ite_some_none_eq_some.mp hstep
      obtain ⟨y, hy⟩ := h.known hi hch hrecv
      apply h.setWorker hi hy ((isUdp_of hy).symm.trans hudp)
      refine ⟨(h.reads x k).writes, fun _ => (h.reads x k).taken ?_⟩
      intro l hl
      rw [hidle] at hl
      simp at hl
  | turn x k b =>
      obtain ⟨ch, hch, hstep⟩ := Option.bind_eq_some_iff.mp hstep
      obtain ⟨-, hstep⟩ := Option.ite_none_right_eq_some.mp hstep
      obtain ⟨w, hw, rfl⟩ := Option.map_eq_some_iff.mp hstep
      have hevents : eventsAt s.sys x k = ch.queue := by
        cases x with
        | client => exact (h.recorded.queue k ch hch).symm
        | server => exact queueOf_some hch
      have hreads := h.reads x k
      rcases h.manned x k with hidle | ⟨i, y, hi, hy, hudp⟩
      · rw [hidle] at hw
        simp [Worker.turn, Worker.idle] at hw
      · rw [hevents] at hreads
        apply h.setWorker hi hy hudp
        rw [hevents]
        exact hreads.turn hw

/-- In a run that gives out no id too early, no bytes of a Datagram and none of another session get
into a TCP stream. -/
theorem unmixed_of_inTime (reliable : Bool) (ls : List Tunnel.Label)
    (h : EachStep Tunnel.step InTime (Tunnel.start reliable) ls) :
    Throughout Tunnel.step Unmixed (Tunnel.start reliable) ls := by
  have hrun : Throughout Tunnel.step Accounted (Tunnel.start reliable) ls :=
    throughout_of_eachStep (accounted_start reliable)
      (fun s l t hs hok hstep => hs.step hok hstep) h
  exact hrun.mono fun s hs => hs.unmixed

end Run

def idsInSilence (s : Net) : Tunnel.Label → Bool
  | .sys l => inSilence s.sys l
  | _ => true

theorem inTime_of_idsInSilence {s : Net} {l : Tunnel.Label} (h : idsInSilence s l = true) :
    InTime s l := by
  cases l with
  | sys l => exact patient_of_inSilence h
  | begin x k n => trivial
  | turn x k t => trivial

def relayed : List Tunnel.Label :=
  [.sys (.client (.allocate true)), .sys (.client (.open 0 [])), .sys (.up (.work true)),
    .sys (.up (.work true)), .sys (.up .deliver), .sys (.client (.datagram 0 [9])),
    .sys (.up (.work true)), .sys (.up (.deliverLoose 0)),
    .sys (.task 0 (.datagram [4])), .sys (.down (.work true)), .sys (.down (.deliverLoose 0)),
    .sys (.client (.close 0)),
    .sys (.client (.drop 0)), .sys (.up (.work true)), .sys (.up (.work true)), .sys (.up .deliver),
    .sys (.task 0 (.drop true)),
    .sys (.task 0 .notify), .sys (.task 0 .cleanup), .sys (.down (.work true)),
      .sys (.down (.work true)), .sys (.down .deliver)]

def served (i k : Nat) : List Tunnel.Label :=
  [.sys (.client (.allocate false)), .sys (.client (.open i [])), .sys (.client (.data i [1, 2])),
    .sys (.up (.work true)), .sys (.up (.work true)), .sys (.up (.work true)),
    .sys (.up (.work true)), .sys (.up .deliver), .sys (.up .deliver),
    .begin .server k 0, .turn .server k (.recv 0 (.ok ())), .sys (.task k (.data [3])),
    .sys (.down (.work true)), .sys (.down (.work true)),
    .sys (.down .deliver), .begin .client i 0, .turn .client i (.recv 0 (.ok ()))]

def relayedThenServed : List Tunnel.Label :=
  relayed ++ (List.range' 1 254).flatMap
    (fun i => [.sys (.client (.allocate false)), .sys (.client (.drop i))]) ++ served 255 1

theorem unmixed_relayedThenServed :
    ∃ s, exec Tunnel.step (Tunnel.start true) relayedThenServed = some s ∧
      s.sys.routed.map (fun p => (p.1, p.2.sessionId)) = [(0, 1), (255, 1)] ∧
      (s.workers .server 1).writes = [(255, [1, 2])] ∧
      (s.workers .client 255).writes = [(255, [3])] ∧ Unmixed s := by
  have hrun : (exec (guarded Tunnel.step fun s l => idsInSilence s l = true) (Tunnel.start true)
      relayedThenServed).map (fun s => (s.sys.routed.map fun p => (p.1, p.2.sessionId),
        (s.workers .server 1).writes, (s.workers .client 255).writes)) =
        some ([(0, 1), (255, 1)], [(255, [1, 2])], [(255, [3])]) := by decide +kernel
  obtain ⟨s, hs, hwritten⟩ := Option.map_eq_some_iff.mp hrun
  simp only [Prod.mk.injEq] at hwritten
  obtain ⟨hsilence, hexec⟩ := eachStep_of_guarded hs
  have htime := hsilence.mono fun s l h => inTime_of_idsInSilence h
  refine ⟨s, hexec, hwritten.1, hwritten.2.1, hwritten.2.2, ?_⟩
  exact unmixed_of_inTime true relayedThenServed htime relayedThenServed
    (List.prefix_refl _) s hexec

/-- A Datagram of a UDP session is late; its id has come round to a TCP session. -/
def late : List Tunnel.Label :=
  [.sys (.client (.allocate true)), .sys (.client (.open 0 [])), .sys (.up (.work true)),
    .sys (.up (.work true)), .sys (.up .deliver), .sys (.client (.datagram 0 [9])),
    .sys (.up (.work true)), .sys (.client (.close 0)),
    .sys (.client (.drop 0)), .sys (.up (.work true)), .sys (.up (.work true)), .sys (.up .deliver),
    .sys (.task 0 (.drop true)),
    .sys (.task 0 .notify), .sys (.task 0 .cleanup)] ++
  (List.range' 1 254).flatMap
    (fun i => [.sys (.client (.allocate false)), .sys (.client (.drop i))]) ++
  [.sys (.client (.allocate false)), .sys (.client (.open 255 [])), .sys (.up (.work true)),
    .sys (.up (.work true)), .sys (.up .deliver), .sys (.up (.deliverLoose 0)), .begin .server 1 0,
      .turn .server 1 (.recv 0 (.ok ()))]

theorem late_datagram_written : ¬ Throughout Tunnel.step Unmixed (Tunnel.start true) late := by
  intro h
  have hrun : (exec Tunnel.step (Tunnel.start true) late).map
      (fun s => ((s.workers .server 1).writes, s.sys.tasks.map Task.owner)) =
      some ([(0, [9])], [0, 255]) := by decide +kernel
  obtain ⟨s, hs, hwritten⟩ := Option.map_eq_some_iff.mp hrun
  obtain ⟨hwrites, howners⟩ := Prod.mk.inj hwritten
  have hmem : (0, [9]) ∈ (s.workers .server 1).writes := by
    rw [hwrites]
    exact List.mem_singleton_self _
  have howner := (h late (List.prefix_refl _) s hs .server 1 _ hmem).1
  rw [instanceOf, ← List.getElem?_map, howners] at howner
  simp at howner

end SrtVpn.Datagrams
