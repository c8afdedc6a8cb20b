import SrtVpn.Endpoints
import SrtVpn.Runs

namespace SrtVpn.Cleanup

open BigEndian Tables Wire Dispatch Endpoints Runs

/-- What the server does to its registry: its receive loop handles a frame the decoder returned, a
forwarding task goes on, or the connection ends. -/
inductive ServerLabel
  | frame (f : Msg)
  | task (j : Nat) (a : TaskAct)
  | closeAll

/-- The wrapper of a task removes the id once the handler has returned, when the task's channel is
gone. -/
def serverStep (s : Sys) : ServerLabel → Option Sys
  | .frame f => some (dispatchOneFrame s f)
  | .task j .cleanup => if holdsReceiver s.serverReg j then none else taskAct s j .cleanup
  | .task j a => taskAct s j a
  | .closeAll => some { s with serverReg := s.serverReg.closeAll.2 }

def OwnRemoval (s : Sys) (l : ServerLabel) : Prop :=
  ∀ t, serverStep s l = some t → ∀ sid c, find s.serverReg.sessions sid = some c →
    find t.serverReg.sessions sid ≠ some c → l = .closeAll ∨ ∃ a, l = .task c a

/-- An Open is registered only when every earlier task of its id has made its last removal. -/
def Sequential (s : Sys) (l : ServerLabel) : Prop :=
  ∀ f, l = .frame f → Opens s f → ∀ t ∈ s.tasks, t.sid = f.sessionId → t.ended = true

section Registry

variable {α : Type}

def receivers (reg : SessionRegistry α) : List Bool := reg.channels.map Channel.receiver

theorem map_modify_of_eq {A B : Type} (l : List A) (i : Nat) (f : A → A) (g : A → B)
    (h : ∀ x, g (f x) = g x) : (l.modify i f).map g = l.map g := by
  apply List.ext_getElem?
  intro j
  rw [List.getElem?_map, List.getElem?_map, List.getElem?_modify]
  cases l[j]? with
  | none => rfl
  | some x =>
      by_cases hij : i = j
      · simp [hij, h]
      · simp [hij]

theorem receivers_route (reg : SessionRegistry α) (sid : UInt16) (e : SessionEvent α) :
    receivers (reg.route sid e).2 = receivers reg := by
  rw [SessionRegistry.route]
  split
  · apply map_modify_of_eq
    intro ch
    rw [Channel.send]
    split <;> rfl
  · rfl

theorem receivers_remove (reg : SessionRegistry α) (sid : UInt16) :
    receivers (reg.remove sid) = receivers reg := by
  rw [SessionRegistry.remove]
  split
  · exact map_modify_of_eq _ _ _ _ fun _ => rfl
  · rfl

theorem receivers_closeAll (reg : SessionRegistry α) :
    receivers reg.closeAll.2 = receivers reg := by
  simp only [receivers, SessionRegistry.closeAll, List.map_map]
  rfl

theorem receivers_dispatchFrame (f : Frame α) (reg : SessionRegistry α) :
    receivers (dispatchFrame f reg).2 = receivers reg := by
  rw [dispatchFrame_registry]
  split
  · exact receivers_route reg _ _
  · rfl

theorem holdsReceiver_eq (reg : SessionRegistry Tagged) (j : Nat) :
    holdsReceiver reg j = (receivers reg)[j]?.getD false := by
  simp [holdsReceiver, receivers]

theorem length_receivers (reg : SessionRegistry α) :
    (receivers reg).length = reg.channels.length := by simp [receivers]

theorem receivers_dropReceiver (reg : SessionRegistry Tagged) (j k : Nat) :
    holdsReceiver (dropReceiver reg j) k = true → holdsReceiver reg k = true := by
  simp only [holdsReceiver, dropReceiver, List.getElem?_modify]
  cases reg.channels[k]? with
  | none => simp
  | some ch =>
      by_cases hjk : j = k
      · simp [hjk, Channel.dropReceiver]
      · simp [hjk]

end Registry

/-- Tasks and channels go in step; an entry leads to a task of its id, and every other task of that
id has ended; a task that has ended holds its channel no more. -/
structure Tidy (s : Sys) : Prop where
  aligned : s.tasks.length = s.serverReg.channels.length
  entry : ∀ sid c, find s.serverReg.sessions sid = some c →
    (∃ t, s.tasks[c]? = some t ∧ t.sid = sid) ∧
      ∀ j u, s.tasks[j]? = some u → u.sid = sid → j ≠ c → u.ended = true
  gone : ∀ j u, s.tasks[j]? = some u → u.ended = true → holdsReceiver s.serverReg j = false

theorem tidy_start (reliable : Bool) : Tidy (start reliable) := by
  refine ⟨rfl, ?_, ?_⟩
  · simp [start, SessionRegistry.new]
  · simp [start]

section Step

variable {s t : Sys} {j : Nat}

theorem Tidy.of_same (h : Tidy s) (htasks : t.tasks = s.tasks)
    (hsessions : t.serverReg.sessions = s.serverReg.sessions)
    (hreceivers : receivers t.serverReg = receivers s.serverReg) : Tidy t := by
  refine ⟨?_, ?_, ?_⟩
  · rw [htasks, h.aligned, ← length_receivers, ← length_receivers, hreceivers]
  · rw [htasks, hsessions]
    exact h.entry
  · intro j u hu hended
    rw [htasks] at hu
    rw [holdsReceiver_eq, hreceivers, ← holdsReceiver_eq]
    exact h.gone j u hu hended

theorem Tidy.frame (h : Tidy s) {f : Msg} (hseq : Sequential s (.frame f)) :
    Tidy (dispatchOneFrame s f) := by
  have htasks := tasks_dispatchOneFrame s f
  have hreg : (dispatchOneFrame s f).serverReg = _ :=
    (serverReg_dispatchOneFrame s f).trans (regAfter_eq s f)
  by_cases ho : Opens s f
  · rw [if_pos ho] at htasks hreg
    have hold (j : Nat) (u : Task) (hu : (dispatchOneFrame s f).tasks[j]? = some u)
        (hj : j ≠ s.tasks.length) : s.tasks[j]? = some u := by
      rw [htasks, List.getElem?_append] at hu
      split at hu
      next => exact hu
      next hge =>
        have hlen := (List.getElem?_eq_some_iff.mp hu).1
        simp only [List.length_singleton] at hlen
        omega
    refine ⟨?_, ?_, ?_⟩
    · rw [htasks, hreg, List.length_append, h.aligned]
      simp [SessionRegistry.register]
    · intro sid c hc
      rw [hreg, SessionRegistry.register, find_insert] at hc
      split at hc
      next hsid =>
        obtain rfl : s.serverReg.channels.length = c := Option.some.inj hc
        rw [← h.aligned]
        refine ⟨⟨_, by rw [htasks, List.getElem?_concat_length], hsid.symm⟩,
          fun j u hu husid hj => ?_⟩
        exact hseq f rfl ho u (List.mem_of_getElem? (hold j u hu hj)) (husid.trans hsid)
      next hsid =>
        obtain ⟨⟨t, ht, htsid⟩, hothers⟩ := h.entry sid c hc
        have hlt : c < s.tasks.length := (List.getElem?_eq_some_iff.mp ht).1
        refine ⟨⟨t, by rw [htasks, List.getElem?_append_left hlt, ht], htsid⟩,
          fun j u hu husid hj => ?_⟩
        by_cases hlast : j = s.tasks.length
        · rw [htasks, hlast, List.getElem?_concat_length] at hu
          obtain rfl := Option.some.inj hu
          exact absurd husid.symm hsid
        · exact hothers j u (hold j u hu hlast) husid hj
    · intro j u hu hended
      by_cases hlast : j = s.tasks.length
      · rw [htasks, hlast, List.getElem?_concat_length] at hu
        obtain rfl := Option.some.inj hu
        simp at hended
      · have hu' := hold j u hu hlast
        have hlt : j < s.serverReg.channels.length := by
          rw [← h.aligned]
          exact (List.getElem?_eq_some_iff.mp hu').1
        rw [hreg, holdsReceiver, SessionRegistry.register, List.getElem?_append_left hlt]
        exact h.gone j u hu' hended
  · rw [if_neg ho] at htasks hreg
    apply h.of_same htasks
    · rw [hreg, sessions_dispatchFrame]
    · rw [hreg, receivers_dispatchFrame]

theorem Tidy.find_remove (h : Tidy s) {u : Task} (hu : s.tasks[j]? = some u)
    (hlive : u.ended = false) {sid : UInt16} {c : Nat} (hc : find s.serverReg.sessions sid = some c)
    (hgone : find (s.serverReg.remove u.sid).sessions sid ≠ some c) : c = j := by
  rw [SessionRegistry.find_remove] at hgone
  split at hgone
  next hsid =>
    by_contra hne
    have hended := (h.entry sid c hc).2 j u hu hsid.symm (Ne.symm hne)
    rw [hlive] at hended
    simp at hended
  next => exact absurd hc hgone

theorem Tidy.remove (h : Tidy s) (sid : UInt16) :
    Tidy { s with serverReg := s.serverReg.remove sid } := by
  refine ⟨?_, ?_, ?_⟩
  · rw [SessionRegistry.length_channels_remove]
    exact h.aligned
  · intro sid' c hc
    rw [SessionRegistry.find_remove] at hc
    split at hc
    next => simp at hc
    next => exact h.entry sid' c hc
  · intro k v hv hended
    rw [holdsReceiver_eq, receivers_remove, ← holdsReceiver_eq]
    exact h.gone k v hv hended

theorem Tidy.dropReceiver (h : Tidy s) (j : Nat) :
    Tidy { s with serverReg := dropReceiver s.serverReg j } := by
  refine ⟨?_, h.entry, ?_⟩
  · simp only [Endpoints.dropReceiver, List.length_modify]
    exact h.aligned
  · intro k v hv hended
    by_contra hholds
    have hbefore := receivers_dropReceiver s.serverReg j k (by simpa using hholds)
    rw [h.gone k v hv hended] at hbefore
    simp at hbefore

theorem Tidy.setTask (h : Tidy s) {u v : Task} (hu : s.tasks[j]? = some u) (hsid : v.sid = u.sid)
    (hkeep : u.ended = true → v.ended = true)
    (hgone : v.ended = true → holdsReceiver s.serverReg j = false) :
    Tidy (setTask s j v) := by
  have hget (k : Nat) : (Endpoints.setTask s j v).tasks[k]? =
      if j = k then some v else s.tasks[k]? := by
    have hlt := (List.getElem?_eq_some_iff.mp hu).1
    rw [Endpoints.setTask, List.getElem?_set, if_pos hlt]
  refine ⟨?_, ?_, ?_⟩
  · rw [Endpoints.setTask, List.length_set]
    exact h.aligned
  · intro sid c hc
    obtain ⟨⟨t, ht, htsid⟩, hothers⟩ := h.entry sid c hc
    constructor
    · rw [hget]
      split
      next hjc =>
        rw [hjc, ht] at hu
        obtain rfl := Option.some.inj hu
        exact ⟨v, rfl, hsid.trans htsid⟩
      next => exact ⟨t, ht, htsid⟩
    · intro k w hw hwsid hk
      rw [hget] at hw
      split at hw
      next hjk =>
        obtain rfl := Option.some.inj hw
        exact hkeep (hothers j u hu (hsid ▸ hwsid) (hjk ▸ hk))
      next => exact hothers k w hw hwsid hk
  · intro k w hw hended
    rw [hget] at hw
    split at hw
    next hjk =>
      obtain rfl := Option.some.inj hw
      exact hjk ▸ hgone hended
    next => exact h.gone k w hw hended

theorem Tidy.serverSend (h : Tidy s) (priority : Bool) (c : Encoder.Call Tagged) :
    Tidy (serverSend s priority c) :=
  h.of_same rfl rfl rfl

theorem Tidy.task (h : Tidy s) {a : TaskAct} (hstep : serverStep s (.task j a) = some t) :
    Tidy t ∧ ∀ sid c, find s.serverReg.sessions sid = some c →
    find t.serverReg.sessions sid ≠ some c → c = j := by
  have hsame {t : Sys} (ht : Tidy t) (hsessions : t.serverReg.sessions = s.serverReg.sessions) :
      Tidy t ∧ ∀ sid c, find s.serverReg.sessions sid = some c →
      find t.serverReg.sessions sid ≠ some c → c = j :=
    ⟨ht, fun sid c hc hne => absurd (hsessions ▸ hc) hne⟩
  cases a with
  | data payload =>
      obtain ⟨u, hu, hact⟩ := Option.bind_eq_some_iff.mp hstep
      obtain ⟨-, rfl⟩ := Option.ite_some_none_eq_some.mp hact
      exact hsame (h.serverSend _ _) rfl
  | fin =>
      obtain ⟨u, hu, hact⟩ := Option.bind_eq_some_iff.mp hstep
      obtain ⟨-, rfl⟩ := Option.ite_some_none_eq_some.mp hact
      exact hsame (h.serverSend _ _) rfl
  | datagram payload =>
      obtain ⟨u, hu, hact⟩ := Option.bind_eq_some_iff.mp hstep
      obtain ⟨-, rfl⟩ := Option.ite_some_none_eq_some.mp hact
      exact hsame (h.serverSend _ _) rfl
  | drop session =>
      obtain ⟨u, hu, hact⟩ := Option.bind_eq_some_iff.mp hstep
      obtain ⟨hholds, rfl⟩ := Option.ite_some_none_eq_some.mp hact
      have hlive : u.ended = false := by
        by_contra hended
        rw [h.gone j u hu (by simpa using hended)] at hholds
        simp at hholds
      cases session with
      | false => exact hsame (h.dropReceiver j) rfl
      | true => exact ⟨(h.remove u.sid).dropReceiver j,
          fun sid c hc hne => h.find_remove hu hlive hc hne⟩
  | notify =>
      obtain ⟨u, hu, hact⟩ := Option.bind_eq_some_iff.mp hstep
      obtain ⟨-, rfl⟩ := Option.ite_some_none_eq_some.mp hact
      exact hsame ((h.serverSend _ _).setTask hu rfl id (h.gone j u hu)) rfl
  | cleanup =>
      obtain ⟨hholds, hact⟩ := Option.ite_none_left_eq_some.mp hstep
      obtain ⟨u, hu, hact⟩ := Option.bind_eq_some_iff.mp hact
      obtain ⟨hguard, rfl⟩ := Option.ite_some_none_eq_some.mp hact
      refine ⟨(h.remove u.sid).setTask hu rfl (fun _ => rfl) fun _ => ?_, fun sid c hc hne => ?_⟩
      · rw [holdsReceiver_eq, receivers_remove, ← holdsReceiver_eq]
        simpa using hholds
      · exact h.find_remove hu hguard.2 hc hne

theorem Tidy.step (h : Tidy s) {l : ServerLabel} (hseq : Sequential s l)
    (hstep : serverStep s l = some t) : Tidy t := by
  cases l with
  | frame f =>
      obtain rfl := Option.some.inj hstep
      exact h.frame hseq
  | task j a => exact (h.task hstep).1
  | closeAll =>
      obtain rfl := Option.some.inj hstep
      refine ⟨?_, ?_, ?_⟩
      · simp only [SessionRegistry.closeAll, List.length_map]
        exact h.aligned
      · simp [SessionRegistry.closeAll]
      · intro k v hv hended
        rw [holdsReceiver_eq, receivers_closeAll, ← holdsReceiver_eq]
        exact h.gone k v hv hended

theorem find_dispatchOneFrame {f : Msg} {sid : UInt16} {c : Nat}
    (hc : find s.serverReg.sessions sid = some c) :
    find (dispatchOneFrame s f).serverReg.sessions sid = some c := by
  rw [serverReg_dispatchOneFrame, regAfter_eq]
  split
  next ho =>
    rw [SessionRegistry.register, find_insert, if_neg]
    · exact hc
    · rintro rfl
      simp [ho.2.2] at hc
  next =>
    rw [sessions_dispatchFrame]
    exact hc

theorem Tidy.ownRemoval (h : Tidy s) (l : ServerLabel) : OwnRemoval s l := by
  intro t hstep sid c hc hne
  cases l with
  | frame f =>
      obtain rfl := Option.some.inj hstep
      exact absurd (find_dispatchOneFrame hc) hne
  | task j a =>
      obtain rfl := (h.task hstep).2 sid c hc hne
      exact Or.inr ⟨a, rfl⟩
  | closeAll => exact Or.inl rfl

end Step

/-- As long as no id is registered again before the last task of that id is through, no cleanup
takes away the entry of another session. -/
theorem entries_removed_by_owner (reliable : Bool) (ls : List ServerLabel)
    (h : EachStep serverStep Sequential (start reliable) ls) :
    EachStep serverStep OwnRemoval (start reliable) ls := by
  have htidy : Throughout serverStep Tidy (start reliable) ls :=
    throughout_of_eachStep (tidy_start reliable) (fun s l t hs hok hstep => hs.step hok hstep) h
  exact eachStep_of_throughout (fun s l t _ hs _ => hs.ownRemoval l) htidy

def openFrame (i : Nat) : Msg := ⟨.open, 1, 0x01000000, 0, (i, [])⟩

def oneAfterAnother : List ServerLabel :=
  [.frame (openFrame 0), .task 0 (.drop true), .task 0 .notify, .task 0 .cleanup,
    .frame (openFrame 1)]

theorem entries_removed_by_owner_in_turn :
    EachStep serverStep Sequential (start true) oneAfterAnother ∧
    EachStep serverStep OwnRemoval (start true) oneAfterAnother := by
  have hother {s : Sys} {j : Nat} {a : TaskAct} : Sequential s (.task j a) :=
    fun f hf => by cases hf
  have hturn : EachStep serverStep Sequential (start true) oneAfterAnother := by
    refine eachStep_cons (fun f _ _ t ht => by simp [start] at ht) fun s hs => ?_
    obtain rfl := Option.some.inj hs
    refine eachStep_cons hother fun s hs => ?_
    obtain rfl := Option.some.inj hs
    refine eachStep_cons hother fun s hs => ?_
    obtain rfl := Option.some.inj hs
    refine eachStep_cons hother fun s hs => ?_
    obtain rfl := Option.some.inj hs
    refine eachStep_cons (fun f _ _ t ht _ => ?_) fun s _ => eachStep_of_forall (by simp)
    have hended : t ∈ [(⟨1, 0, true, true⟩ : Task)] := ht
    rw [List.mem_singleton.mp hended]
  exact ⟨hturn, entries_removed_by_owner true oneAfterAnother hturn⟩

def overlapping : List ServerLabel :=
  [.frame (openFrame 0), .task 0 (.drop true), .frame (openFrame 1), .task 0 .notify]

theorem cleanup_removes_successor :
    ¬ EachStep serverStep OwnRemoval (start true) (overlapping ++ [.task 0 .cleanup]) := by
  intro h
  have hrun : ((exec serverStep (start true) overlapping).bind fun s =>
      (serverStep s (.task 0 .cleanup)).map fun t =>
      (find s.serverReg.sessions 1, find t.serverReg.sessions 1)) = some (some 1, none) := by
        decide +kernel
  obtain ⟨s, hs, hrun⟩ := Option.bind_eq_some_iff.mp hrun
  obtain ⟨t, ht, hfind⟩ := Option.map_eq_some_iff.mp hrun
  obtain ⟨hbefore, hafter⟩ := Prod.mk.inj hfind
  rcases h overlapping _ s t (List.prefix_refl _) hs ht t ht 1 1 hbefore
    (by simp [hafter]) with hl | ⟨a, hl⟩
  · simp at hl
  · simp at hl

end SrtVpn.Cleanup
