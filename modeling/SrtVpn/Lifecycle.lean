import Mathlib.Logic.Function.Basic
import SrtVpn.Runs

namespace SrtVpn.Lifecycle

open Runs

inductive Thread
  | send
  | recv
  deriving DecidableEq, Repr

/-- A thread runs its loop, leaves it, sets the flag and ends. -/
inductive Stage
  | running
  | left
  | stored
  | ended
  deriving DecidableEq, Repr

/-- Where a call of `close` stands. -/
inductive Pc
  | enter
  | takeRel
  | takePrio
  | srtClose
  | drain
  | join (handles : List Thread)
  | returned
  deriving DecidableEq, Repr

/-- A connection: the flag, whether each queue still has its sender, how often the socket was
closed, the handles not yet taken, the threads joined so far, the threads themselves, the calls of
`close`, and whether the last of them is the one made by `Drop`. -/
structure Conn where
  closed : Bool
  sendRelTx : Bool
  sendPrioTx : Bool
  srtCloses : Nat
  threads : List Thread
  joined : List Thread
  stage : Thread → Stage
  calls : List Pc
  dropping : Bool

def connect : Conn := ⟨false, true, true, 0, [.send, .recv], [], fun _ => .running, [], false⟩

/-- One step of `close`. The flag is swapped first, and a call that finds it set does nothing more;
a join waits for its thread. -/
def close (s : Conn) : Pc → Option (Pc × Conn)
  | .enter => some (if s.closed then .returned else .takeRel, { s with closed := true })
  | .takeRel => some (.takePrio, { s with sendRelTx := false })
  | .takePrio => some (.srtClose, { s with sendPrioTx := false })
  | .srtClose => some (.drain, { s with srtCloses := s.srtCloses + 1 })
  | .drain => some (.join s.threads, { s with threads := [] })
  | .join [] => some (.returned, s)
  | .join (th :: ths) =>
      if s.stage th = .ended then some (.join ths, { s with joined := s.joined ++ [th] }) else none
  | .returned => none

def setStage (s : Conn) (th : Thread) (x : Stage) :
    Conn := { s with stage := Function.update s.stage th x }

inductive ConnLabel
  | call
  | drop
  | advance (k : Nat)
  | leave (th : Thread)
  | store (th : Thread)
  | finish (th : Thread)

/-- `Drop` starts when no other call is left; both threads set the flag on their way out, whatever
made them leave their loops. -/
def connStep (s : Conn) : ConnLabel → Option Conn
  | .call => if s.dropping then none else some { s with calls := s.calls ++ [.enter] }
  | .drop =>
      if s.dropping = false ∧ s.calls.all (· = .returned) then
        some { s with calls := s.calls ++ [.enter], dropping := true }
      else none
  | .advance k => do
      let pc ← s.calls[k]?
      let (pc', t) ← close s pc
      some { t with calls := t.calls.set k pc' }
  | .leave th => if s.stage th = .running then some (setStage s th .left) else none
  | .store th =>
      if s.stage th = .left then some { setStage s th .stored with closed := true } else none
  | .finish th => if s.stage th = .stored then some (setStage s th .ended) else none

def TornDown (s : Conn) : Prop :=
  s.srtCloses = 1 ∧ s.sendRelTx = false ∧ s.sendPrioTx = false ∧ s.joined = [.send, .recv]

def DropReturned (s : Conn) : Prop := s.dropping = true ∧ ∀ pc ∈ s.calls, pc = .returned

/-- A thread sets the flag only when a call of `close` has set it before. -/
def FlagFirst (s : Conn) (l : ConnLabel) : Prop := ∀ th, l = .store th → s.closed = true

section Invariant

variable {s t : Conn}

/-- How far the one call that does the work has come. -/
def Progress (s : Conn) : Pc → Prop
  | .enter => False
  | .takeRel => s.srtCloses = 0 ∧ s.threads = [.send, .recv] ∧ s.joined = []
  | .takePrio => s.srtCloses = 0 ∧ s.threads = [.send, .recv] ∧ s.joined = [] ∧ s.sendRelTx = false
  | .srtClose => s.srtCloses = 0 ∧ s.threads = [.send, .recv] ∧ s.joined = [] ∧
      s.sendRelTx = false ∧ s.sendPrioTx = false
  | .drain => s.srtCloses = 1 ∧ s.threads = [.send, .recv] ∧ s.joined = [] ∧ s.sendRelTx = false ∧
      s.sendPrioTx = false
  | .join ths => s.srtCloses = 1 ∧ s.joined ++ ths = [.send, .recv] ∧ s.sendRelTx = false ∧
      s.sendPrioTx = false
  | .returned => TornDown s

def Idle (pc : Pc) : Prop := pc = .enter ∨ pc = .returned

structure Fresh (s : Conn) : Prop where
  closed : s.closed = false
  calls : ∀ pc ∈ s.calls, pc = .enter
  srtCloses : s.srtCloses = 0
  threads : s.threads = [.send, .recv]
  joined : s.joined = []

structure Working (s : Conn) (k : Nat) : Prop where
  closed : s.closed = true
  progress : ∃ pc, s.calls[k]? = some pc ∧ Progress s pc
  others : ∀ j pc, s.calls[j]? = some pc → j ≠ k → Idle pc

structure Abandoned (s : Conn) : Prop where
  closed : s.closed = true
  calls : ∀ pc ∈ s.calls, Idle pc
  srtCloses : s.srtCloses = 0

theorem fresh_connect : Fresh connect := ⟨rfl, by simp [connect], rfl, rfl, rfl⟩

theorem connStep_cases {l : ConnLabel} (h : connStep s l = some t) :
    (∃ d, t = { s with calls := s.calls ++ [.enter], dropping := d }) ∨
      (∃ k pc pc' u, l = .advance k ∧ s.calls[k]? = some pc ∧ close s pc = some (pc', u) ∧
        t = { u with calls := u.calls.set k pc' }) ∨
      (∃ f, t = { s with stage := f }) ∨
      ∃ th f, l = .store th ∧ t = { s with stage := f, closed := true } := by
  cases l with
  | call =>
      obtain ⟨hd, heq⟩ := Option.ite_none_left_eq_some.mp h
      obtain rfl := Option.some.inj heq
      exact Or.inl ⟨s.dropping, rfl⟩
  | drop =>
      obtain ⟨-, rfl⟩ := Option.ite_some_none_eq_some.mp h
      exact Or.inl ⟨true, rfl⟩
  | advance k =>
      obtain ⟨pc, hpc, h⟩ := Option.bind_eq_some_iff.mp h
      obtain ⟨⟨pc', u⟩, hclose, h⟩ := Option.bind_eq_some_iff.mp h
      obtain rfl := Option.some.inj h
      exact Or.inr (Or.inl ⟨k, pc, pc', u, rfl, hpc, hclose, rfl⟩)
  | leave th =>
      obtain ⟨-, rfl⟩ := Option.ite_some_none_eq_some.mp h
      exact Or.inr (Or.inr (Or.inl ⟨_, rfl⟩))
  | store th =>
      obtain ⟨-, rfl⟩ := Option.ite_some_none_eq_some.mp h
      exact Or.inr (Or.inr (Or.inr ⟨th, _, rfl, rfl⟩))
  | finish th =>
      obtain ⟨-, rfl⟩ := Option.ite_some_none_eq_some.mp h
      exact Or.inr (Or.inr (Or.inl ⟨_, rfl⟩))

/-- A call of `close` that has closed the socket and has threads to wait for. -/
def Pc.joining : Pc → Bool
  | .drain => true
  | .join _ => true
  | _ => false

theorem close_frame {pc pc' : Pc} (h : close s pc = some (pc', t)) :
    t.calls = s.calls ∧ (s.closed = true → t.closed = true) ∧
      t.srtCloses = s.srtCloses + (if pc = .srtClose then 1 else 0) ∧
      (pc'.joining = true → pc = .srtClose ∨ pc.joining = true) := by
  cases pc with
  | enter =>
      obtain ⟨rfl, rfl⟩ := Prod.mk.inj (Option.some.inj h)
      refine ⟨rfl, fun _ => rfl, rfl, ?_⟩
      split <;> simp [Pc.joining]
  | join ths =>
      cases ths with
      | nil =>
          obtain ⟨rfl, rfl⟩ := Prod.mk.inj (Option.some.inj h)
          exact ⟨rfl, id, rfl, fun _ => Or.inr rfl⟩
      | cons th ths =>
          obtain ⟨-, h⟩ := Option.ite_some_none_eq_some.mp h
          obtain ⟨rfl, rfl⟩ := Prod.mk.inj h
          exact ⟨rfl, id, rfl, fun _ => Or.inr rfl⟩
  | returned => simp [close] at h
  | _ =>
      obtain ⟨rfl, rfl⟩ := Prod.mk.inj (Option.some.inj h)
      exact ⟨rfl, id, rfl, by simp [Pc.joining]⟩

theorem closed_step {l : ConnLabel} (hc : s.closed = true) (h : connStep s l = some t) :
    t.closed = true := by
  rcases connStep_cases h with ⟨d, rfl⟩ | ⟨j, pc, pc', u, -, -, hclose, rfl⟩ | ⟨f, rfl⟩ |
      ⟨th, f, -, rfl⟩
  · exact hc
  · exact (close_frame hclose).2.1 hc
  · exact hc
  · rfl

/-- The socket is closed by a call of `close` that comes to it, and by nothing else. -/
theorem srtCloses_step {l : ConnLabel} (h : connStep s l = some t) :
    t.srtCloses = s.srtCloses ∨
      t.srtCloses = s.srtCloses + 1 ∧ ∃ k, l = .advance k ∧ s.calls[k]? = some .srtClose := by
  rcases connStep_cases h with ⟨d, rfl⟩ | ⟨k, pc, pc', u, hl, hpc, hclose, rfl⟩ | ⟨f, rfl⟩ |
      ⟨th, f, -, rfl⟩
  · exact Or.inl rfl
  · have hcount := (close_frame hclose).2.2.1
    by_cases hsrt : pc = .srtClose
    · rw [if_pos hsrt] at hcount
      exact Or.inr ⟨hcount, k, hl, hsrt ▸ hpc⟩
    · rw [if_neg hsrt] at hcount
      exact Or.inl hcount
  · exact Or.inl rfl
  · exact Or.inl rfl

/-- Threads are joined only after the socket is closed. -/
def ClosedFirst (s : Conn) : Prop := ∀ pc ∈ s.calls, pc.joining = true → s.srtCloses ≠ 0

theorem ClosedFirst.step {l : ConnLabel} (hc : ClosedFirst s) (h : connStep s l = some t) :
    ClosedFirst t := by
  rcases connStep_cases h with ⟨d, rfl⟩ | ⟨k, pc, pc', u, -, hpc, hclose, rfl⟩ | ⟨f, rfl⟩ |
      ⟨th, f, -, rfl⟩
  · intro pc hpc hj
    rcases List.mem_append.mp hpc with hpc | hpc
    · exact hc pc hpc hj
    · obtain rfl := List.mem_singleton.mp hpc
      simp [Pc.joining] at hj
  · obtain ⟨hcalls, -, hcount, hjoin⟩ := close_frame hclose
    intro q hq hj
    dsimp only at hq ⊢
    rw [hcount]
    rw [hcalls] at hq
    rcases List.mem_or_eq_of_mem_set hq with hq | rfl
    · have := hc q hq hj
      omega
    · rcases hjoin hj with rfl | hj'
      · simp
      · have := hc pc (List.mem_of_getElem? hpc) hj'
        omega
  · exact hc
  · exact hc

theorem Progress.step {pc pc' : Pc} (hp : Progress s pc) (hc : s.closed = true)
    (h : close s pc = some (pc', t)) : Progress t pc' ∧ t.closed = true := by
  cases pc with
  | enter => exact hp.elim
  | takeRel =>
      obtain ⟨rfl, rfl⟩ := Prod.mk.inj (Option.some.inj h)
      obtain ⟨hn, hth, hj⟩ := hp
      exact ⟨⟨hn, hth, hj, rfl⟩, hc⟩
  | takePrio =>
      obtain ⟨rfl, rfl⟩ := Prod.mk.inj (Option.some.inj h)
      obtain ⟨hn, hth, hj, hrel⟩ := hp
      exact ⟨⟨hn, hth, hj, hrel, rfl⟩, hc⟩
  | srtClose =>
      obtain ⟨rfl, rfl⟩ := Prod.mk.inj (Option.some.inj h)
      obtain ⟨hn, hth, hj, hrel, hprio⟩ := hp
      exact ⟨⟨by rw [hn], hth, hj, hrel, hprio⟩, hc⟩
  | drain =>
      obtain ⟨rfl, rfl⟩ := Prod.mk.inj (Option.some.inj h)
      obtain ⟨hn, hth, hj, hrel, hprio⟩ := hp
      exact ⟨⟨hn, by rw [hj, hth]; rfl, hrel, hprio⟩, hc⟩
  | join ths =>
      obtain ⟨hn, hj, hrel, hprio⟩ := hp
      cases ths with
      | nil =>
          obtain ⟨rfl, rfl⟩ := Prod.mk.inj (Option.some.inj h)
          exact ⟨⟨hn, hrel, hprio, by simpa using hj⟩, hc⟩
      | cons th ths =>
          obtain ⟨-, h⟩ := Option.ite_some_none_eq_some.mp h
          obtain ⟨rfl, rfl⟩ := Prod.mk.inj h
          exact ⟨⟨hn, by simpa using hj, hrel, hprio⟩, hc⟩
  | returned => simp [close] at h

theorem Progress.setCalls {pc : Pc} (hp : Progress s pc) (calls : List Pc) (d : Bool)
    (f : Thread → Stage) (b : Bool) :
    Progress { s with calls := calls, dropping := d, stage := f, closed := b } pc := by
  cases pc <;> exact hp

theorem close_idle {pc pc' : Pc} (hi : Idle pc) (hc : s.closed = true)
    (h : close s pc = some (pc', t)) : pc' = .returned ∧ t = s := by
  rcases hi with rfl | rfl
  · obtain ⟨rfl, rfl⟩ := Prod.mk.inj (Option.some.inj h)
    rw [hc]
    exact ⟨rfl, by rw [← hc]⟩
  · simp [close] at h

theorem Fresh.step (h : Fresh s) {l : ConnLabel} (hstep : connStep s l = some t) :
    Fresh t ∨ (∃ k, Working t k) ∨ (∃ th, l = .store th) ∧ Abandoned t := by
  rcases connStep_cases hstep with ⟨d, rfl⟩ | ⟨k, pc, pc', u, -, hpc, hclose, rfl⟩ | ⟨f, rfl⟩ |
      ⟨th, f, rfl, rfl⟩
  · refine Or.inl ⟨h.closed, fun pc hpc => ?_, h.srtCloses, h.threads, h.joined⟩
    rcases List.mem_append.mp hpc with hpc | hpc
    · exact h.calls pc hpc
    · exact List.mem_singleton.mp hpc
  · obtain rfl := h.calls pc (List.mem_of_getElem? hpc)
    obtain ⟨rfl, rfl⟩ := Prod.mk.inj (Option.some.inj hclose)
    have hlt : k < s.calls.length := (List.getElem?_eq_some_iff.mp hpc).1
    refine Or.inr
      (Or.inl ⟨k, rfl, ⟨.takeRel, ?_, h.srtCloses, h.threads, h.joined⟩, fun j pc hj hne => ?_⟩)
    · rw [h.closed, List.getElem?_set_self hlt]
      rfl
    · rw [List.getElem?_set_ne (Ne.symm hne)] at hj
      exact Or.inl (h.calls pc (List.mem_of_getElem? hj))
  · exact Or.inl ⟨h.closed, h.calls, h.srtCloses, h.threads, h.joined⟩
  · refine Or.inr (Or.inr ⟨⟨th, rfl⟩, rfl, fun pc hpc => Or.inl (h.calls pc hpc), h.srtCloses⟩)

theorem Fresh.store (h : Fresh s) {th : Thread} (hstep : connStep s (.store th) = some t) :
    Abandoned t := by
  obtain ⟨-, rfl⟩ := Option.ite_some_none_eq_some.mp hstep
  exact ⟨rfl, fun pc hpc => Or.inl (h.calls pc hpc), h.srtCloses⟩

theorem Working.step {k : Nat} (h : Working s k) {l : ConnLabel} (hstep : connStep s l = some t) :
    Working t k := by
  obtain ⟨hc, ⟨pc, hpc, hp⟩, hothers⟩ := h
  have hlt : k < s.calls.length := (List.getElem?_eq_some_iff.mp hpc).1
  rcases connStep_cases hstep with ⟨d, rfl⟩ | ⟨j, pcj, pc', u, -, hpcj, hclose, rfl⟩ | ⟨f, rfl⟩ |
      ⟨th, f, -, rfl⟩
  · refine ⟨hc, ⟨pc, ?_, hp.setCalls _ d s.stage s.closed⟩, fun j pc' hj hne => ?_⟩
    · rw [List.getElem?_append_left hlt, hpc]
    · rw [List.getElem?_append] at hj
      split at hj
      next => exact hothers j pc' hj hne
      next =>
        exact Or.inl (List.mem_singleton.mp (List.mem_of_getElem? hj))
  · have hcalls := (close_frame hclose).1
    have hltj : j < u.calls.length := by
      rw [hcalls]
      exact (List.getElem?_eq_some_iff.mp hpcj).1
    by_cases hjk : j = k
    · subst hjk
      obtain rfl : pcj = pc := Option.some.inj (hpcj.symm.trans hpc)
      obtain ⟨hp', hc'⟩ := hp.step hc hclose
      refine ⟨hc', ⟨pc', List.getElem?_set_self hltj, hp'.setCalls _ u.dropping u.stage u.closed⟩,
        fun i pci hi hne => ?_⟩
      rw [List.getElem?_set_ne (Ne.symm hne), hcalls] at hi
      exact hothers i pci hi hne
    · obtain ⟨rfl, rfl⟩ := close_idle (hothers j pcj hpcj hjk) hc hclose
      refine ⟨hc, ⟨pc, ?_, hp.setCalls _ u.dropping u.stage u.closed⟩, fun i pci hi hne => ?_⟩
      · rw [List.getElem?_set_ne hjk, hpc]
      · rw [List.getElem?_set] at hi
        split at hi
        next => exact Or.inr (Option.some.inj hi).symm
        next => exact hothers i pci hi hne
  · exact ⟨hc, ⟨pc, hpc, hp.setCalls s.calls s.dropping f s.closed⟩, hothers⟩
  · exact ⟨rfl, ⟨pc, hpc, hp.setCalls s.calls s.dropping f true⟩, hothers⟩

theorem Abandoned.step (h : Abandoned s) {l : ConnLabel} (hstep : connStep s l = some t) :
    Abandoned t := by
  rcases connStep_cases hstep with ⟨d, rfl⟩ | ⟨j, pcj, pc', u, -, hpcj, hclose, rfl⟩ | ⟨f, rfl⟩ |
      ⟨th, f, -, rfl⟩
  · refine ⟨h.closed, fun pc hpc => ?_, h.srtCloses⟩
    rcases List.mem_append.mp hpc with hpc | hpc
    · exact h.calls pc hpc
    · exact Or.inl (List.mem_singleton.mp hpc)
  · obtain ⟨rfl, rfl⟩ := close_idle (h.calls pcj (List.mem_of_getElem? hpcj)) h.closed hclose
    refine ⟨h.closed, fun pc hpc => ?_, h.srtCloses⟩
    rcases List.mem_or_eq_of_mem_set hpc with hpc | rfl
    · exact h.calls pc hpc
    · exact Or.inr rfl
  · exact ⟨h.closed, h.calls, h.srtCloses⟩
  · exact ⟨rfl, h.calls, h.srtCloses⟩

end Invariant

section Run

variable {ls : List ConnLabel} {s : Conn}

theorem called_of_dropping (hrun : exec connStep connect ls = some s) (hd : s.dropping = true) :
    s.calls ≠ [] := by
  have hinv : Throughout connStep (fun t => t.dropping = true → t.calls ≠ []) connect ls := by
    apply throughout_of_step
    · intro h
      simp [connect] at h
    · intro t l t' ht hstep hd
      rcases connStep_cases hstep with ⟨d, rfl⟩ | ⟨j, pcj, pc', u, -, hpcj, hclose, rfl⟩ |
          ⟨f, rfl⟩ | ⟨th, f, -, rfl⟩
      · simp
      · have hlen : u.calls ≠ [] := by
          rw [(close_frame hclose).1]
          intro hnil
          simp [hnil] at hpcj
        simpa using hlen
      · exact ht hd
      · exact ht hd
  exact hinv ls (List.prefix_refl _) s hrun hd

theorem worked_of_flagFirst (h : EachStep connStep FlagFirst connect ls) :
    Throughout connStep (fun s => Fresh s ∨ ∃ k, Working s k) connect ls := by
  refine throughout_of_eachStep (P := fun s => Fresh s ∨ ∃ k, Working s k)
    (Or.inl fresh_connect) ?_ h
  rintro s l t (hf | ⟨k, hw⟩) hok hstep
  · rcases hf.step hstep with hf' | hw | ⟨⟨th, hl⟩, -⟩
    · exact Or.inl hf'
    · exact Or.inr hw
    · have hclosed := hok th hl
      rw [hf.closed] at hclosed
      simp at hclosed
  · exact Or.inr ⟨k, hw.step hstep⟩

/-- Once a thread has been first at the flag, no call does the work any more. -/
theorem abandoned_of_not_flagFirst (hrun : exec connStep connect ls = some s)
    (h : ¬ EachStep connStep FlagFirst connect ls) : Abandoned s := by
  have hinv : Throughout connStep (fun t => Fresh t ∨ t.closed = true) connect ls := by
    refine throughout_of_step (P := fun t => Fresh t ∨ t.closed = true) (Or.inl fresh_connect) ?_
    rintro t l t' (hf | hc) hstep
    · rcases hf.step hstep with hf' | ⟨k, hw⟩ | ⟨-, ha⟩
      · exact Or.inl hf'
      · exact Or.inr hw.closed
      · exact Or.inr ha.closed
    · exact Or.inr (closed_step hc hstep)
  simp only [EachStep, FlagFirst, not_forall] at h
  obtain ⟨past, l, t, t', ⟨rest, rfl⟩, ht, hstep, th, rfl, hclosed⟩ := h
  have hfresh : Fresh t := by
    rcases hinv past (by simp) t ht with hf | hc
    · exact hf
    · exact absurd hc hclosed
  have hrest : exec connStep t' rest = some s := by
    rw [exec_append, exec_append_singleton, ht, Option.bind_some, hstep] at hrun
    exact hrun
  have hkept : Throughout connStep Abandoned t' rest :=
    throughout_of_step (hfresh.store hstep) fun u l u' hu hstep => hu.step hstep
  exact hkept rest (List.prefix_refl _) s hrest

theorem flagFirst_of_closed (hc : s.closed = true) : EachStep connStep FlagFirst s ls := by
  have hkept : Throughout connStep (fun t => t.closed = true) s ls :=
    throughout_of_step (P := fun t => t.closed = true) hc fun t l t' ht hstep =>
      closed_step ht hstep
  exact eachStep_of_throughout (P := fun t => t.closed = true) (fun t l t' _ ht _ th _ => ht) hkept

end Run

/-- `Drop` has returned with the socket closed once, both senders taken and both threads joined
exactly if no thread was the first to set the flag. -/
theorem teardown_once_iff (ls : List ConnLabel) (s : Conn)
    (hrun : exec connStep connect ls = some s) (hdrop : DropReturned s) :
    TornDown s ↔ EachStep connStep FlagFirst connect ls := by
  constructor
  · intro htorn
    by_contra hflag
    have ha := abandoned_of_not_flagFirst hrun hflag
    have hzero := ha.srtCloses
    rw [htorn.1] at hzero
    exact absurd hzero (by decide)
  · intro hflag
    rcases worked_of_flagFirst hflag ls (List.prefix_refl _) s hrun with hf | ⟨k, hw⟩
    · obtain ⟨pc, hpc⟩ := List.exists_mem_of_ne_nil _ (called_of_dropping hrun hdrop.1)
      have henter := hf.calls pc hpc
      rw [hdrop.2 pc hpc] at henter
      simp at henter
    · obtain ⟨pc, hpc, hp⟩ := hw.progress
      obtain rfl := hdrop.2 pc (List.mem_of_getElem? hpc)
      exact hp

/-- `close` is called while both threads run. -/
def orderly : List ConnLabel :=
  [.call, .advance 0, .advance 0, .advance 0, .leave .send, .advance 0, .store .send, .leave .recv,
    .finish .send, .advance 0, .advance 0, .store .recv, .finish .recv, .advance 0, .advance 0,
      .drop, .advance 1]

theorem teardown_once_orderly :
    ∃ s, exec connStep connect orderly = some s ∧ DropReturned s ∧ TornDown s := by
  have hflag : EachStep connStep FlagFirst connect orderly := by
    refine eachStep_cons (fun th h => by simp at h) fun s hs => ?_
    refine eachStep_cons (fun th h => by simp at h) fun t ht => ?_
    obtain rfl := Option.some.inj hs
    obtain rfl := Option.some.inj ht
    exact flagFirst_of_closed rfl
  refine ⟨_, rfl, ⟨rfl, by decide⟩, ?_⟩
  exact (teardown_once_iff orderly _ rfl ⟨rfl, by decide⟩).mpr hflag

/-- The peer breaks the connection: the receive thread sets the flag, and the socket stays open. -/
theorem broken_peer_leaks_socket :
    ∃ s, exec connStep connect [.leave .recv, .store .recv, .finish .recv, .drop, .advance 0] =
      some s ∧
      DropReturned s ∧ ¬ TornDown s ∧ s.srtCloses = 0 ∧ s.sendRelTx = true ∧ s.sendPrioTx = true ∧
      s.joined = [] := by
  refine ⟨_, rfl, ⟨rfl, by simp [connect, setStage]⟩, ?_, rfl, rfl, rfl, rfl⟩
  intro h
  exact absurd h.1 (by decide)

end SrtVpn.Lifecycle
