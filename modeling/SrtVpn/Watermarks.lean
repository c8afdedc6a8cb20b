import Mathlib.Algebra.Group.Int.Defs
import Mathlib.Algebra.GroupWithZero.Nat
import SrtVpn.Backpressure

namespace SrtVpn.Watermarks

open Runs Backpressure

/-- A message in the queue is a `Vec`, which takes this much memory besides its data. -/
def messageBytes : Nat := 24

def Fits (s : Sys) : Prop := s.queue * messageBytes < 2 ^ 64

instance (s : Sys) : Decidable (Fits s) := inferInstanceAs (Decidable (_ < _))

/-- The connection, watched from outside: how many messages its receive thread has put into the
queue, and how many its consumers have counted off. -/
structure Watched where
  sys : Sys
  enqueued : Nat
  countedOff : Nat

def connected : Watched := ⟨Backpressure.connected, 0, 0⟩

def enqueues (s : Sys) : Label → Nat
  | .recv _ => if sends s.loop ∧ s.receiver then 1 else 0
  | _ => 0

def countsOff : Label → Nat
  | .countOff => 1
  | _ => 0

/-- A queue that outgrows the address space ends the process. -/
def step (w : Watched) (l : Label) : Option Watched :=
  ((Backpressure.step w.sys l).filter fun t => Fits t).map fun t =>
    ⟨t, w.enqueued + enqueues w.sys l, w.countedOff + countsOff l⟩

def held (s : Sys) : Nat := if s.taken then 1 else 0

def Tests (pc : RecvPc) : Prop := pc = .head ∨ pc = .throttled

section Step

variable {s t : Sys} {l : Label} {w v : Watched}

theorem step_eq_some (h : step w l = some v) : Backpressure.step w.sys l = some v.sys ∧ Fits v.sys ∧
    v.enqueued = w.enqueued + enqueues w.sys l ∧ v.countedOff = w.countedOff + countsOff l := by
  obtain ⟨t, ht, rfl⟩ := Option.map_eq_some_iff.mp h
  obtain ⟨hstep, hfits⟩ := Option.filter_eq_some_iff.mp ht
  exact ⟨hstep, of_decide_eq_true hfits, rfl, rfl⟩

theorem queue_step (h : Backpressure.step s l = some t) :
    t.queue + held t + countsOff l = s.queue + held s + enqueues s l := by
  cases l with
  | conn m =>
      obtain ⟨c, -, rfl⟩ := step_conn h
      rfl
  | recv r =>
      obtain ⟨-, h⟩ := Option.ite_none_right_eq_some.mp h
      obtain ⟨pc, -, rfl⟩ := Option.map_eq_some_iff.mp h
      simp only [enqueues, countsOff, held]
      split <;> omega
  | take =>
      obtain ⟨⟨-, ht, hq⟩, rfl⟩ := Option.ite_some_none_eq_some.mp h
      simp only [enqueues, countsOff, held, ht]
      simp
      omega
  | countOff =>
      obtain ⟨ht, rfl⟩ := Option.ite_some_none_eq_some.mp h
      simp [enqueues, countsOff, held, ht]
  | free =>
      obtain ⟨-, rfl⟩ := Option.ite_some_none_eq_some.mp h
      rfl

/-- What is owed to the consumers is what they have not counted off. -/
structure Owed (w : Watched) : Prop where
  counted : Counted w.sys
  balance : w.sys.queue + held w.sys + w.countedOff = w.enqueued
  fits : Fits w.sys

theorem owed_connected : Owed connected := ⟨Or.inr (Or.inr rfl), rfl, by decide⟩

theorem Owed.step (hw : Owed w) (h : step w l = some v) : Owed v := by
  obtain ⟨hstep, hfits, henqueued, hcounted⟩ := step_eq_some h
  refine ⟨hw.counted.step hstep, ?_, hfits⟩
  have hqueue := queue_step hstep
  have hbalance := hw.balance
  omega

theorem owed_throughout (ls : List Label) : Throughout Watermarks.step Owed connected ls :=
  throughout_of_step owed_connected fun _ _ _ hw h => hw.step h

theorem Owed.recvLen (hw : Owed w) (hpc : Tests w.sys.loop) :
    w.sys.recvLen = w.sys.queue + held w.sys ∧ load w.sys = w.sys.queue + held w.sys := by
  have hlen : w.sys.recvLen = w.sys.queue + held w.sys := by
    rcases hw.counted with hn | hr | hlen
    · rcases hpc with hpc | hpc <;> rw [hpc] at hn <;> cases hn
    · rcases hpc with hpc | hpc <;> rw [hpc] at hr <;> cases hr
    · have hpending : pending w.sys.loop = 0 := by rcases hpc with hpc | hpc <;> rw [hpc] <;> rfl
      rw [hpending, Int.add_zero] at hlen
      rw [hlen, held]
      split <;> rfl
  refine ⟨hlen, ?_⟩
  have hfits := hw.fits
  have hheld : held w.sys ≤ 1 := by
    rw [held]
    split <;> decide
  rw [Fits, messageBytes] at hfits
  rw [load, hlen]
  omega

theorem tests_step (h : Backpressure.step s l = some t) (hl : t.loop ≠ s.loop) :
    (s.loop = .head → if recvHighWatermark < load s then t.loop = .throttled else t.loop = .poll) ∧
    (s.loop = .throttled → if recvLowWatermark < load s then t.loop =
      .slept else t.loop = .poll) := by
  rcases step_cases h with ⟨m, c, -, -, rfl⟩ | ⟨r, -, hr⟩ | ⟨-, -, rfl⟩ | ⟨-, rfl⟩ | rfl
  · exact absurd rfl hl
  · obtain ⟨pc, hpc, rfl⟩ := Option.map_eq_some_iff.mp hr
    constructor
    · intro hhead
      rw [hhead] at hpc
      cases r with
      | none =>
          simp only [next] at hpc
          split at hpc
          next hload => exact (if_pos hload).mpr (Option.some.inj hpc).symm
          next hload => exact (if_neg hload).mpr (Option.some.inj hpc).symm
      | recvmsg ret broken | uwait evs | sockstate st => cases hpc
    · intro hthrottled
      rw [hthrottled] at hpc
      cases r with
      | none =>
          simp only [next] at hpc
          split at hpc
          next hload => exact (if_pos hload).mpr (Option.some.inj hpc).symm
          next hload => exact (if_neg hload).mpr (Option.some.inj hpc).symm
      | recvmsg ret broken | uwait evs | sockstate st => cases hpc
  · exact absurd rfl hl
  · exact absurd rfl hl
  · exact absurd rfl hl

end Step

/-- At each test of the counter in each run, the counter has not gone below zero, it is what the
thread has put into the queue and the consumers have not counted off, and the queue is no longer
than that. So receiving is held back from the moment when more than 4096 messages are not accounted
for, up to the test that finds at most 1024. -/
theorem watermarks_trustworthy (ls : List Label) :
    Throughout step (fun w => Tests w.sys.loop →
      0 ≤ w.sys.recvLen ∧ load w.sys + w.countedOff = w.enqueued ∧
        w.sys.queue ≤ load w.sys) connected ls ∧
    EachStep step (fun w l => ∀ v, step w l = some v → v.sys.loop ≠ w.sys.loop →
      (w.sys.loop = .head →
        if 4096 + w.countedOff < w.enqueued then v.sys.loop = .throttled else v.sys.loop = .poll) ∧
      (w.sys.loop = .throttled →
        if 1024 + w.countedOff < w.enqueued then v.sys.loop = .slept else v.sys.loop = .poll))
          connected ls := by
  constructor
  · refine (owed_throughout ls).mono ?_
    intro w hw hpc
    obtain ⟨hlen, hload⟩ := hw.recvLen hpc
    have hbalance := hw.balance
    refine ⟨?_, ?_, ?_⟩ <;> omega
  · intro past l w v hinit hw _ u hu hmoved
    have howed := owed_throughout ls past ((List.prefix_append past [l]).trans hinit) w hw
    have hbalance := howed.balance
    obtain ⟨hhead, hthrottled⟩ := tests_step (step_eq_some hu).1 hmoved
    constructor
    · intro hpc
      have hload := (howed.recvLen (Or.inl hpc)).2
      have hiff : recvHighWatermark < load w.sys ↔ 4096 + w.countedOff < w.enqueued := by
        rw [recvHighWatermark]
        omega
      exact (if_congr hiff rfl rfl).mp (hhead hpc)
    · intro hpc
      have hload := (howed.recvLen (Or.inr hpc)).2
      have hiff : recvLowWatermark < load w.sys ↔ 1024 + w.countedOff < w.enqueued := by
        rw [recvLowWatermark]
        omega
      exact (if_congr hiff rfl rfl).mp (hthrottled hpc)

end SrtVpn.Watermarks
