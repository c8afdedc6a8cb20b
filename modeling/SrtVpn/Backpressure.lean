import Mathlib.Algebra.Group.Int.Defs
import Mathlib.Logic.Relation
import SrtVpn.Lifecycle

namespace SrtVpn.Backpressure

open Runs Lifecycle

def recvHighWatermark : Nat := 4096

def recvLowWatermark : Nat := 1024

def srtsBroken : Int := 6

structure Event where
  err : Bool
  readable : Bool
  deriving DecidableEq, Repr

/-- The two places that take messages from the socket: before the first poll, and for a readable
event with the events after it still to be looked at. -/
inductive Batch
  | early
  | ready (evs : List Event)
  deriving DecidableEq, Repr

def Batch.length : Batch → Nat
  | .early => 0
  | .ready evs => evs.length

inductive RecvPc
  | receive (b : Batch)
  | hand (b : Batch)
  | count (b : Batch)
  | head
  | throttled
  | slept
  | poll
  | check
  | events (evs : List Event) (broken : Bool)
  | notify
  | returned
  deriving DecidableEq, Repr

/-- What a call of the library gives back: a size and whether the error text names a closed or
broken connection, the events of a poll unless it fails, a socket state. -/
inductive Reply
  | none
  | recvmsg (ret : Int) (broken : Bool)
  | uwait (evs : Option (List Event))
  | sockstate (st : Int)
  deriving DecidableEq, Repr

/-- What the library can answer. A closed socket is not found any more, so it gives no message, and
its state is unavailable. -/
def Reply.Possible (closed : Bool) : Reply → Prop
  | .recvmsg ret broken => closed = true → ret = -1 ∧ broken = false
  | .sockstate st => closed = true → srtsBroken ≤ st
  | _ => True

instance (closed : Bool) : (r : Reply) → Decidable (r.Possible closed)
  | .none => inferInstanceAs (Decidable True)
  | .recvmsg ret broken => inferInstanceAs (Decidable (closed = true → ret = -1 ∧ broken = false))
  | .uwait _ => inferInstanceAs (Decidable True)
  | .sockstate st => inferInstanceAs (Decidable (closed = true → srtsBroken ≤ st))

/-- The connection, its receive loop, the count of waiting messages and the queue itself, whether a
message has been taken and not yet counted off, and whether the receiver still exists. -/
structure Sys where
  conn : Conn
  loop : RecvPc
  recvLen : Int
  queue : Nat
  taken : Bool
  receiver : Bool

def connected : Sys := ⟨connect, .receive .early, 0, 0, false, true⟩

def load (s : Sys) : Nat := (s.recvLen % 2 ^ 64).toNat

/-- Where the loop of `run_recv_loop` goes from each place, `n` messages being counted. -/
def next (receiver : Bool) (n : Nat) : RecvPc → Reply → Option RecvPc
  | .receive .early, .recvmsg ret _ => if 0 < ret then some (.hand .early) else some .head
  | .receive (.ready evs), .recvmsg ret broken =>
      if 0 < ret then some (.hand (.ready evs))
      else if ret = -1 then some (.events evs broken)
      else some (.receive (.ready evs))
  | .hand b, .none => if receiver then some (.count b) else some .returned
  | .count b, .none => some (.receive b)
  | .head, .none => if recvHighWatermark < n then some .throttled else some .poll
  | .throttled, .none => if recvLowWatermark < n then some .slept else some .poll
  | .slept, .none => if receiver then some .throttled else some .returned
  | .poll, .uwait evs =>
      match evs with
      | some evs => some (.events evs false)
      | none => some .check
  | .check, .sockstate st => if srtsBroken ≤ st then some .notify else some .head
  | .events [] broken, .none => if broken then some .notify else some .head
  | .events (ev :: evs) broken, .none =>
      if ev.err then some .notify
      else if ev.readable ∧ broken = false then some (.receive (.ready evs))
      else some (.events evs broken)
  | .notify, .none => some .returned
  | _, _ => none

/-- The places that put a message into the queue: the message itself, or the empty one that tells of
the end. -/
def sends : RecvPc → Bool
  | .hand _ => true
  | .events (ev :: _) _ => ev.err
  | .notify => true
  | _ => false

def pending : RecvPc → Int
  | .count _ => 1
  | _ => 0

def runRecvLoop (s : Sys) (r : Reply) : Option Sys :=
  (next s.receiver (load s) s.loop r).map fun pc =>
    { s with
      loop := pc
      queue := if sends s.loop ∧ s.receiver then s.queue + 1 else s.queue
      recvLen := s.recvLen + pending s.loop }

inductive Label
  | conn (l : ConnLabel)
  | recv (r : Reply)
  | take
  | countOff
  | free

/-- The thread leaves when its loop has returned. A consumer holds the lock from the message it
takes to its count, and `Drop` waits for it; the receiver goes with the connection, after `Drop`. -/
def step (s : Sys) : Label → Option Sys
  | .conn (.leave .recv) =>
      if s.loop = .returned then (connStep s.conn (.leave .recv)).map fun c => { s with conn := c }
      else none
  | .conn .drop => if s.taken then none else (connStep s.conn .drop).map fun c =>
      { s with conn := c }
  | .conn l => (connStep s.conn l).map fun c => { s with conn := c }
  | .recv r => if r.Possible (s.conn.srtCloses ≠ 0) then runRecvLoop s r else none
  | .take =>
      if s.conn.dropping = false ∧ s.taken = false ∧ 0 < s.queue then
        some { s with queue := s.queue - 1, taken := true }
      else none
  | .countOff => if s.taken then some { s with recvLen := s.recvLen - 1, taken := false } else none
  | .free =>
      if s.conn.dropping ∧ s.conn.calls.all (· = .returned) then some { s with receiver := false }
      else none

/-- A call of `close` has come to the threads and has the receive thread still to join. -/
def Waiting (s : Sys) : Prop := ∃ ths, .join ths ∈ s.conn.calls ∧ .recv ∈ ths

def Own : Label → Prop
  | .recv _ => True
  | .conn l => l = .leave .recv ∨ l = .store .recv ∨ l = .finish .recv
  | _ => False

def OwnStep (s t : Sys) : Prop := ∃ l, Own l ∧ step s l = some t

def CanExit (s : Sys) : Prop := ∃ t, Relation.ReflTransGen OwnStep s t ∧ t.conn.stage .recv = .ended

def Batch.ends : Batch → Bool
  | .early => false
  | .ready evs => evs.any (·.err)

/-- The loop comes to its end at a closed socket, whatever the count. -/
def ends : RecvPc → Bool
  | .receive b | .hand b | .count b => b.ends
  | .events evs broken => broken || evs.any (·.err)
  | .check | .notify | .returned => true
  | .head | .throttled | .slept | .poll => false

/-- How high the count may stand for the loop not to be caught by it. -/
def limit : RecvPc → Int
  | .throttled | .slept => recvLowWatermark
  | .hand _ | .count _ => recvHighWatermark - 1
  | _ => recvHighWatermark

def Clear (s : Sys) : Prop := ends s.loop = true ∨ s.recvLen ≤ limit s.loop

/-- The socket is closed only while the loop can still come to its end. -/
def ClearAtClose (s : Sys) (l : Label) : Prop :=
  ∀ k, l = .conn (.advance k) → s.conn.calls[k]? = some .srtClose → Clear s

def Counted (s : Sys) : Prop :=
  s.loop = .notify ∨ s.loop = .returned ∨
  s.recvLen + pending s.loop = s.queue + if s.taken then 1 else 0

section Loop

variable {pc pc' : RecvPc} {r : Reply} {receiver : Bool} {n : Nat} {s t : Sys}

theorem next_counted (h : next receiver n pc r = some pc') :
    pc' = .notify ∨ pc' = .returned ∨ pc ≠ .notify ∧ pc ≠ .returned ∧
      pending pc' = if sends pc ∧ receiver then 1 else 0 := by
  revert h
  fun_cases next receiver n pc r
  all_goals
    intro h
    cases h
    try simp_all [pending, sends]

theorem next_ends (he : ends pc = true) (hr : r.Possible true)
    (h : next receiver n pc r = some pc') : ends pc' = true := by
  revert h he hr
  fun_cases next receiver n pc r
  all_goals
    intro he hr h
    cases h
    try simp_all [ends, Batch.ends, Reply.Possible]
    try omega

theorem next_within {x : Int} (he : ends pc = false) (hx : x ≤ limit pc) (h0 : 0 ≤ x + pending pc)
    (hr : r.Possible true) (h : next receiver (x % 2 ^ 64).toNat pc r = some pc') :
    ends pc' = true ∨ x + pending pc ≤ limit pc' := by
  revert h he hx h0 hr
  fun_cases next receiver (x % 2 ^ 64).toNat pc r
  all_goals
    intro he hx h0 hr h
    cases h
    try simp_all [ends, Batch.ends.eq_1, Batch.ends.eq_2, limit, pending, Reply.Possible,
      recvHighWatermark, recvLowWatermark]
    try omega

theorem runRecvLoop_frame (h : runRecvLoop s r = some t) :
    t.conn = s.conn ∧ t.taken = s.taken ∧ t.receiver = s.receiver ∧ s.loop ≠ .returned := by
  obtain ⟨pc, hpc, rfl⟩ := Option.map_eq_some_iff.mp h
  refine ⟨rfl, rfl, rfl, ?_⟩
  intro hl
  rw [hl] at hpc
  simp [next] at hpc

theorem Counted.loop (hc : Counted s) (h : runRecvLoop s r = some t) : Counted t := by
  obtain ⟨pc, hpc, rfl⟩ := Option.map_eq_some_iff.mp h
  rcases next_counted hpc with hpc | hpc | ⟨hn, hr, hpc⟩
  · exact Or.inl hpc
  · exact Or.inr (Or.inl hpc)
  · rcases hc with hc | hc | hc
    · exact absurd hc hn
    · exact absurd hc hr
    · refine Or.inr (Or.inr ?_)
      dsimp only
      rw [hpc, hc]
      split <;> split <;> push_cast <;> omega

theorem Counted.nonneg (hc : Counted s) (he : ends s.loop = false) :
    0 ≤ s.recvLen + pending s.loop := by
  rcases hc with hc | hc | hc
  · simp [hc, ends] at he
  · simp [hc, ends] at he
  · rw [hc]
    split <;> omega

theorem Clear.loop (hc : Clear s) (hcnt : Counted s) (hr : r.Possible true)
    (h : runRecvLoop s r = some t) : Clear t := by
  obtain ⟨pc, hpc, rfl⟩ := Option.map_eq_some_iff.mp h
  rcases hc with he | hx
  · exact Or.inl (next_ends he hr hpc)
  · cases he : ends s.loop with
    | true => exact Or.inl (next_ends he hr hpc)
    | false => exact next_within he hx (hcnt.nonneg he) hr hpc

end Loop

section Exit

variable {s t : Sys}

theorem CanExit.of_step {l : Label} (hown : Own l) (hstep : step s l = some t) (h : CanExit t) :
    CanExit s := by
  obtain ⟨u, htu, hu⟩ := h
  exact ⟨u, Relation.ReflTransGen.head ⟨l, hown, hstep⟩ htu, hu⟩

theorem canExit_of_returned (hl : s.loop = .returned) : CanExit s := by
  have hended : ∀ u : Sys, u.conn.stage .recv = .ended → CanExit u := fun u hu => ⟨u, .refl, hu⟩
  have hstored : ∀ u : Sys, u.conn.stage .recv = .stored → CanExit u := by
    intro u hu
    refine CanExit.of_step (l := .conn (.finish .recv)) (Or.inr (Or.inr rfl))
      (t := { u with conn := setStage u.conn .recv .ended }) ?_ (hended _ ?_)
    · simp [step, connStep, hu]
    · simp [setStage]
  have hleft : ∀ u : Sys, u.conn.stage .recv = .left → CanExit u := by
    intro u hu
    refine CanExit.of_step (l := .conn (.store .recv)) (Or.inr (Or.inl rfl))
      (t := { u with conn := { setStage u.conn .recv .stored with closed := true } })
        ?_ (hstored _ ?_)
    · simp [step, connStep, hu]
    · simp [setStage]
  cases hst : s.conn.stage .recv with
  | running =>
      refine CanExit.of_step (l := .conn (.leave .recv)) (Or.inl rfl)
        (t := { s with conn := setStage s.conn .recv .left }) ?_ (hleft _ ?_)
      · simp [step, connStep, hst, hl]
      · simp [setStage]
  | left => exact hleft s hst
  | stored => exact hstored s hst
  | ended => exact hended s hst

/-- What a closed socket answers on the shortest way out. -/
def answer : RecvPc → Reply
  | .receive _ => .recvmsg (-1) false
  | .poll => .uwait none
  | .check => .sockstate 8
  | _ => .none

def rank : RecvPc → Nat
  | .returned => 0
  | .notify => 1
  | .check => 2
  | .poll => 3
  | .head | .throttled => 4
  | .slept => 5
  | .events evs _ => 5 + 2 * evs.length
  | .receive b => 6 + 2 * b.length
  | .count b => 7 + 2 * b.length
  | .hand b => 8 + 2 * b.length

theorem next_answer (receiver : Bool) {pc : RecvPc} {x : Int}
    (hc : ends pc = true ∨ 0 ≤ x + pending pc ∧ x ≤ limit pc) (hpc : pc ≠ .returned) :
    ∃ pc', next receiver (x % 2 ^ 64).toNat pc (answer pc) = some pc' ∧ rank pc' < rank pc := by
  cases pc with
  | receive b => cases b <;> simp [next, answer, rank, Batch.length]
  | hand b =>
      cases receiver
      · exact ⟨.returned, rfl, Nat.lt_of_lt_of_le (by decide) (Nat.le_add_right 8 _)⟩
      · simp [next, answer, rank]
  | count b => simp [next, answer, rank]
  | head =>
      have hx : ¬ recvHighWatermark < (x % 2 ^ 64).toNat := by
        simp [ends, pending, limit, recvHighWatermark] at hc ⊢
        omega
      exact ⟨.poll, by simp only [next, answer, if_neg hx], by simp [rank]⟩
  | throttled =>
      have hx : ¬ recvLowWatermark < (x % 2 ^ 64).toNat := by
        simp [ends, pending, limit, recvLowWatermark] at hc ⊢
        omega
      exact ⟨.poll, by simp only [next, answer, if_neg hx], by simp [rank]⟩
  | slept => cases receiver <;> simp [next, answer, rank]
  | poll => simp [next, answer, rank]
  | check => simp [next, answer, rank, srtsBroken]
  | events evs broken =>
      cases evs with
      | nil => cases broken <;> simp [next, answer, rank]
      | cons ev evs =>
          simp only [next, answer, rank]
          split
          · exact ⟨.notify, rfl, by simp; omega⟩
          · split
            · exact ⟨_, rfl, by simp [Batch.length]; omega⟩
            · exact ⟨_, rfl, by simp⟩
  | notify => simp [next, answer, rank]
  | returned => exact absurd rfl hpc

theorem Clear.canExit (hc : Clear s) (hcnt : Counted s) (hclosed : s.conn.srtCloses ≠ 0) :
    CanExit s := by
  induction hn : rank s.loop using Nat.strongRecOn generalizing s with
  | ind n ih =>
      by_cases hl : s.loop = .returned
      · exact canExit_of_returned hl
      · have hroom : ends s.loop = true ∨ 0 ≤ s.recvLen + pending s.loop ∧
            s.recvLen ≤ limit s.loop := by
          cases he : ends s.loop with
          | true => exact Or.inl rfl
          | false => exact Or.inr ⟨hcnt.nonneg he, hc.resolve_left (by simp [he])⟩
        obtain ⟨pc, hpc, hlt⟩ := next_answer s.receiver hroom hl
        have hposs : (answer s.loop).Possible true := by
          cases s.loop <;> simp [answer, Reply.Possible, srtsBroken]
        have hrun : ∃ t, runRecvLoop s (answer s.loop) = some t ∧ t.loop = pc :=
          ⟨_, Option.map_eq_some_iff.mpr ⟨pc, hpc, rfl⟩, rfl⟩
        obtain ⟨t, ht, rfl⟩ := hrun
        have hconn := (runRecvLoop_frame ht).1
        have hstep : step s (.recv (answer s.loop)) = some t := by
          simpa [step, hclosed, hposs] using ht
        refine CanExit.of_step (l := .recv (answer s.loop)) trivial hstep ?_
        exact ih _ (hn ▸ hlt) (hc.loop hcnt hposs ht) (hcnt.loop ht) (hconn ▸ hclosed) rfl

end Exit

section Run

variable {s t : Sys} {l : Label}

theorem step_conn {m : ConnLabel} (h : step s (.conn m) = some t) :
    ∃ c, connStep s.conn m = some c ∧ t = { s with conn := c } := by
  have hconn : (connStep s.conn m).map (fun c => { s with conn := c }) = some t := by
    revert h
    unfold step
    split <;> simp_all
  obtain ⟨c, hc, rfl⟩ := Option.map_eq_some_iff.mp hconn
  exact ⟨c, hc, rfl⟩

theorem step_cases (h : step s l = some t) :
    (∃ m c, l = .conn m ∧ connStep s.conn m = some c ∧ t = { s with conn := c }) ∨
      (∃ r, r.Possible (s.conn.srtCloses ≠ 0) ∧ runRecvLoop s r = some t) ∨
      (s.taken = false ∧ 0 < s.queue ∧ t = { s with queue := s.queue - 1, taken := true }) ∨
      (s.taken = true ∧ t = { s with recvLen := s.recvLen - 1, taken := false }) ∨
      t = { s with receiver := false } := by
  cases l with
  | conn m =>
      obtain ⟨c, hc, rfl⟩ := step_conn h
      exact Or.inl ⟨m, c, rfl, hc, rfl⟩
  | recv r =>
      obtain ⟨hr, h⟩ := Option.ite_none_right_eq_some.mp h
      exact Or.inr (Or.inl ⟨r, hr, h⟩)
  | take =>
      obtain ⟨⟨-, ht, hq⟩, rfl⟩ := Option.ite_some_none_eq_some.mp h
      exact Or.inr (Or.inr (Or.inl ⟨ht, hq, rfl⟩))
  | countOff =>
      obtain ⟨ht, rfl⟩ := Option.ite_some_none_eq_some.mp h
      exact Or.inr (Or.inr (Or.inr (Or.inl ⟨ht, rfl⟩)))
  | free =>
      obtain ⟨-, rfl⟩ := Option.ite_some_none_eq_some.mp h
      exact Or.inr (Or.inr (Or.inr (Or.inr rfl)))

theorem Counted.consumer (hc : Counted s) (hloop : t.loop = s.loop)
    (hbalance : t.recvLen + (s.queue + if s.taken then 1 else 0) =
      s.recvLen + (t.queue + if t.taken then 1 else 0)) : Counted t := by
  rw [Counted, hloop]
  rcases hc with hc | hc | hc
  · exact Or.inl hc
  · exact Or.inr (Or.inl hc)
  · refine Or.inr (Or.inr ?_)
    omega

theorem Counted.step (hc : Counted s) (h : step s l = some t) : Counted t := by
  rcases step_cases h with ⟨m, c, -, -, rfl⟩ | ⟨r, -, hr⟩ | ⟨ht, hq, rfl⟩ | ⟨ht, rfl⟩ | rfl
  · exact hc
  · exact hc.loop hr
  · refine hc.consumer rfl ?_
    simp only [ht, Bool.false_eq_true, if_false, if_true]
    omega
  · refine hc.consumer rfl ?_
    simp only [ht, Bool.false_eq_true, if_false, if_true]
    omega
  · exact hc

/-- What a run keeps: the count, room for the loop once the socket is closed, and no join before
that. -/
structure Sound (s : Sys) : Prop where
  counted : Counted s
  clear : s.conn.srtCloses ≠ 0 → Clear s
  closedFirst : ClosedFirst s.conn

theorem sound_connected : Sound connected :=
  ⟨Or.inr (Or.inr rfl), fun h => absurd rfl h, by simp [ClosedFirst, connected, connect]⟩

theorem Sound.step (hs : Sound s) (hok : ClearAtClose s l) (h : step s l = some t) : Sound t := by
  refine ⟨hs.counted.step h, ?_, ?_⟩
  · intro hclosed
    rcases step_cases h with ⟨m, c, rfl, hc, rfl⟩ | ⟨r, hposs, hr⟩ | ⟨-, -, rfl⟩ | ⟨-, rfl⟩ | rfl
    · rcases srtCloses_step hc with hsame | ⟨-, k, rfl, hk⟩
      · exact hs.clear (hsame ▸ hclosed)
      · exact hok k rfl hk
    · rw [(runRecvLoop_frame hr).1] at hclosed
      rw [decide_eq_true hclosed] at hposs
      exact (hs.clear hclosed).loop hs.counted hposs hr
    · exact hs.clear hclosed
    · rcases hs.clear hclosed with he | hx
      · exact Or.inl he
      · exact Or.inr (Int.le_trans (Int.sub_le_self _ (by decide)) hx)
    · exact hs.clear hclosed
  · rcases step_cases h with ⟨m, c, -, hc, rfl⟩ | ⟨r, -, hr⟩ | ⟨-, -, rfl⟩ | ⟨-, rfl⟩ | rfl
    · exact hs.closedFirst.step hc
    · rw [(runRecvLoop_frame hr).1]
      exact hs.closedFirst
    · exact hs.closedFirst
    · exact hs.closedFirst
    · exact hs.closedFirst

end Run

/-- If the socket is closed only while the receive loop has room, then whenever `close` waits for
the receive thread, that thread can come to its end on its own. -/
theorem close_not_blocked (ls : List Label) (h : EachStep step ClearAtClose connected ls) :
    Throughout step (fun s => Waiting s → CanExit s) connected ls := by
  have hsound : Throughout step Sound connected ls :=
    throughout_of_eachStep sound_connected (fun s l t hs hok hstep => hs.step hok hstep) h
  refine hsound.mono ?_
  rintro s hs ⟨ths, hjoin, -⟩
  have hclosed := hs.closedFirst _ hjoin rfl
  exact (hs.clear hclosed).canExit hs.counted hclosed

def backlog : Nat → List Label
  | 0 => []
  | n + 1 => .recv (.recvmsg 1316 false) :: .recv .none :: .recv .none :: backlog n

theorem exec_backlog (n : Nat) (s : Sys) (hl : s.loop = .receive .early) (hr : s.receiver = true)
    (hc : s.conn.srtCloses = 0) :
    exec step s (backlog n) = some { s with recvLen := s.recvLen + n, queue := s.queue + n } := by
  induction n generalizing s with
  | zero => simp [backlog, exec]
  | succ n ih =>
      have hone : exec step s (backlog (n + 1)) =
          exec step { s with recvLen := s.recvLen + 1, queue := s.queue + 1 } (backlog n) := by
        simp [backlog, exec_cons, step, runRecvLoop, next, hl, hr, hc, Reply.Possible, pending,
          sends]
      rw [hone, ih { s with recvLen := s.recvLen + 1, queue := s.queue + 1 } hl hr hc]
      simp only [Option.some.injEq, Sys.mk.injEq, true_and, and_true]
      omega

def drain : Nat → List Label
  | 0 => []
  | n + 1 => .take :: .countOff :: drain n

theorem exec_drain (n : Nat) (s : Sys) (hq : n ≤ s.queue) (ht : s.taken = false)
    (hd : s.conn.dropping = false) :
    exec step s (drain n) = some { s with recvLen := s.recvLen - n, queue := s.queue - n } := by
  induction n generalizing s with
  | zero => simp [drain, exec]
  | succ n ih =>
      have hone : exec step s (drain (n + 1)) =
          exec step { s with recvLen := s.recvLen - 1, queue := s.queue - 1, taken := false }
            (drain n) := by
        simp [drain, exec_cons, step, ht, hd, show 0 < s.queue by omega]
      rw [hone, ih { s with recvLen := s.recvLen - 1, queue := s.queue - 1, taken := false }
        (by simp only; omega) rfl hd]
      simp only [Option.some.injEq, Sys.mk.injEq, true_and, and_true]
      refine ⟨by omega, by omega, ht.symm⟩

theorem not_conn_backlog (n : Nat) : ∀ l ∈ backlog n, ∀ m, l ≠ .conn m := by
  induction n with
  | zero => simp [backlog]
  | succ n ih => simpa [backlog] using ih

theorem not_conn_drain (n : Nat) : ∀ l ∈ drain n, ∀ m, l ≠ .conn m := by
  induction n with
  | zero => simp [drain]
  | succ n ih => simpa [drain] using ih

def relievedClose : List Label :=
  backlog 4097 ++ ([.recv (.recvmsg (-1) false), .recv .none, .recv .none] ++ (drain 3073 ++
    [.recv .none, .recv .none, .conn .call, .conn (.advance 0), .conn (.advance 0),
      .conn (.advance 0), .conn (.advance 0), .conn (.advance 0)]))

theorem close_not_blocked_relieved :
    ∃ s, exec step connected relievedClose = some s ∧ Waiting s ∧ CanExit s := by
  let full : Sys := { connected with recvLen := connected.recvLen + (4097 : Nat), queue := connected.queue + 4097 }
  let slept : Sys := { full with loop := .slept }
  let relieved :
      Sys := { slept with recvLen := slept.recvLen - (3073 : Nat), queue := slept.queue - 3073 }
  have hfull : exec step connected (backlog 4097) = some full :=
    exec_backlog 4097 connected rfl rfl rfl
  have hslept : exec step full [.recv (.recvmsg (-1) false), .recv .none, .recv .none] =
      some slept := rfl
  have hrelieved : exec step slept (drain 3073) = some relieved :=
    exec_drain 3073 slept (by decide) rfl rfl
  have hclear : EachStep step ClearAtClose connected relievedClose := by
    refine eachStep_append (eachStep_of_forall fun l hl t k heq =>
      absurd heq (not_conn_backlog 4097 l hl _)) fun s hs => ?_
    obtain rfl := Option.some.inj (hfull.symm.trans hs)
    refine eachStep_append (eachStep_of_forall (by simp [ClearAtClose])) fun s hs => ?_
    obtain rfl := Option.some.inj (hslept.symm.trans hs)
    refine eachStep_append (eachStep_of_forall fun l hl t k heq =>
      absurd heq (not_conn_drain 3073 l hl _)) fun s hs => ?_
    obtain rfl := Option.some.inj (hrelieved.symm.trans hs)
    iterate 8
      refine eachStep_cons (fun k _ _ => Or.inr (by decide)) fun s hs => ?_
      obtain rfl := Option.some.inj hs
    exact eachStep_of_forall (by simp)
  have hrun : exec step connected relievedClose =
      exec step relieved [.recv .none, .recv .none, .conn .call, .conn (.advance 0),
      .conn (.advance 0), .conn (.advance 0), .conn (.advance 0), .conn (.advance 0)] := by
    rw [relievedClose, exec_append, hfull, Option.bind_some, exec_append, hslept, Option.bind_some,
      exec_append, hrelieved, Option.bind_some]
  have hwait : ∀ s, exec step connected relievedClose = some s → Waiting s := by
    intro s hs
    obtain rfl := Option.some.inj (hrun.symm.trans hs)
    exact ⟨_, List.mem_singleton.mpr rfl, by decide⟩
  refine ⟨_, hrun, hwait _ hrun, ?_⟩
  exact close_not_blocked relievedClose hclear relievedClose (List.prefix_refl _) _
    hrun (hwait _ hrun)

/-- Waiting for the low watermark with nobody taking messages. -/
structure Stuck (s : Sys) : Prop where
  loop : s.loop = .throttled ∨ s.loop = .slept
  load : recvLowWatermark < load s
  receiver : s.receiver = true
  stage : s.conn.stage .recv = .running

theorem Stuck.ownStep {s t : Sys} (hs : Stuck s) (h : OwnStep s t) : Stuck t := by
  obtain ⟨l, hown, h⟩ := h
  cases l with
  | conn l =>
      rcases hown with rfl | rfl | rfl
      · rcases hs.loop with hl | hl <;> simp [step, hl] at h
      · simp [step, connStep, hs.stage] at h
      · simp [step, connStep, hs.stage] at h
  | recv r =>
      obtain ⟨-, h⟩ := Option.ite_none_right_eq_some.mp h
      obtain ⟨pc, hpc, rfl⟩ := Option.map_eq_some_iff.mp h
      have hpend : pending s.loop = 0 := by rcases hs.loop with hl | hl <;> rw [hl] <;> rfl
      refine ⟨?_, ?_, hs.receiver, hs.stage⟩
      · rcases hs.loop with hl | hl <;> rw [hl, hs.receiver] at hpc <;> cases r
          <;> simp [next, hs.load] at hpc
        · exact Or.inr hpc.symm
        · exact Or.inl hpc.symm
      · rw [hpend]
        exact (Int.add_zero s.recvLen).symm ▸ hs.load
  | take => exact hown.elim
  | countOff => exact hown.elim
  | free => exact hown.elim

theorem Stuck.not_canExit {s : Sys} (hs : Stuck s) : ¬ CanExit s := by
  rintro ⟨t, hst, hend⟩
  have ht : Stuck t := by
    clear hend
    induction hst with
    | refl => exact hs
    | tail _ h ih => exact ih.ownStep h
  rw [ht.stage] at hend
  simp at hend

/-- More messages than the high watermark arrive and nobody takes them; then `close` is called. -/
def lateClose : List Label :=
  [.recv (.recvmsg (-1) false), .recv .none, .conn .call, .conn (.advance 0), .conn (.advance 0),
    .conn (.advance 0), .conn (.advance 0), .conn (.advance 0)]

theorem backlog_blocks_close :
    ∃ s, exec step connected (backlog 4097 ++ lateClose) = some s ∧ Waiting s ∧
    s.loop = .throttled ∧ ¬ CanExit s := by
  rw [exec_append, exec_backlog 4097 connected rfl rfl rfl]
  refine ⟨_, rfl, ⟨_, List.mem_singleton.mpr rfl, by decide⟩, rfl, ?_⟩
  apply Stuck.not_canExit
  exact ⟨Or.inl rfl, by decide, rfl, rfl⟩

end SrtVpn.Backpressure
