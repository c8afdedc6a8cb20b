import SrtVpn.Checked
import SrtVpn.DecoderInvariant
import SrtVpn.Diagnostics
import SrtVpn.FrameCodec

namespace SrtVpn.DecoderArithmetic

open BigEndian Checked Tables Wire Decoder Slots SessionView Conservation DecoderInvariant
open FrameCodec (decodeFrameChecked decodeFrameChecked_eq)

section Source

variable {α : Type}

def flushLoopChecked : Nat → SidReorder α → List (Frame α) → Option (SidReorder α × List (Frame α))
  | 0, st, out => some (st, out)
  | fuel + 1, st, out =>
      match find st.buf st.next with
      | some f => do
          let next ← add 32 st.next 1
          flushLoopChecked fuel { st with next := next, buf := st.buf.erase st.next } (out ++ [f])
      | none => some (st, out)

def flushReadyChecked (st : SidReorder α) (out : List (Frame α)) :
    Option (SidReorder α × List (Frame α)) :=
  flushLoopChecked st.buffered st out

def dropStaleChecked (d : MuxDecoder α) : Option (MuxDecoder α) := do
  let staleDropped ← add 64 d.staleDropped 1
  return { d with staleDropped := staleDropped }

/-- The loop that merges the waiting frames, with the counter of `drop_stale`. -/
def mergeWaitingChecked (st : SidReorder α) (staleDropped : Nat) :
    List (Frame α) → Option (SidReorder α × Nat)
  | [] => some (st, staleDropped)
  | f :: fs =>
      if f.epoch ≠ st.epoch ∨ f.sseq < st.next ∨ reorderMax ≤ st.buffered then do
        let staleDropped ← add 64 staleDropped 1
        mergeWaitingChecked st staleDropped fs
      else mergeWaitingChecked { st with buf := st.buf.insert f.sseq f } staleDropped fs

def baselineChecked (frame : Frame α) : Option (SidReorder α) := do
  let next ← add 32 frame.sseq 1
  return ⟨frame.epoch, next, ∅⟩

def feedOpenChecked (d : MuxDecoder α) (frame : Frame α) :
    Option (List (Frame α) × MuxDecoder α) := do
  let waiting := (find d.preopen frame.sessionId).getD []
  let st ← baselineChecked frame
  let _capacity ← add 64 waiting.length 8
  let merged ← mergeWaitingChecked st d.staleDropped waiting
  let flushed ← flushReadyChecked merged.1 [frame]
  return (flushed.2, { d with
    states := d.states.insert frame.key flushed.1
    preopen := d.preopen.erase frame.sessionId
    staleDropped := merged.2 })

def feedCurrentChecked (d : MuxDecoder α) (st : SidReorder α) (frame : Frame α) :
    Option (List (Frame α) × MuxDecoder α) :=
  if frame.sseq < st.next then do
    let d ← dropStaleChecked d
    return ([], d)
  else if frame.sseq = st.next then do
    let next ← add 32 st.next 1
    let flushed ← flushReadyChecked { st with next := next } [frame]
    return (flushed.2, { d with states := d.states.insert frame.key flushed.1 })
  else do
    let outOfOrder ← add 64 d.outOfOrder 1
    let d := { d with outOfOrder := outOfOrder }
    if st.buffered < reorderMax then
      return ([], { d with
        states := d.states.insert frame.key { st with buf := st.buf.insert frame.sseq frame } })
    else
      let _gap ← sub frame.sseq st.next
      let d ← dropStaleChecked d
      return ([], d)

def startGenerationChecked (d : MuxDecoder α) (frame : Frame α) :
    Option (List (Frame α) × MuxDecoder α) := do
  let st ← baselineChecked frame
  let flushed ← flushReadyChecked st [frame]
  return (flushed.2, { d with states := d.states.insert frame.key flushed.1 })

def holdPreopenChecked (d : MuxDecoder α) (frame : Frame α) :
    Option (List (Frame α) × MuxDecoder α) :=
  let v := (find d.preopen frame.sessionId).getD []
  if v.length < preopenMax then
    some ([], { d with preopen := d.preopen.insert frame.sessionId (v ++ [frame]) })
  else do
    let d ← dropStaleChecked d
    return ([], d)

def feedFrameChecked (d : MuxDecoder α) (frame : Frame α) :
    Option (List (Frame α) × MuxDecoder α) :=
  if usesSessionOrder frame.ftype = false then some ([frame], d)
  else if frame.epoch = 0 then some ([frame], d)
  else if frame.ftype = .open then feedOpenChecked d frame
  else match find d.states frame.key with
    | some st =>
        if st.epoch = frame.epoch then feedCurrentChecked d st frame
        else if newerEpoch frame.epoch st.epoch then startGenerationChecked d frame
        else do
          let d ← dropStaleChecked d
          return ([], d)
    | none => if frame.dirAcceptor then startGenerationChecked d
        frame else holdPreopenChecked d frame

def bufferedFramesChecked (d : MuxDecoder α) : Option Nat := do
  let states ← sum 64 (d.states.entries.map fun e => e.2.buffered)
  let preopen ← sum 64 (d.preopen.entries.map fun e => e.2.length)
  add 64 states preopen

/-- Every 512 messages `feed` may report, depending on the time, how many frames are buffered; here
it always does. -/
def feedChecked (d : MuxDecoder Bytes) (msg : Bytes) :
    Option (List (Frame Bytes) × MuxDecoder Bytes) := do
  let rxFrames ← add 64 d.rxFrames 1
  let d := { d with rxFrames := rxFrames }
  let _buffered ← if rxFrames % 512 = 0 then bufferedFramesChecked d else some 0
  let decoded ← decodeFrameChecked msg
  match decoded with
  | none => return ([], d)
  | some frame => feedFrameChecked d frame

def feedAllChecked (d : MuxDecoder Bytes) :
    List Bytes → Option (List (Frame Bytes) × MuxDecoder Bytes)
  | [] => some ([], d)
  | msg :: msgs => do
      let fed ← feedChecked d msg
      let rest ← feedAllChecked fed.2 msgs
      return (fed.1 ++ rest.1, rest.2)

end Source

section Steps

variable {α : Type} {sid : UInt16} {st : SidReorder α} {d : MuxDecoder α} {f : Frame α}

theorem flushLoopChecked_eq (fuel : Nat) (h : Kept sid st st.next) (out : List (Frame α)) :
    flushLoopChecked fuel st out = some (flushLoop fuel st out) := by
  induction fuel generalizing st out with
  | zero => rfl
  | succ fuel ih =>
      rw [flushLoopChecked, flushLoop]
      cases hf : find st.buf st.next with
      | none => rfl
      | some f =>
          obtain ⟨hlt, hpop⟩ := h.pop hf
          have hnext : add 32 st.next 1 = some (st.next + 1) := add_eq (by omega)
          simp only [hnext, Option.bind_eq_bind, Option.bind_some]
          exact ih hpop _

theorem flushReadyChecked_eq (h : Kept sid st st.next) (out : List (Frame α)) :
    flushReadyChecked st out = some (flushReady st out) := flushLoopChecked_eq _ h out

theorem dropStaleChecked_eq (h : d.staleDropped + 1 < 2 ^ 64) :
    dropStaleChecked d = some (dropStale d) := by
  rw [dropStaleChecked, add_eq h]
  rfl

theorem mergeWaitingChecked_eq (fs : List (Frame α)) {stale : Nat}
    (h : stale + (mergeWaiting st fs).2 < 2 ^ 64) :
    mergeWaitingChecked st stale fs =
      some ((mergeWaiting st fs).1, stale + (mergeWaiting st fs).2) := by
  induction fs generalizing st stale with
  | nil => rfl
  | cons f fs ih =>
      rw [mergeWaiting] at h ⊢
      rw [mergeWaitingChecked]
      split at h
      next hdrop =>
        rw [if_pos hdrop, if_pos hdrop]
        have hstale : add 64 stale 1 = some (stale + 1) := add_eq (by omega)
        simp only [hstale, Option.bind_eq_bind, Option.bind_some]
        rw [ih (by omega), Nat.add_assoc, Nat.add_comm 1]
      next htaken =>
        rw [if_neg htaken, if_neg htaken]
        exact ih h

theorem baselineChecked_eq (f : Frame α) : baselineChecked f = some (baseline f) := by
  have hlt := sseq_lt f
  rw [baselineChecked, add_eq (by omega)]
  rfl

theorem startGenerationChecked_eq (d : MuxDecoder α) (f : Frame α) :
    startGenerationChecked d f = some (startGeneration d f) := by
  rw [startGenerationChecked, baselineChecked_eq]
  simp only [Option.bind_eq_bind, Option.bind_some]
  rw [flushReadyChecked_eq (kept_baseline f)]
  rfl

theorem holdPreopenChecked_eq (h : (holdPreopen d f).2.staleDropped < 2 ^ 64) :
    holdPreopenChecked d f = some (holdPreopen d f) := by
  simp only [holdPreopen, holdPreopenChecked] at h ⊢
  split
  · rfl
  next hfull =>
    rw [if_neg hfull] at h
    rw [dropStaleChecked_eq h]
    rfl

theorem feedOpenChecked_eq (hd : Wellformed d) (h : (feedOpen d f).2.staleDropped < 2 ^ 64) :
    feedOpenChecked d f = some (feedOpen d f) := by
  have hwaiting : WaitingOk f.sessionId ((find d.preopen f.sessionId).getD []) :=
    (hd.slot f.key).waiting
  have hlength := hwaiting.length
  have hcapacity : add 64 ((find d.preopen f.sessionId).getD []).length 8 =
      some (((find d.preopen f.sessionId).getD []).length + 8) := by
    apply add_eq
    rw [preopenMax] at hlength
    omega
  have hkept := (kept_baseline f).merge _ fun g hg => (hwaiting.early g hg).session
  simp only [feedOpenChecked, baselineChecked_eq, hcapacity, mergeWaitingChecked_eq _ h,
    flushReadyChecked_eq hkept, Option.bind_eq_bind, Option.bind_some]
  rfl

theorem feedCurrentChecked_eq (hst : StateOk sid st)
    (h : (feedCurrent d st f).2.staleDropped < 2 ^ 64)
    (hahead : (feedCurrent d st f).2.outOfOrder < 2 ^ 64) :
    feedCurrentChecked d st f = some (feedCurrent d st f) := by
  rw [feedCurrent] at h hahead ⊢
  rw [feedCurrentChecked]
  by_cases hpast : f.sseq < st.next
  · rw [if_pos hpast] at h ⊢
    rw [if_pos hpast, dropStaleChecked_eq h]
    rfl
  rw [if_neg hpast] at h hahead ⊢
  rw [if_neg hpast]
  by_cases hnext : f.sseq = st.next
  · have hlt := sseq_lt f
    have hkept : Kept sid { st with next := st.next + 1 } (st.next + 1) :=
      ⟨Nat.le_add_left 1 _, hnext ▸ hlt, hst.buffered, hst.kept⟩
    rw [if_pos hnext, if_pos hnext, add_eq (by omega)]
    simp only [Option.bind_eq_bind, Option.bind_some]
    rw [flushReadyChecked_eq hkept]
    rfl
  rw [if_neg hnext] at h hahead ⊢
  rw [if_neg hnext]
  have hcount : add 64 d.outOfOrder 1 = some (d.outOfOrder + 1) := by
    apply add_eq
    by_cases hroom : st.buffered < reorderMax
    · simp only [if_pos hroom] at hahead
      exact hahead
    · simp only [if_neg hroom] at hahead
      exact hahead
  simp only [hcount, Option.bind_eq_bind, Option.bind_some]
  by_cases hroom : st.buffered < reorderMax
  · rw [if_pos hroom, if_pos hroom]
    rfl
  · simp only [if_neg hroom] at h ⊢
    rw [sub_eq (Nat.le_of_not_lt hpast)]
    simp only [Option.bind_some]
    rw [dropStaleChecked_eq h]
    rfl

theorem feedFrameChecked_eq (hd : Wellformed d) (h : (feedFrame d f).2.staleDropped < 2 ^ 64)
    (hahead : (feedFrame d f).2.outOfOrder < 2 ^ 64) :
    feedFrameChecked d f = some (feedFrame d f) := by
  rw [feedFrame] at h hahead ⊢
  rw [feedFrameChecked]
  split
  · rfl
  next hordered =>
    rw [if_neg hordered] at h hahead
    split
    · rfl
    next hepoch =>
      rw [if_neg hepoch] at h hahead
      split
      next hopen =>
        rw [if_pos hopen] at h
        exact feedOpenChecked_eq hd h
      next hopen =>
        rw [if_neg hopen] at h hahead
        cases hst : find d.states f.key with
        | some st =>
            simp only [hst] at h hahead ⊢
            split
            next heq =>
              rw [if_pos heq] at h hahead
              exact feedCurrentChecked_eq (hd.states f.key st hst) h hahead
            next hne =>
              rw [if_neg hne] at h
              split
              · exact startGenerationChecked_eq d f
              next hold =>
                rw [if_neg hold] at h
                rw [dropStaleChecked_eq h]
                rfl
        | none =>
            simp only [hst] at h ⊢
            split
            · exact startGenerationChecked_eq d f
            next hdir =>
              rw [if_neg hdir] at h
              exact holdPreopenChecked_eq h

theorem outOfOrder_feedFrame (d : MuxDecoder α) (f : Frame α) :
    (feedFrame d f).2.outOfOrder ≤ d.outOfOrder + 1 := by
  rw [feedFrame]
  split
  · exact Nat.le_succ _
  split
  · exact Nat.le_succ _
  split
  · exact Nat.le_succ _
  cases find d.states f.key with
  | some st =>
      simp only [feedCurrent]
      split
      · split
        · exact Nat.le_succ _
        split
        · exact Nat.le_succ _
        split
        · exact Nat.le_refl _
        · exact Nat.le_refl _
      split
      · exact Nat.le_succ _
      · exact Nat.le_succ _
  | none =>
      simp only [holdPreopen]
      split
      · exact Nat.le_succ _
      split
      · exact Nat.le_succ _
      · exact Nat.le_succ _

end Steps

/-- Every message is kept once or counted as dropped once at most, so no counter runs ahead of the
messages. -/
structure Tallied (d : MuxDecoder Bytes) : Prop where
  dropped : d.staleDropped + bufferedFrames d ≤ d.rxFrames
  ahead : d.outOfOrder ≤ d.rxFrames

section Run

variable {d : MuxDecoder Bytes}

theorem tallied_new : Tallied MuxDecoder.new := ⟨Nat.le_refl _, Nat.le_refl _⟩

theorem rxFrames_feed (d : MuxDecoder Bytes) (m : Bytes) :
    (feed d m).2.rxFrames = d.rxFrames + 1 := by
  cases hm : decodeFrame m with
  | none => rw [feed_of_decode_none hm, countRx]
  | some f =>
      exact congrArg (fun r => r.2.rxFrames)
        ((feed_of_decode hm).trans (feedFrame_rxFrames d f (d.rxFrames + 1)))

theorem Tallied.feed (hd : Tallied d) (m : Bytes) : Tallied (feed d m).2 := by
  have hrx := rxFrames_feed d m
  cases hm : decodeFrame m with
  | none =>
      rw [feed_of_decode_none hm]
      exact ⟨Nat.le_succ_of_le hd.dropped, Nat.le_succ_of_le hd.ahead⟩
  | some f =>
      rw [feed_of_decode hm] at hrx ⊢
      have hstale := staleDropped_feedFrame (countRx d) f
      have hahead := outOfOrder_feedFrame (countRx d) f
      obtain ⟨lost, hperm, hcount, -⟩ := feedFrame_conserves (countRx d) f
      have hlength := hperm.length_eq
      simp only [List.length_cons, List.length_append, length_heldFrames] at hlength
      have hbefore : bufferedFrames (countRx d) = bufferedFrames d := rfl
      have hdropped := hd.dropped
      refine ⟨?_, ?_⟩
      · rw [hrx, hstale]
        change d.staleDropped + _ + _ ≤ _
        omega
      · rw [hrx]
        exact Nat.le_trans hahead (Nat.succ_le_succ hd.ahead)

theorem bufferedFramesChecked_eq (h : bufferedFrames d < 2 ^ 64) :
    bufferedFramesChecked d = some (bufferedFrames d) := by
  rw [bufferedFrames] at h
  rw [bufferedFramesChecked, sum_eq (by omega), sum_eq (by omega)]
  exact add_eq h

theorem feedChecked_eq (hd : Wellformed d) (ht : Tallied d) (hroom : d.rxFrames + 1 < 2 ^ 64)
    (m : Bytes) : feedChecked d m = some (feed d m) := by
  have hafter := ht.feed m
  have hrx := rxFrames_feed d m
  have hdropped := hafter.dropped
  have hahead := hafter.ahead
  have hbuffered : bufferedFramesChecked (countRx d) = some (bufferedFrames d) := by
    apply bufferedFramesChecked_eq
    have hbefore := ht.dropped
    change bufferedFrames d < 2 ^ 64
    omega
  rw [feedChecked, add_eq hroom]
  simp only [Option.bind_eq_bind, Option.bind_some]
  rw [← countRx, hbuffered, decodeFrameChecked_eq]
  simp only [Option.bind_some, ite_self]
  cases hm : decodeFrame m with
  | none =>
      rw [feed_of_decode_none hm]
      rfl
  | some f =>
      rw [feed_of_decode hm] at hdropped hahead hrx ⊢
      apply feedFrameChecked_eq
      · exact ⟨hd.states, hd.preopen⟩
      · omega
      · omega

theorem feedAllChecked_eq (msgs : List Bytes) (hd : Wellformed d) (ht : Tallied d)
    (hroom : d.rxFrames + msgs.length < 2 ^ 64) :
    feedAllChecked d msgs = some (feedAll d msgs) := by
  induction msgs generalizing d with
  | nil => rfl
  | cons m msgs ih =>
      rw [List.length_cons] at hroom
      have hrx := rxFrames_feed d m
      rw [feedAllChecked, feedChecked_eq hd ht (by omega) m]
      simp only [Option.bind_eq_bind, Option.bind_some]
      rw [ih (hd.feed m) (ht.feed m) (by omega)]
      rfl

/-- The tables of the decoder are well formed whatever is fed, and for fewer than 2^64 messages no
number that `feed` computes leaves its width and no slice goes out of bounds. -/
theorem decoder_wellformed_no_overflow (msgs : List Bytes) :
    Wellformed (feedAll MuxDecoder.new msgs).2 ∧
      (msgs.length < 2 ^ 64 → feedAllChecked MuxDecoder.new msgs =
        some (feedAll MuxDecoder.new msgs)) := by
  refine ⟨wellformed_feedAll msgs, fun h => feedAllChecked_eq msgs wellformed_new tallied_new ?_⟩
  rw [MuxDecoder.new, Nat.zero_add]
  exact h

theorem feedAllChecked_replicate (n : Nat) (hd : Wellformed d) (ht : Tallied d)
    (hn : d.rxFrames + (n + 1) = 2 ^ 64) : feedAllChecked d (List.replicate (n + 1) []) = none := by
  induction n generalizing d with
  | zero =>
      have hfull : add 64 d.rxFrames 1 = none := if_neg (by omega)
      rw [List.replicate_succ, feedAllChecked, feedChecked, hfull]
      rfl
  | succ n ih =>
      rw [List.replicate_succ, feedAllChecked, feedChecked_eq hd ht (by omega)]
      simp only [Option.bind_eq_bind, Option.bind_some]
      have hrx := rxFrames_feed d []
      rw [ih (hd.feed []) (ht.feed []) (by omega)]
      rfl

/-- The counter of the messages overflows at the 2^64th. -/
theorem rxFrames_overflows :
    feedAllChecked MuxDecoder.new (List.replicate (2 ^ 64 - 1 + 1) []) = none :=
  feedAllChecked_replicate (2 ^ 64 - 1) wellformed_new tallied_new rfl

end Run

end SrtVpn.DecoderArithmetic
