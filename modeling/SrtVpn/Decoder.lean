import SrtVpn.Tables
import SrtVpn.Transducer
import SrtVpn.Wire

namespace SrtVpn.Decoder

open BigEndian Tables Wire

variable {α : Type}

structure SidReorder (α : Type) where
  epoch : UInt8
  next : Nat
  buf : Table Nat (Frame α)

def preopenMax : Nat := 64

def reorderMax : Nat := 4096

structure MuxDecoder (α : Type) where
  states : Table (UInt16 × Bool) (SidReorder α)
  preopen : Table UInt16 (List (Frame α))
  outOfOrder : Nat
  staleDropped : Nat
  rxFrames : Nat

def MuxDecoder.new : MuxDecoder α := ⟨∅, ∅, 0, 0, 0⟩

def SidReorder.buffered (st : SidReorder α) : Nat := size st.buf

def flushLoop : Nat → SidReorder α → List (Frame α) → SidReorder α × List (Frame α)
  | 0, st, out => (st, out)
  | fuel + 1, st, out =>
      match find st.buf st.next with
      | some f => flushLoop fuel
          { st with next := st.next + 1, buf := st.buf.erase st.next } (out ++ [f])
      | none => (st, out)

/-- Release the run of frames that has become contiguous. Every turn of the loop removes a buffered
frame, so their number bounds the turns. -/
def flushReady (st : SidReorder α) (out : List (Frame α)) : SidReorder α × List (Frame α) :=
  flushLoop st.buffered st out

/-- Merge the frames that arrived before their Open; the number counts those dropped. -/
def mergeWaiting (st : SidReorder α) : List (Frame α) → SidReorder α × Nat
  | [] => (st, 0)
  | f :: fs =>
      if f.epoch ≠ st.epoch ∨ f.sseq < st.next ∨ reorderMax ≤ st.buffered then
        ((mergeWaiting st fs).1, (mergeWaiting st fs).2 + 1)
      else mergeWaiting { st with buf := st.buf.insert f.sseq f } fs

def dropStale (d : MuxDecoder α) : MuxDecoder α := { d with staleDropped := d.staleDropped + 1 }

def baseline (frame : Frame α) : SidReorder α := ⟨frame.epoch, frame.sseq + 1, ∅⟩

def feedOpen (d : MuxDecoder α) (frame : Frame α) : List (Frame α) × MuxDecoder α :=
  let waiting := (find d.preopen frame.sessionId).getD []
  let merged := mergeWaiting (baseline frame) waiting
  let flushed := flushReady merged.1 [frame]
  (flushed.2, { d with
    states := d.states.insert frame.key flushed.1
    preopen := d.preopen.erase frame.sessionId
    staleDropped := d.staleDropped + merged.2 })

def feedCurrent (d : MuxDecoder α) (st : SidReorder α) (frame : Frame α) :
    List (Frame α) × MuxDecoder α :=
  if frame.sseq < st.next then ([], dropStale d)
  else if frame.sseq = st.next then
    let flushed := flushReady { st with next := st.next + 1 } [frame]
    (flushed.2, { d with states := d.states.insert frame.key flushed.1 })
  else
    let d := { d with outOfOrder := d.outOfOrder + 1 }
    if st.buffered < reorderMax then
      ([], { d with
        states := d.states.insert frame.key { st with buf := st.buf.insert frame.sseq frame } })
    else ([], dropStale d)

def startGeneration (d : MuxDecoder α) (frame : Frame α) : List (Frame α) × MuxDecoder α :=
  let flushed := flushReady (baseline frame) [frame]
  (flushed.2, { d with states := d.states.insert frame.key flushed.1 })

def holdPreopen (d : MuxDecoder α) (frame : Frame α) : List (Frame α) × MuxDecoder α :=
  let v := (find d.preopen frame.sessionId).getD []
  if v.length < preopenMax then
    ([], { d with preopen := d.preopen.insert frame.sessionId (v ++ [frame]) })
  else ([], dropStale d)

/-- The verdict on a frame of another generation: a distance below 128 on the ring of bytes counts
as newer. -/
def newerEpoch (epoch current : UInt8) : Bool := epoch - current < 128

def feedFrame (d : MuxDecoder α) (frame : Frame α) : List (Frame α) × MuxDecoder α :=
  if usesSessionOrder frame.ftype = false then ([frame], d)
  else if frame.epoch = 0 then ([frame], d)
  else if frame.ftype = .open then feedOpen d frame
  else match find d.states frame.key with
    | some st =>
        if st.epoch = frame.epoch then feedCurrent d st frame
        else if newerEpoch frame.epoch st.epoch then startGeneration d frame
        else ([], dropStale d)
    | none => if frame.dirAcceptor then startGeneration d frame else holdPreopen d frame

def countRx (d : MuxDecoder α) : MuxDecoder α := { d with rxFrames := d.rxFrames + 1 }

def feed (d : MuxDecoder Bytes) (msg : Bytes) : List (Frame Bytes) × MuxDecoder Bytes :=
  match decodeFrame msg with
  | none => ([], countRx d)
  | some frame => feedFrame (countRx d) frame

def bufferedFrames (d : MuxDecoder α) : Nat :=
  (d.states.entries.map fun e => e.2.buffered).sum + (d.preopen.entries.map fun e => e.2.length).sum

def feedAll (d : MuxDecoder Bytes) (msgs : List Bytes) : List (Frame Bytes) × MuxDecoder Bytes :=
  ((Transducer.run feed d msgs).1.flatten, (Transducer.run feed d msgs).2)

theorem feedFrame_unordered (d : MuxDecoder α) {f : Frame α}
    (h : usesSessionOrder f.ftype = false) : feedFrame d f = ([f], d) := by
  simp [feedFrame, h]

theorem feed_of_decode {d : MuxDecoder Bytes} {msg : Bytes} {f : Frame Bytes}
    (h : decodeFrame msg = some f) : feed d msg = feedFrame (countRx d) f := by
  simp [feed, h]

theorem feed_of_decode_none {d : MuxDecoder Bytes} {msg : Bytes} (h : decodeFrame msg = none) :
    feed d msg = ([], countRx d) := by
  simp [feed, h]

theorem feedFrame_rxFrames (d : MuxDecoder α) (f : Frame α) (n : Nat) :
    feedFrame { d with rxFrames := n } f =
      ((feedFrame d f).1, { (feedFrame d f).2 with rxFrames := n }) := by
  unfold feedFrame
  split
  · rfl
  split
  · rfl
  split
  · rfl
  simp only
  cases find d.states f.key with
  | some st =>
      simp only [feedCurrent]
      split
      · split
        · rfl
        split
        · rfl
        split <;> rfl
      · split <;> rfl
  | none =>
      simp only [holdPreopen]
      split
      · rfl
      split <;> rfl

theorem run_rxFrames (fs : List (Frame α)) (d : MuxDecoder α) (n : Nat) :
    Transducer.run feedFrame { d with rxFrames := n } fs =
      ((Transducer.run feedFrame d fs).1,
        { (Transducer.run feedFrame d fs).2 with rxFrames := n }) := by
  induction fs generalizing d with
  | nil => rfl
  | cons f fs ih => simp only [Transducer.run_cons, feedFrame_rxFrames, ih]

theorem feedAll_frames (msgs : List Bytes) (d : MuxDecoder Bytes) :
    feedAll d msgs = ((Transducer.run feedFrame d (msgs.filterMap decodeFrame)).1.flatten,
      { (Transducer.run feedFrame d (msgs.filterMap decodeFrame)).2 with
        rxFrames := (feedAll d msgs).2.rxFrames }) := by
  induction msgs generalizing d with
  | nil => rfl
  | cons m msgs ih =>
      have hd : countRx d = { d with rxFrames := d.rxFrames + 1 } := rfl
      simp only [feedAll, Prod.mk.injEq] at ih ⊢
      cases hm : decodeFrame m with
      | none =>
          obtain ⟨hout, hst⟩ := ih (countRx d)
          rw [hd, run_rxFrames] at hout hst
          simp only [Transducer.run_cons, feed_of_decode_none hm, List.filterMap_cons_none hm, hd]
          exact ⟨by simpa using hout, hst⟩
      | some f =>
          obtain ⟨hout, hst⟩ := ih (feedFrame (countRx d) f).2
          rw [hd, feedFrame_rxFrames, run_rxFrames] at hout hst
          simp only [Transducer.run_cons, feed_of_decode hm, List.filterMap_cons_some hm, hd,
            feedFrame_rxFrames]
          exact ⟨by simpa using hout, hst⟩

theorem feedAll_returns (msgs : List Bytes) (d : MuxDecoder Bytes) :
    (feedAll d msgs).1 = (Transducer.run feedFrame d (msgs.filterMap decodeFrame)).1.flatten :=
  congrArg Prod.fst (feedAll_frames msgs d)

theorem feedAll_snoc (d : MuxDecoder Bytes) (msgs : List Bytes) (m : Bytes) :
    feedAll d (msgs ++ [m]) =
      ((feedAll d msgs).1 ++ (feed (feedAll d msgs).2 m).1, (feed (feedAll d msgs).2 m).2) := by
  simp [feedAll, Transducer.run_append]

end SrtVpn.Decoder
