import SrtVpn.Tables
import SrtVpn.Transducer
import SrtVpn.Wire

namespace SrtVpn.Encoder

open BigEndian Tables Wire

variable {α : Type}

structure SidTx where
  epoch : UInt8
  seq : Nat
  deriving DecidableEq, Repr

structure MuxEncoder where
  seq : UInt32
  sessionTx : Table UInt16 SidTx
  epochCtr : UInt8
  reliable : Bool
  dirAcceptor : Bool

def MuxEncoder.new (reliable : Bool) : MuxEncoder := ⟨0, ∅, 0, reliable, false⟩

def MuxEncoder.newAcceptor (reliable : Bool) : MuxEncoder :=
  { MuxEncoder.new reliable with dirAcceptor := true }

/-- Both counters are machine bytes: the counter wraps after 256 allocations, the epoch cycles
through 1..=255. -/
def allocEpoch (enc : MuxEncoder) : UInt8 × MuxEncoder :=
  (enc.epochCtr % 255 + 1, { enc with epochCtr := enc.epochCtr + 1 })

def sidTx (enc : MuxEncoder) (sid : UInt16) : SidTx := (find enc.sessionTx sid).getD ⟨0, 0⟩

/-- The sending state a session frame is numbered from, after a possible change of generation. -/
def generation (enc : MuxEncoder) (ftype : FrameType) (sid : UInt16) : SidTx × MuxEncoder :=
  if (sidTx enc sid).epoch = 0 ∨ ftype = .open then
    (⟨(allocEpoch enc).1, 0⟩, (allocEpoch enc).2)
  else if seqMask.toNat ≤ (sidTx enc sid).seq then
    (⟨(allocEpoch enc).1, 0⟩, (allocEpoch enc).2)
  else (sidTx enc sid, enc)

def seqField (tx : SidTx) : UInt32 := (tx.epoch.toUInt32 <<< epochBits) ||| UInt32.ofNat tx.seq

def nextSeqField (enc : MuxEncoder) (ftype : FrameType) (sid : UInt16) : UInt32 × MuxEncoder :=
  if usesSessionOrder ftype = false then
    (enc.seq &&& seqMask, { enc with seq := enc.seq + 1 })
  else
    let (tx, enc) := generation enc ftype sid
    (seqField tx, { enc with sessionTx := enc.sessionTx.insert sid { tx with seq := tx.seq + 1 } })

structure Call (α : Type) where
  ftype : FrameType
  sessionId : UInt16
  flags : UInt8
  payload : α
  deriving DecidableEq, Repr

def Call.ofSession (sid : UInt16) (c : Call α) : Bool :=
  usesSessionOrder c.ftype && c.sessionId == sid

theorem Call.ofSession_iff {sid : UInt16} {c : Call α} :
    c.ofSession sid = true ↔ usesSessionOrder c.ftype = true ∧ c.sessionId = sid := by
  simp [Call.ofSession]

def ofSession (sid : UInt16) (f : Frame α) : Bool := usesSessionOrder f.ftype && f.sessionId == sid

def headerFlags (enc : MuxEncoder) (flags : UInt8) : UInt8 :=
  let f := if enc.reliable then flags ||| flagReliable else flags
  if enc.dirAcceptor then f ||| flagDirAccept else f

def stamp (enc : MuxEncoder) (c : Call α) : Frame α × MuxEncoder :=
  let (seq, enc') := nextSeqField enc c.ftype c.sessionId
  (⟨c.ftype, c.sessionId, seq, headerFlags enc c.flags, c.payload⟩, enc')

/-- An oversized payload fails the assertion before any state changes. -/
def encodeFrame (enc : MuxEncoder) (c : Call Bytes) : Option (Bytes × MuxEncoder) :=
  if c.payload.length ≤ frameDataMax then some (frameBytes (stamp enc c).1, (stamp enc c).2)
  else none

def encodeAll (enc : MuxEncoder) : List (Call Bytes) → Option (List Bytes × MuxEncoder)
  | [] => some ([], enc)
  | c :: cs => do
      let (msg, enc) ← encodeFrame enc c
      let (msgs, enc) ← encodeAll enc cs
      pure (msg :: msgs, enc)

def stampAll (enc : MuxEncoder) (cs : List (Call α)) : List (Frame α) × MuxEncoder :=
  Transducer.run stamp enc cs

theorem stampAll_cons (enc : MuxEncoder) (c : Call α) (cs : List (Call α)) :
    (stampAll enc (c :: cs)).1 = (stamp enc c).1 :: (stampAll (stamp enc c).2 cs).1 := rfl

theorem encodeAll_eq_some {enc enc' : MuxEncoder} {cs : List (Call Bytes)} {msgs : List Bytes}
    (h : encodeAll enc cs = some (msgs, enc')) :
    (∀ c ∈ cs, c.payload.length ≤ frameDataMax) ∧ msgs = (stampAll enc cs).1.map frameBytes ∧
      enc' = (stampAll enc cs).2 := by
  induction cs generalizing enc msgs with
  | nil =>
      simp only [encodeAll, Option.some.injEq, Prod.mk.injEq] at h
      obtain ⟨rfl, rfl⟩ := h
      exact ⟨by simp, rfl, rfl⟩
  | cons c cs ih =>
      simp only [encodeAll, encodeFrame] at h
      split at h
      next hc =>
        cases hr : encodeAll (stamp enc c).2 cs with
        | none => simp [hr] at h
        | some p =>
            obtain ⟨rest, enc''⟩ := p
            simp only [hr, Option.bind_eq_bind, Option.bind_some, pure, Option.some.injEq,
              Prod.mk.injEq] at h
            obtain ⟨rfl, rfl⟩ := h
            obtain ⟨hp, hm, he⟩ := ih hr
            refine ⟨by simpa using ⟨hc, hp⟩, ?_, he⟩
            simp [stampAll, hm]
      next hc => simp at h

theorem decode_encodeAll {enc enc' : MuxEncoder} {cs : List (Call Bytes)} {msgs : List Bytes}
    (h : encodeAll enc cs = some (msgs, enc')) :
    msgs.filterMap decodeFrame = (stampAll enc cs).1 := by
  obtain ⟨hlen, rfl, -⟩ := encodeAll_eq_some h
  clear h
  induction cs generalizing enc with
  | nil => rfl
  | cons c cs ih =>
      obtain ⟨hc, hcs⟩ := List.forall_mem_cons.mp hlen
      have hdec : decodeFrame (frameBytes (stamp enc c).1) = some (stamp enc c).1 := by
        apply decodeFrame_frameBytes
        have hpay : (stamp enc c).1.payload = c.payload := rfl
        rw [hpay]
        exact Nat.lt_of_le_of_lt hc (by decide)
      rw [stampAll_cons, List.map_cons, List.filterMap_cons_some hdec, ih hcs]

end SrtVpn.Encoder
