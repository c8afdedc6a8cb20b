import SrtVpn.BigEndian

namespace SrtVpn.Wire

open BigEndian

def protocolVersion : UInt8 := 2

def tunnelMagic : Bytes := [0x53, 0x52, 0x54, 0x56]

inductive FrameType
  | data | ack | nack | datagram | challenge | response | heartbeat | «open» | close | fin | rst
  deriving DecidableEq, Repr

def FrameType.toByte : FrameType → UInt8
  | .data => 0x01
  | .ack => 0x02
  | .nack => 0x03
  | .datagram => 0x04
  | .challenge => 0x10
  | .response => 0x11
  | .heartbeat => 0x12
  | .open => 0x20
  | .close => 0x21
  | .fin => 0x22
  | .rst => 0x23

def FrameType.fromByte (b : UInt8) : Option FrameType :=
  if b = 0x01 then some .data
  else if b = 0x02 then some .ack
  else if b = 0x03 then some .nack
  else if b = 0x04 then some .datagram
  else if b = 0x10 then some .challenge
  else if b = 0x11 then some .response
  else if b = 0x12 then some .heartbeat
  else if b = 0x20 then some .open
  else if b = 0x21 then some .close
  else if b = 0x22 then some .fin
  else if b = 0x23 then some .rst
  else none

theorem fromByte_toByte (t : FrameType) : FrameType.fromByte t.toByte = some t := by
  cases t <;> rfl

def flagReliable : UInt8 := 0x04

def flagDirAccept : UInt8 := 0x10

def frameHeaderLen : Nat := 15

def frameDataMax : Nat := 1301

def epochBits : UInt32 := 24

def seqMask : UInt32 := 0xFFFFFF

/-- The frames delivered in session order; all others bypass the reorder layer. -/
def usesSessionOrder : FrameType → Bool
  | .open | .data | .fin | .close => true
  | _ => false

/-- A decoded frame. The payload type stays open because neither the sequence numbering nor the
reorder layer looks inside it; on the wire it is `Bytes`. -/
structure Frame (α : Type) where
  ftype : FrameType
  sessionId : UInt16
  seq : UInt32
  flags : UInt8
  payload : α
  deriving DecidableEq, Repr

variable {α : Type}

instance Frame.lawfulBEq [DecidableEq α] : LawfulBEq (Frame α) := inferInstance

/-- Session generation: the high byte of the sequence field, zero outside session order. -/
def Frame.epoch (f : Frame α) : UInt8 := (f.seq >>> epochBits).toUInt8

def Frame.sseq (f : Frame α) : Nat := (f.seq &&& seqMask).toNat

def Frame.dirAcceptor (f : Frame α) : Bool := f.flags &&& flagDirAccept != 0

def Frame.key (f : Frame α) : UInt16 × Bool := (f.sessionId, f.dirAcceptor)

def frameBytes (f : Frame Bytes) : Bytes :=
  tunnelMagic ++ [protocolVersion, f.ftype.toByte] ++ toBytes 2 f.sessionId.toNat ++
    toBytes 2 f.payload.length ++ toBytes 4 f.seq.toNat ++ [f.flags] ++ f.payload

/-- The fifteen header bytes are matched by position, so a shorter message has no decoding. -/
def decodeFrame : Bytes → Option (Frame Bytes)
  | m0 :: m1 :: m2 :: m3 :: version :: t :: s0 :: s1 :: l0 :: l1 :: q0 :: q1 :: q2 :: q3 ::
    flags :: rest =>
      if [m0, m1, m2, m3] ≠ tunnelMagic then none
      else if version ≠ protocolVersion then none
      else do
        let ftype ← FrameType.fromByte t
        if ofBytes [l0, l1] > rest.length then none
        else some {
          ftype := ftype
          sessionId := UInt16.ofNat (ofBytes [s0, s1])
          seq := UInt32.ofNat (ofBytes [q0, q1, q2, q3])
          flags := flags
          payload := rest.take (ofBytes [l0, l1]) }
  | _ => none

theorem decodeFrame_frameBytes (f : Frame Bytes) (h : f.payload.length < 65536) :
    decodeFrame (frameBytes f) = some f := by
  have hs := ofBytes_toBytes 2 (show f.sessionId.toNat < 256 ^ 2 from f.sessionId.toNat_lt)
  have hl := ofBytes_toBytes 2 (show f.payload.length < 256 ^ 2 from h)
  have hq := ofBytes_toBytes 4 (show f.seq.toNat < 256 ^ 4 from f.seq.toNat_lt)
  simp only [toBytes] at hs hl hq
  simp only [frameBytes, tunnelMagic, toBytes, List.cons_append, List.nil_append, decodeFrame,
    hs, hl, hq, fromByte_toByte]
  simp

theorem toNat_seqMask : seqMask.toNat = 2 ^ 24 - 1 := rfl

theorem sseq_lt (f : Frame α) : f.sseq < 2 ^ 24 := by
  have hle : f.seq.toNat &&& seqMask.toNat ≤ seqMask.toNat := Nat.and_le_right
  rw [Frame.sseq, UInt32.toNat_and]
  rw [toNat_seqMask] at hle ⊢
  omega

end SrtVpn.Wire
