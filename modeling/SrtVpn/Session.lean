import SrtVpn.Chunks
import SrtVpn.Encoder

namespace SrtVpn.Session

open BigEndian Wire Encoder Chunks

variable {α : Type}

/-- Payload of an Open: protocol, host length as one byte, host, port. -/
def openPayload (proto : UInt8) (host : Bytes) (port : UInt16) : Bytes :=
  proto :: UInt8.ofNat host.length :: host ++ toBytes 2 port.toNat

def sendControl (sid : UInt16) (ftype : FrameType) (payload : Bytes) : Call Bytes :=
  ⟨ftype, sid, 0, payload⟩

def sendOpen (sid : UInt16) (proto : UInt8) (host : Bytes) (port : UInt16) : Call Bytes :=
  sendControl sid .open (openPayload proto host port)

def sendDataBatch (sid : UInt16) (data : Bytes) : List (Call Bytes) :=
  (chunks frameDataMax data).map fun chunk => ⟨.data, sid, 0, chunk⟩

inductive SessionOp
  | batch (data : Bytes)
  | fin
  | close
  deriving DecidableEq, Repr

def SessionOp.calls (sid : UInt16) : SessionOp → List (Call Bytes)
  | .batch data => sendDataBatch sid data
  | .fin => [sendControl sid .fin []]
  | .close => [sendControl sid .close []]

def SessionOp.data : SessionOp → Bytes
  | .batch data => data
  | _ => []

def sessionCalls (sid : UInt16) (proto : UInt8) (host : Bytes) (port : UInt16)
    (ops : List SessionOp) : List (Call Bytes) :=
  sendOpen sid proto host port :: ops.flatMap (SessionOp.calls sid)

theorem mem_calls {sid : UInt16} {op : SessionOp} {c : Call Bytes} (h : c ∈ op.calls sid) :
    c.ftype ≠ .open ∧ c.flags = 0 := by
  cases op with
  | batch data =>
      obtain ⟨chunk, _, rfl⟩ := List.mem_map.mp h
      exact ⟨by simp, rfl⟩
  | fin => simp [List.mem_singleton.mp h, sendControl]
  | close => simp [List.mem_singleton.mp h, sendControl]

theorem data_calls (sid : UInt16) (ops : List SessionOp) :
    (((ops.flatMap (SessionOp.calls sid)).filter (·.ftype = .data)).map Call.payload).flatten =
      ops.flatMap SessionOp.data := by
  induction ops with
  | nil => rfl
  | cons op ops ih =>
      rw [List.flatMap_cons, List.filter_append, List.map_append, List.flatten_append, ih,
        List.flatMap_cons]
      congr 1
      cases op with
      | batch data =>
          rw [SessionOp.calls, sendDataBatch, List.filter_eq_self.mpr (by simp), List.map_map]
          simpa [Function.comp_def, SessionOp.data] using flatten_chunks (by decide) data
      | fin => rfl
      | close => rfl

end SrtVpn.Session
