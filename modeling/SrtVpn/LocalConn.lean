import SrtVpn.Dispatch
import SrtVpn.Programs
import SrtVpn.Session

namespace SrtVpn.LocalConn

open BigEndian Wire Encoder Session Dispatch Programs

/-- What a local connection does to the tunnel: the registry as it finds it, the sessions it
allocates and the frames it sends. -/
structure Tunnel where
  registry : SessionRegistry Bytes
  allocated : List UInt16
  sent : List (Call Bytes)

/-- A local connection with all it will meet: the bytes still to be read, how many of them each
partial read finds (at least one), what ends them (`none` is end of stream), the outcome of each
write to it and of each send to the tunnel, and whether a UDP relay can be bound and which address
it gets. -/
structure Conn where
  input : Bytes
  sizes : List Nat
  readError : Option String
  writeErrors : List (Option String)
  sendErrors : List (Option String)
  relayBind : Except String Unit
  relayAddr : Except String (Bytes × UInt16)
  written : Bytes
  tunnel : Tunnel

inductive Stop
  | error (text : String) (quoted : Bytes)
  | panic
  deriving DecidableEq, Repr

inductive Stage
  | forwarding (sid : UInt16)
  | relaying (sid : UInt16)
  deriving DecidableEq, Repr

abbrev Handler (α : Type) := Prog Conn Stop α

def fail {α : Type} (text : String) : Handler α := throw (.error text [])

def readExact (context : String) (n : Nat) : Handler Bytes := .of fun c =>
  if c.input.length < n then
    (.error (.error (context ++ c.readError.getD "early eof") []), { c with input := [] })
  else (.ok (c.input.take n), { c with input := c.input.drop n })

def readByte (context : String) : Handler UInt8 := do
  return (← readExact context 1).headD 0

def Conn.grain (c : Conn) (n : Nat) : Nat := min n (max 1 (c.sizes.headD n))

def read (context : String) (n : Nat) : Handler Bytes := .of fun c =>
  if c.input = [] then
    match c.readError with
    | none => (.ok [], c)
    | some e => (.error (.error (context ++ e) []), c)
  else (.ok (c.input.take (c.grain n)), { c with
    input := c.input.drop (c.grain n)
    sizes := c.sizes.tail })

def writeAll (context : String) (bytes : Bytes) : Handler Unit := .of fun c =>
  match c.writeErrors with
  | some e :: es => (.error (.error (context ++ e) []), { c with writeErrors := es })
  | es => (.ok (), { c with writeErrors := es.tail, written := c.written ++ bytes })

def allocate : Handler (Option UInt16) := .of fun c =>
  match c.tunnel.registry.allocate with
  | (some (sid, _), reg) => (.ok (some sid), { c with
      tunnel := { c.tunnel with registry := reg, allocated := c.tunnel.allocated ++ [sid] } })
  | (none, reg) => (.ok none, { c with tunnel := { c.tunnel with registry := reg } })

def sendCall (context : String) (call : Call Bytes) : Handler Unit := .of fun c =>
  if frameDataMax < call.payload.length then (.error .panic, c)
  else match c.sendErrors with
    | some e :: es => (.error (.error (context ++ e) []), { c with sendErrors := es })
    | es => (.ok (), { c with
        sendErrors := es.tail
        tunnel := { c.tunnel with sent := c.tunnel.sent ++ [call] } })

def sendControlFrame (call : Call Bytes) : Handler Unit := sendCall "发送控制帧失败: " call

def sendBatch (calls : List (Call Bytes)) : Handler Unit := calls.forM (sendCall "发送数据帧失败: ")

def dropSession (sid : UInt16) (c : Conn) : Conn :=
  { c with tunnel := { c.tunnel with registry := c.tunnel.registry.remove sid } }

def protoTcp : UInt8 := 0

def writeReply (reply : Bytes) : Handler Unit :=
  if reply ≠ [] then writeAll "写 CONNECT 响应失败: " reply else pure ()

def sendPrepend (sid : UInt16) (prepend : Bytes) : Handler Unit :=
  if prepend ≠ [] then sendBatch (sendDataBatch sid prepend) else pure ()

def openForward (sid : UInt16) (dst : Bytes) (dstPort : UInt16) (reply prepend : Bytes) :
    Handler Stage := do
  sendControlFrame (sendOpen sid protoTcp dst dstPort)
  writeReply reply
  sendPrepend sid prepend
  return .forwarding sid

/-- An error before the loop still sends the Close; a failed assertion unwinds past it. -/
def closing (sid : UInt16) (m : Handler Stage) : Handler Stage := .of fun c =>
  match exec m c with
  | (.ok stage, c) => (.ok stage, c)
  | (.error .panic, c) => (.error .panic, dropSession sid c)
  | (.error e, c) =>
      (.error e, dropSession sid (exec (sendControlFrame (sendControl sid .close [])) c).2)

/-- Up to the forwarding loop, which allocates no session and sends no Open. -/
def startForwardWithReply (dst : Bytes) (dstPort : UInt16) (reply prepend : Bytes) :
    Handler Stage := do
  match ← allocate with
  | none => fail "隧道会话数已达上限，拒绝打开"
  | some sid => closing sid (openForward sid dst dstPort reply prepend)

def startTcpForward (dst : Bytes) (dstPort : UInt16) : Handler Stage :=
  startForwardWithReply dst dstPort [0x05, 0x00, 0x00, 0x01, 127, 0, 0, 1, 0, 0] []

end SrtVpn.LocalConn
