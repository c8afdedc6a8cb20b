import SrtVpn.LocalConn
import SrtVpn.Text

namespace SrtVpn.HttpProxy

open BigEndian Utf8 Text LocalConn Programs

def unbracket (host : Bytes) : Bytes := trimEndMatches 0x5D (trimStartMatches 0x5B host)

def splitHostPort (authority : Bytes) (defaultPort : UInt16) : Bytes × UInt16 :=
  match rsplitOnce 0x3A authority with
  | some (h, p) =>
      if p ≠ [] ∧ p.all isDigit then
        (unbracket h, if number p < 65536 then UInt16.ofNat (number p) else defaultPort)
      else (unbracket authority, defaultPort)
  | none => (unbracket authority, defaultPort)

def crlfcrlf : Bytes := [0x0D, 0x0A, 0x0D, 0x0A]

def lflf : Bytes := [0x0A, 0x0A]

def complete (header : Bytes) : Bool :=
  (position crlfcrlf header).isSome || (position lflf header).isSome

def headerMax : Nat := 65536

/-- Every turn but the last takes at least one byte, so one more than there are is enough fuel. -/
def readHeader : Nat → Bytes → Handler Bytes
  | 0, _ => fail "HTTP 请求头读取中连接关闭"
  | fuel + 1, header => do
      let bytes ← read "读 HTTP 请求头失败: " 4096
      if bytes = [] then fail "HTTP 请求头读取中连接关闭"
      else if complete (header ++ bytes) then pure (header ++ bytes)
      else if headerMax < (header ++ bytes).length then fail "HTTP 请求头过大"
      else readHeader fuel (header ++ bytes)

def requestLine (text : Bytes) : Bytes := text.take ((position [0x0D, 0x0A] text).getD text.length)

def authority (rest : Bytes) : Bytes := rest.takeWhile fun b => b ≠ 0x2F ∧ b ≠ 0x3F

def hostHeader (text : Bytes) : Bytes :=
  ((((lines text).find? fun l => (ascii "host:").isPrefixOf (l.map lower)).bind
    (splitOnce 0x3A)).map fun p => trim p.2).getD []

-- no other letters have these ones as upper case, so the comparison is one of ASCII letters
def isConnect (method : Bytes) : Bool := method.map lower = ascii "connect"

def destination (method target text : Bytes) : Bytes × UInt16 :=
  if isConnect method then splitHostPort target 443
  else match stripPrefix (ascii "http://") target with
    | some rest => splitHostPort (authority rest) 80
    | none =>
        match stripPrefix (ascii "https://") target with
        | some rest => splitHostPort (authority rest) 443
        | none => splitHostPort (hostHeader text) 80

def headerEnd (header : Bytes) : Nat :=
  match position crlfcrlf header with
  | some pos => pos + 4
  | none =>
      match position lflf header with
      | some pos => pos + 2
      | none => header.length

def request (header : Bytes) : Handler Stage :=
  let text := fromUtf8Lossy header
  match splitWhitespace (requestLine text) with
  | method :: target :: _ :: _ =>
      let (dst, dstPort) := destination method target text
      if isConnect method then
        startForwardWithReply dst dstPort (ascii "HTTP/1.1 200 Connection established\r\n\r\n")
          (header.drop (headerEnd header))
      else startForwardWithReply dst dstPort [] header
  | _ => throw (.error "无法解析 HTTP 请求行: " (requestLine text))

def handleHttpProxy (firstByte : UInt8) : Handler Stage := .of fun c =>
  exec (readHeader (c.input.length + 1) [firstByte] >>= request) c

end SrtVpn.HttpProxy
