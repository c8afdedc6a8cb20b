import SrtVpn.HttpProxy

namespace SrtVpn.Socks5

open BigEndian Utf8 Text Encoder Session LocalConn HttpProxy Programs

structure Socks5UserEntry where
  username : Bytes
  passwordHash : Bytes

structure Socks5Config where
  username : Option Bytes
  password : Option Bytes
  users : List Socks5UserEntry

def Socks5Config.hasAuth (cfg : Socks5Config) : Bool := cfg.username.isSome || !cfg.users.isEmpty

def socks5Version : UInt8 := 0x05

def methodNoAuth : UInt8 := 0x00

def methodUserPass : UInt8 := 0x02

/-- The bits in which two texts of one length differ, collected without an early exit. -/
def differences (diff : UInt8) (a b : Bytes) : UInt8 :=
  (a.zip b).foldl (fun d p => d ||| (p.1 ^^^ p.2)) diff

section Handler

variable (verifyPassword : Bytes → Bytes → Except String Bool)

def validateCredential (username password : Bytes) (cfg : Socks5Config) : Bool :=
  if cfg.users.isEmpty then
    match cfg.username, cfg.password with
    | some expectedUser, some expectedPass =>
        if username.length ≠ expectedUser.length ∨ password.length ≠ expectedPass.length then false
        else differences (differences 0 username expectedUser) password expectedPass = 0
    | _, _ => true
  else
    match cfg.users.find? fun u => u.username = username with
    | some u =>
        match verifyPassword password u.passwordHash with
        | .ok valid => valid
        | .error _ => false
    | none => false

/-- The choice among the offered methods: with credentials configured the first user/password offer,
without them the no-authentication offer. -/
def selectMethod (authConfigured : Bool) : List UInt8 → Option UInt8 → Option UInt8
  | [], selected => selected
  | m :: ms, selected =>
      if m = methodUserPass ∧ authConfigured then some methodUserPass
      else selectMethod authConfigured ms
        (if m = methodNoAuth ∧ ¬ authConfigured then some methodNoAuth else selected)

def negotiate (cfg : Socks5Config) : Handler UInt8 := do
  let nmethods ← readByte "读认证方法数量失败: "
  let methods ← readExact "读认证方法列表失败: " nmethods.toNat
  match selectMethod cfg.hasAuth methods none with
  | none => fail "无支持的认证方法"
  | some method =>
      writeAll "写认证方法响应失败: " [socks5Version, method]
      return method

def authenticate (cfg : Socks5Config) : Handler Unit := do
  let version ← readByte "读认证头失败: "
  let ulen ← readByte "读认证头失败: "
  if version ≠ 0x01 then fail "非法用户名密码认证版本"
  else
    let username ← readExact "读用户名失败: " ulen.toNat
    let plen ← readByte "读密码长度失败: "
    let password ← readExact "读密码失败: " plen.toNat
    if validateCredential verifyPassword (fromUtf8Lossy username) (fromUtf8Lossy password) cfg then
      writeAll "写认证成功响应失败: " [0x01, 0x00]
    else
      writeAll "写认证失败响应失败: " [0x01, 0x01]
      fail "SOCKS5 认证失败"

def readAddress (atyp : UInt8) : Handler Bytes :=
  if atyp = 0x01 then do
    let ip ← readExact "读 IPv4 失败: " 4
    return ipv4ToString ip
  else if atyp = 0x03 then do
    let dlen ← readByte "读域名长度失败: "
    let domain ← readExact "读域名失败: " dlen.toNat
    return fromUtf8Lossy domain
  else if atyp = 0x04 then do
    let ip ← readExact "读 IPv6 失败: " 16
    return ipv6ToString ip
  else fail ("未知地址类型: " ++ toString atyp)

def buildReply (rep atyp : UInt8) (addr : Bytes) (port : UInt16) : Bytes :=
  [socks5Version, rep, 0x00, atyp] ++ addr ++ toBytes 2 port.toNat

def bindRelay : Handler (Bytes × UInt16) := .of fun c =>
  match c.relayBind, c.relayAddr with
  | .error e, _ => (.error (.error ("UDP 中继 bind 失败: " ++ e) []), c)
  | .ok (), .error e => (.error (.error ("取中继地址失败: " ++ e) []), c)
  | .ok (), .ok address => (.ok address, c)

/-- The session of a relay sends no Close when its Open fails. -/
def openRelay (sid : UInt16) : Handler Stage := .of fun c =>
  match exec (sendControlFrame (sendOpen sid 1 (ascii "0.0.0.0") 0)) c with
  | (.ok (), c) => (.ok (.relaying sid), c)
  | (.error e, c) => (.error e, dropSession sid c)

/-- Up to the relay loop, which allocates no session and sends no Open. -/
def startUdpAssociate : Handler Stage := do
  let (ip, port) ← bindRelay
  writeAll "写 UDP ASSOCIATE 响应失败: " (buildReply 0x00 0x01 ip port)
  match ← allocate with
  | none => fail "隧道会话数已达上限，UDP ASSOCIATE 被拒绝"
  | some sid => openRelay sid

def command : Handler Stage := do
  let hdr ← readExact "读命令头失败: " 4
  if hdr.headD 0 ≠ socks5Version then fail "非法命令请求"
  else
    let cmd := hdr.getD 1 0
    let dstAddr ← readAddress (hdr.getD 3 0)
    let portBuf ← readExact "读端口失败: " 2
    if cmd = 0x01 then startTcpForward dstAddr (UInt16.ofNat (ofBytes portBuf))
    else if cmd = 0x03 then startUdpAssociate
    else if cmd = 0x02 then do
      writeAll "写 BIND 响应失败: " (buildReply 0x07 0x01 [127, 0, 0, 1] 0)
      fail "BIND 命令不支持"
    else fail ("未知命令: " ++ toString cmd)

def isHttpStart (b : UInt8) : Bool := b ∈ ascii "GPODCTH"

def afterFirst (cfg : Socks5Config) (first : UInt8) : Handler Stage :=
  if first ≠ socks5Version ∧ isHttpStart first then handleHttpProxy first
  else if first ≠ socks5Version then fail "非法 SOCKS5 握手版本"
  else do
    let method ← negotiate cfg
    if method = methodUserPass then authenticate verifyPassword cfg
    command

def handleConnection (cfg : Socks5Config) : Handler Stage := do
  let first ← readByte "读协议首字节失败: "
  afterFirst verifyPassword cfg first

end Handler

end SrtVpn.Socks5
