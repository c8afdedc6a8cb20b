import SrtVpn.Socks5
import SrtVpn.TextFields

namespace SrtVpn.Configuration

open BigEndian Text TextFields

inductive Mode
  | server
  | client
  deriving DecidableEq

inductive UdpMode
  | reliable
  | bestEffort
  deriving DecidableEq

structure Socks5User where
  username : Bytes
  passwordHash : Bytes

structure Socks5Config extends Socks5.Socks5Config where
  listen : Bytes

structure ReconnectConfig where
  intervalSecs : UInt64
  maxRetries : Int64

structure Config where
  mode : Mode
  passphrase : Bytes
  crypto : Bytes
  metricsPort : Option UInt16
  logLevel : Option UInt8
  listen : Option Bytes
  udpMode : UdpMode
  udpDatagram : Bool
  latencyMs : Int32
  udpTtlMin : Int32
  maxbwMbps : UInt32
  maxClients : UInt64
  socks5Users : List Socks5User
  server : Option Bytes
  streamid : Option Bytes
  socks5 : Option Socks5Config
  reconnect : Option ReconnectConfig
  heartbeatSecs : UInt64

structure Args where
  config : Option Bytes
  verbose : Option UInt8
  socks5Listen : Option Bytes
  socks5User : Option Bytes
  socks5Pass : Option Bytes
  socks5Users : List Bytes

inductive EnvVar
  | mode | passphrase | crypto | metricsPort | logLevel | listen | udpMode | udpDatagram | latency | udpTtlMin
  | maxbwMbps | maxClients | socks5Users | server | streamid | reconnectInterval | reconnectMax | socks5Listen
  | socks5User | socks5Pass | heartbeatSecs
  deriving DecidableEq

def EnvVar.name : EnvVar → String
  | .mode => "SRT_MODE"
  | .passphrase => "SRT_PASSPHRASE"
  | .crypto => "SRT_CRYPTO"
  | .metricsPort => "SRT_METRICS_PORT"
  | .logLevel => "SRT_LOG_LEVEL"
  | .listen => "SRT_LISTEN"
  | .udpMode => "SRT_UDP_MODE"
  | .udpDatagram => "SRT_UDP_DATAGRAM"
  | .latency => "SRT_LATENCY"
  | .udpTtlMin => "SRT_UDP_TTL_MIN"
  | .maxbwMbps => "SRT_MAXBW_MBPS"
  | .maxClients => "SRT_MAX_CLIENTS"
  | .socks5Users => "SRT_SOCKS5_USERS"
  | .server => "SRT_SERVER"
  | .streamid => "SRT_STREAMID"
  | .reconnectInterval => "SRT_RECONNECT_INTERVAL"
  | .reconnectMax => "SRT_RECONNECT_MAX"
  | .socks5Listen => "SRT_SOCKS5_LISTEN"
  | .socks5User => "SRT_SOCKS5_USER"
  | .socks5Pass => "SRT_SOCKS5_PASS"
  | .heartbeatSecs => "SRT_HEARTBEAT_SECS"

/-- What the program asks the system and other crates: its environment, the content of a file, the
configuration serde reads from it, and argon2. A hash is salted anew each time, so it also depends
on which call asks for it and for which entry. -/
structure World where
  var : EnvVar → Option Bytes
  readToString : Bytes → Except Bytes Bytes
  fromStr : Bytes → Except Bytes Config
  hashPassword : Nat → Nat → Bytes → Except Bytes Bytes
  toLowercase : Bytes → Bytes

def defaultCrypto : Bytes := ascii "aes-128"

def defaultUdpMode : UdpMode := .reliable

def defaultLatency : Int32 := 500

def defaultUdpTtlMin : Int32 := 400

def defaultMaxbwMbps : UInt32 := 0

def defaultMaxClients : UInt64 := 32

def defaultSocks5Listen : Bytes := ascii "127.0.0.1:1080"

def defaultReconnectInterval : UInt64 := 5

def defaultReconnectMax : Int64 := 10

def defaultHeartbeat : UInt64 := 5

def parseU8 (text : Bytes) : Option UInt8 := (parseUnsigned 8 text).map UInt8.ofNat

def parseU16 (text : Bytes) : Option UInt16 := (parseUnsigned 16 text).map UInt16.ofNat

def parseU32 (text : Bytes) : Option UInt32 := (parseUnsigned 32 text).map UInt32.ofNat

def parseU64 (text : Bytes) : Option UInt64 := (parseUnsigned 64 text).map UInt64.ofNat

def parseI32 (text : Bytes) : Option Int32 := (parseSigned 32 text).map Int32.ofInt

section Source

variable (w : World)

def UdpMode.parseStr (s : Bytes) : Except Bytes UdpMode :=
  let lower := w.toLowercase s
  if lower = ascii "reliable" then .ok .reliable
  else if lower = ascii "best-effort" ∨ lower = ascii "besteffort" ∨
    lower = ascii "best_effort" then .ok .bestEffort
  else .error (utf8 "无效的 UDP 模式 '" ++ lower ++ utf8 "'（可选：reliable / best-effort）")

def parseEnvMode : Except Bytes Mode :=
  match w.var .mode with
  | none => .error (utf8 "环境变量 SRT_MODE 缺失（server / client）")
  | some m =>
      if m = ascii "server" then .ok .server
      else if m = ascii "client" then .ok .client
      else .error (utf8 "SRT_MODE 无效 '" ++ m ++ utf8 "'（可选：server / client）")

/-- A variable that need not be set, but must be well formed if it is. -/
def parseEnvOpt {α : Type} (v : EnvVar) (parse : Bytes → Option α) (wrong : String) :
    Except Bytes (Option α) :=
  match w.var v with
  | some text =>
      match parse text with
      | some n => .ok (some n)
      | none => .error (utf8 (v.name ++ wrong))
  | none => .ok none

def parseEnvOptU16 (v : EnvVar) : Except Bytes (Option UInt16) :=
  parseEnvOpt w v parseU16 " 不是有效端口号"

def parseEnvOptU8 (v : EnvVar) : Except Bytes (Option UInt8) := parseEnvOpt w v parseU8 " 不是有效数字"

def readUsers (call : Nat) : Nat → List Bytes → Except Bytes (List Socks5User)
  | _, [] => .ok []
  | i, entry :: rest =>
      let entry := trim entry
      if entry = [] then readUsers call i rest
      else
        match splitOnce 0x3A entry with
        | none => .error (utf8 "SRT_SOCKS5_USERS 条目 '" ++ entry ++ utf8 "' 格式应为 user:pass")
        | some (u, p) =>
            match w.hashPassword call i p with
            | .error e => .error (utf8 "SRT_SOCKS5_USERS 用户 '" ++ u ++ utf8 "' 哈希失败: " ++ e)
            | .ok hash =>
                match readUsers call (i + 1) rest with
                | .error e => .error e
                | .ok users => .ok (⟨trim u, hash⟩ :: users)

def parseEnvSocks5Users (call : Nat) : Except Bytes (List Socks5User) :=
  match w.var .socks5Users with
  | some raw => readUsers w call 0 (split 0x2C raw)
  | none => .ok []

def toEntries (users : List Socks5User) : List Socks5.Socks5UserEntry :=
  users.map fun u => ⟨u.username, u.passwordHash⟩

def buildReconnectFromEnv : Except Bytes (Option ReconnectConfig) := do
  let interval ← parseEnvOpt w .reconnectInterval parseU64 " 不是有效数字"
  let max ← parseEnvOpt w .reconnectMax parseI64 " 不是有效数字"
  if interval.isSome || max.isSome then
    return some ⟨interval.getD defaultReconnectInterval, max.getD defaultReconnectMax⟩
  else return none

def buildSocks5FromEnv : Except Bytes (Option Socks5Config) := do
  let listen := (w.var .socks5Listen).getD defaultSocks5Listen
  let username := w.var .socks5User
  let password := w.var .socks5Pass
  let users ← parseEnvSocks5Users w 1
  if (w.var .socks5Listen).isSome || username.isSome || password.isSome || !users.isEmpty then
    return some ⟨⟨username, password, toEntries users⟩, listen⟩
  else return none

def validateUsers : List Socks5User → Except Bytes Unit
  | [] => .ok ()
  | u :: users =>
      if u.username = [] then .error (utf8 "socks5_users 存在空用户名")
      else if ¬ (ascii "$argon2").isPrefixOf u.passwordHash then
        .error (utf8 "用户 '" ++ u.username ++ utf8 "' 的 password_hash 不是 argon2 格式（应以 $argon2 开头）")
      else validateUsers users

def validate (cfg : Config) : Except Bytes Unit :=
  if cfg.passphrase.length < 10 ∨ 79 < cfg.passphrase.length then
    .error (utf8 "passphrase 长度必须为 10-79 字符（SRT 协议要求）")
  else if cfg.maxClients < 1 then .error (utf8 "max_clients 必须至少为 1")
  else if cfg.crypto ∉ [ascii "aes-128", ascii "aes-192", ascii "aes-256"] then
    .error (utf8 "无效的加密强度 '" ++ cfg.crypto ++ utf8 "'（可选：aes-128/aes-192/aes-256）")
  else if cfg.mode = .server ∧ cfg.listen.isNone then
    .error (utf8 "服务端配置缺少 listen 字段（如 0.0.0.0:9000）")
  else if cfg.mode = .client ∧ cfg.server.isNone then
    .error (utf8 "客户端配置缺少 server 字段（如 vpn.example.com:9000）")
  else validateUsers cfg.socks5Users

def load (path : Bytes) : Except Bytes Config :=
  match w.readToString path with
  | .error e => .error (utf8 "读取配置文件 " ++ path ++ utf8 " 失败: " ++ e)
  | .ok content =>
      match w.fromStr content with
      | .error e => .error (utf8 "解析配置文件 " ++ path ++ utf8 " 失败: " ++ e)
      | .ok cfg => (validate cfg).map fun _ => cfg

def requireEnvPassphrase : Except Bytes Bytes :=
  match w.var .passphrase with
  | some p => .ok p
  | none => .error (utf8 "环境变量 SRT_PASSPHRASE 缺失（SRT 加密密钥，两端必须一致）")

def parseEnvUdpMode : Except Bytes UdpMode :=
  match w.var .udpMode with
  | some s => UdpMode.parseStr w s
  | none => .ok defaultUdpMode

def fromEnv : Except Bytes Config := do
  let mode ← parseEnvMode w
  let passphrase ← requireEnvPassphrase w
  let metricsPort ← parseEnvOptU16 w .metricsPort
  let logLevel ← parseEnvOptU8 w .logLevel
  let udpMode ← parseEnvUdpMode w
  let latencyMs ← parseEnvOpt w .latency parseI32 " 不是有效数字"
  let udpTtlMin ← parseEnvOpt w .udpTtlMin parseI32 " 不是有效数字"
  let maxbwMbps ← parseEnvOpt w .maxbwMbps parseU32 " 不是有效数字"
  let maxClients ← parseEnvOpt w .maxClients parseU64 " 不是有效数字"
  let socks5Users ← parseEnvSocks5Users w 0
  let socks5 ← buildSocks5FromEnv w
  let reconnect ← buildReconnectFromEnv w
  let heartbeatSecs ← parseEnvOpt w .heartbeatSecs parseU64 " 不是有效数字"
  let cfg : Config := {
    mode, passphrase, metricsPort, logLevel, udpMode, socks5Users, socks5, reconnect
    crypto := (w.var .crypto).getD defaultCrypto
    listen := w.var .listen
    udpDatagram := (w.var .udpDatagram).all fun s => s ≠ ascii "false" ∧ s ≠ ascii "0"
    latencyMs := latencyMs.getD defaultLatency
    udpTtlMin := udpTtlMin.getD defaultUdpTtlMin
    maxbwMbps := maxbwMbps.getD defaultMaxbwMbps
    maxClients := maxClients.getD defaultMaxClients
    server := w.var .server
    streamid := w.var .streamid
    heartbeatSecs := heartbeatSecs.getD defaultHeartbeat }
  validate cfg
  return cfg

def withListen (listen : Option Bytes) (socks5 : Option Socks5Config) : Option Socks5Config :=
  match listen, socks5 with
  | none, _ => socks5
  | some listen, some s5 => some { s5 with listen }
  | some listen, none => some ⟨⟨none, none, []⟩, listen⟩

def withCredentials (user pass : Option Bytes) (socks5 : Option Socks5Config) :
    Option Socks5Config :=
  if user.isSome || pass.isSome then
    match socks5 with
    | some s5 => some { s5 with username := user.or s5.username, password := pass.or s5.password }
    | none => some ⟨⟨user, pass, []⟩, defaultSocks5Listen⟩
  else socks5

def withUsers (entries : List Socks5.Socks5UserEntry) (socks5 : Option Socks5Config) :
    Option Socks5Config :=
  match socks5 with
  | some s5 => some { s5 with users := entries }
  | none => some ⟨⟨none, none, entries⟩, defaultSocks5Listen⟩

/-- The value of a variable that is set and well formed, else the value there was. -/
def override {α : Type} (v : EnvVar) (parse : Bytes → Option α) (old : α) : α :=
  ((w.var v).bind parse).getD old

/-- The user table of the environment, unless it is malformed or empty. -/
def envUsers (call : Nat) : Option (List Socks5User) :=
  match parseEnvSocks5Users w call with
  | .ok users => if users.isEmpty then none else some users
  | .error _ => none

def applyEnv (cfg : Config) : Config := { cfg with
  mode := (parseEnvMode w).toOption.getD cfg.mode
  passphrase := override w .passphrase some cfg.passphrase
  crypto := override w .crypto some cfg.crypto
  metricsPort := override w .metricsPort (fun text => (parseU16 text).map some) cfg.metricsPort
  listen := override w .listen (fun text => some (some text)) cfg.listen
  udpMode := override w .udpMode (fun text => (UdpMode.parseStr w text).toOption) cfg.udpMode
  udpDatagram :=
    override w .udpDatagram (fun text => some (text ≠ ascii "false" ∧ text ≠ ascii "0"))
      cfg.udpDatagram
  latencyMs := override w .latency parseI32 cfg.latencyMs
  udpTtlMin := override w .udpTtlMin parseI32 cfg.udpTtlMin
  maxbwMbps := override w .maxbwMbps parseU32 cfg.maxbwMbps
  maxClients := override w .maxClients parseU64 cfg.maxClients
  -- a variable that is not set reads as no level, which replaces the one of the file
  logLevel := (parseEnvOptU8 w .logLevel).toOption.getD cfg.logLevel
  socks5Users := (envUsers w 0).getD cfg.socks5Users
  server := override w .server (fun text => some (some text)) cfg.server
  streamid := override w .streamid (fun text => some (some text)) cfg.streamid
  reconnect := ((buildReconnectFromEnv w).toOption.join).or cfg.reconnect
  socks5 :=
    let s5 := withCredentials (w.var .socks5User) (w.var .socks5Pass)
      (withListen (w.var .socks5Listen) cfg.socks5)
    match envUsers w 1 with
    | some users => withUsers (toEntries users) s5
    | none => s5
  heartbeatSecs := override w .heartbeatSecs parseU64 cfg.heartbeatSecs }

def addUser (entry : Socks5.Socks5UserEntry) : Option Socks5Config → Option Socks5Config
  | some s5 => some { s5 with users := s5.users ++ [entry] }
  | none => some ⟨⟨none, none, [entry]⟩, defaultSocks5Listen⟩

/-- The users given on the command line; those without a colon, or that cannot be hashed, are passed
over. -/
def addUsers : Nat → List Bytes → Option Socks5Config → Option Socks5Config
  | _, [], socks5 => socks5
  | i, entry :: rest, socks5 =>
      match splitOnce 0x3A entry with
      | some (u, p) =>
          match w.hashPassword 2 i p with
          | .ok hash => addUsers (i + 1) rest (addUser ⟨u, hash⟩ socks5)
          | .error _ => addUsers (i + 1) rest socks5
      | none => addUsers (i + 1) rest socks5

def applyCli (args : Args) (cfg : Config) : Config := { cfg with
  socks5 := addUsers w 0 args.socks5Users
    (withCredentials args.socks5User args.socks5Pass (withListen args.socks5Listen cfg.socks5)) }

/-- Which role is run on which configuration, and at which log level. -/
structure Dispatch where
  mode : Mode
  cfg : Config
  verbose : UInt8

/-- `async_main` up to the call of `server::run` or `client::run`; an error is what is printed
before the process ends. -/
def asyncMain (args : Args) : Except (List Bytes) Dispatch := do
  let cfg ← match args.config with
    | some path =>
        match load w path with
        | .ok cfg => .ok (applyEnv w cfg)
        | .error e => .error [utf8 "配置加载失败: " ++ e]
    | none =>
        match fromEnv w with
        | .ok cfg => .ok cfg
        | .error e => .error [utf8 "环境变量配置加载失败: " ++ e,
            utf8 "提示：可用 -c <配置文件> 指定配置文件，或用 SRT_* 环境变量配置",
            utf8 "      SRT_MODE / SRT_PASSPHRASE 必填；服务端加 SRT_LISTEN，客户端加 SRT_SERVER"]
  let cfg := applyCli w args cfg
  return ⟨cfg.mode, cfg, args.verbose.getD (cfg.logLevel.getD 2)⟩

end Source

end SrtVpn.Configuration
