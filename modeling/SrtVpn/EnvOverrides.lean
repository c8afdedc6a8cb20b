import SrtVpn.UserLists

namespace SrtVpn.EnvOverrides

open BigEndian Text TextFields SrtVpn.Configuration UserLists

section Defaults

def socks5Of (socks5 : Option Socks5Config) : Socks5Config :=
  socks5.getD ⟨⟨none, none, []⟩, defaultSocks5Listen⟩

def reconnectOf (reconnect : Option ReconnectConfig) : ReconnectConfig :=
  reconnect.getD ⟨defaultReconnectInterval, defaultReconnectMax⟩

/-- The fields that a variable sets have the same values in both configurations. -/
def Keeps : EnvVar → Config → Config → Prop
  | .mode, a, b => b.mode = a.mode
  | .passphrase, a, b => b.passphrase = a.passphrase
  | .crypto, a, b => b.crypto = a.crypto
  | .metricsPort, a, b => b.metricsPort = a.metricsPort
  | .logLevel, a, b => b.logLevel = a.logLevel
  | .listen, a, b => b.listen = a.listen
  | .udpMode, a, b => b.udpMode = a.udpMode
  | .udpDatagram, a, b => b.udpDatagram = a.udpDatagram
  | .latency, a, b => b.latencyMs = a.latencyMs
  | .udpTtlMin, a, b => b.udpTtlMin = a.udpTtlMin
  | .maxbwMbps, a, b => b.maxbwMbps = a.maxbwMbps
  | .maxClients, a, b => b.maxClients = a.maxClients
  | .socks5Users, a, b =>
      b.socks5Users = a.socks5Users ∧ (socks5Of b.socks5).users = (socks5Of a.socks5).users
  | .server, a, b => b.server = a.server
  | .streamid, a, b => b.streamid = a.streamid
  | .reconnectInterval, a, b =>
      (reconnectOf b.reconnect).intervalSecs = (reconnectOf a.reconnect).intervalSecs
  | .reconnectMax, a, b =>
      (reconnectOf b.reconnect).maxRetries = (reconnectOf a.reconnect).maxRetries
  | .socks5Listen, a, b => (socks5Of b.socks5).listen = (socks5Of a.socks5).listen
  | .socks5User, a, b => (socks5Of b.socks5).username = (socks5Of a.socks5).username
  | .socks5Pass, a, b => (socks5Of b.socks5).password = (socks5Of a.socks5).password
  | .heartbeatSecs, a, b => b.heartbeatSecs = a.heartbeatSecs

variable {w : World} {cfg : Config}

theorem override_unset {α : Type} {v : EnvVar} {parse : Bytes → Option α} {old : α}
    (h : w.var v = none) : override w v parse old = old := by
  rw [override, h]
  rfl

theorem envUsers_unset (h : w.var .socks5Users = none) (call : Nat) : envUsers w call = none := by
  rw [envUsers, parseEnvSocks5Users, h]
  rfl

end Defaults

section Proxy

theorem socks5Of_withListen (listen : Option Bytes) (s5 : Option Socks5Config) :
    socks5Of (withListen listen s5) =
      { socks5Of s5 with listen := listen.getD (socks5Of s5).listen } := by
  cases listen <;> cases s5 <;> rfl

theorem socks5Of_withCredentials (user pass : Option Bytes) (s5 : Option Socks5Config) :
    socks5Of (withCredentials user pass s5) =
      { socks5Of s5 with username := user.or (socks5Of s5).username, password := pass.or (socks5Of s5).password } := by
  cases user <;> cases pass <;> cases s5 <;> rfl

theorem socks5Of_withUsers (entries : List Socks5.Socks5UserEntry) (s5 : Option Socks5Config) :
    socks5Of (withUsers entries s5) = { socks5Of s5 with users := entries } := by
  cases s5 <;> rfl

theorem socks5Of_applyEnv (w : World) (cfg : Config) : socks5Of (applyEnv w cfg).socks5 =
    ⟨⟨(w.var .socks5User).or (socks5Of cfg.socks5).username,
      (w.var .socks5Pass).or (socks5Of cfg.socks5).password,
        ((envUsers w 1).map toEntries).getD (socks5Of cfg.socks5).users⟩,
      (w.var .socks5Listen).getD (socks5Of cfg.socks5).listen⟩ := by
  rw [applyEnv]
  cases henv : envUsers w 1 with
  | none => simp only [socks5Of_withCredentials, socks5Of_withListen, Option.map_none,
      Option.getD_none]
  | some users =>
      simp only [socks5Of_withUsers, socks5Of_withCredentials, socks5Of_withListen, Option.map_some,
        Option.getD_some]

theorem socks5_unset {w : World} (cfg : Config) (hlisten : w.var .socks5Listen = none)
    (huser : w.var .socks5User = none) (hpass : w.var .socks5Pass = none)
    (husers : w.var .socks5Users = none) : (applyEnv w cfg).socks5 = cfg.socks5 := by
  rw [applyEnv]
  simp only [hlisten, huser, hpass, envUsers_unset husers]
  rfl

end Proxy

section Reconnect

variable {w : World}

theorem buildReconnect_of_max (h : w.var .reconnectInterval = none) :
    (buildReconnectFromEnv w).toOption.join =
    ((w.var .reconnectMax).bind parseI64).map fun n => ⟨defaultReconnectInterval, n⟩ := by
  rw [buildReconnectFromEnv, parseEnvOpt, parseEnvOpt, h]
  cases w.var .reconnectMax with
  | none => rfl
  | some text =>
      simp only [Option.bind_some]
      cases parseI64 text <;> rfl

theorem buildReconnect_of_interval (h : w.var .reconnectMax = none) :
    (buildReconnectFromEnv w).toOption.join =
    ((w.var .reconnectInterval).bind parseU64).map fun n => ⟨n, defaultReconnectMax⟩ := by
  rw [buildReconnectFromEnv, parseEnvOpt, parseEnvOpt, h]
  cases w.var .reconnectInterval with
  | none => rfl
  | some text =>
      simp only [Option.bind_some]
      cases parseU64 text <;> rfl

theorem interval_applyEnv_iff (cfg : Config) (h : w.var .reconnectInterval = none) :
    (reconnectOf (applyEnv w cfg).reconnect).intervalSecs =
      (reconnectOf cfg.reconnect).intervalSecs ↔
      (((w.var .reconnectMax).bind parseI64).isSome →
        (reconnectOf cfg.reconnect).intervalSecs = defaultReconnectInterval) := by
  have hfield : (applyEnv w cfg).reconnect =
      ((buildReconnectFromEnv w).toOption.join).or cfg.reconnect := rfl
  rw [hfield, buildReconnect_of_max h]
  cases (w.var .reconnectMax).bind parseI64 with
  | none => simp
  | some n => simp [reconnectOf, eq_comm]

theorem max_applyEnv_iff (cfg : Config) (h : w.var .reconnectMax = none) :
    (reconnectOf (applyEnv w cfg).reconnect).maxRetries = (reconnectOf cfg.reconnect).maxRetries ↔
      (((w.var .reconnectInterval).bind parseU64).isSome →
        (reconnectOf cfg.reconnect).maxRetries = defaultReconnectMax) := by
  have hfield : (applyEnv w cfg).reconnect =
      ((buildReconnectFromEnv w).toOption.join).or cfg.reconnect := rfl
  rw [hfield, buildReconnect_of_interval h]
  cases (w.var .reconnectInterval).bind parseU64 with
  | none => simp
  | some n => simp [reconnectOf, eq_comm]

theorem reconnect_unset (cfg : Config) (hinterval : w.var .reconnectInterval = none)
    (hmax : w.var .reconnectMax = none) : (applyEnv w cfg).reconnect = cfg.reconnect := by
  have hfield : (applyEnv w cfg).reconnect =
      ((buildReconnectFromEnv w).toOption.join).or cfg.reconnect := rfl
  rw [hfield, buildReconnect_of_max hinterval, hmax]
  rfl

end Reconnect

section Theorem

variable {w : World} {cfg : Config}

theorem logLevel_applyEnv_iff (h : w.var .logLevel = none) :
    (applyEnv w cfg).logLevel = cfg.logLevel ↔ cfg.logLevel = none := by
  have hfield : (applyEnv w cfg).logLevel =
      (parseEnvOptU8 w .logLevel).toOption.getD cfg.logLevel := rfl
  rw [hfield, parseEnvOptU8, parseEnvOpt, h]
  exact eq_comm

/-- The environment changes only what it sets. -/
structure OnlySet (w : World) (cfg : Config) : Prop where
  kept : ∀ v, w.var v = none → Keeps v cfg (applyEnv w cfg)
  socks5 : w.var .socks5Listen = none → w.var .socks5User = none → w.var .socks5Pass = none →
    w.var .socks5Users = none →
    (applyEnv w cfg).socks5 = cfg.socks5
  reconnect : w.var .reconnectInterval = none → w.var .reconnectMax = none →
    (applyEnv w cfg).reconnect = cfg.reconnect

/-- The three fields that are not left alone hold what they are overwritten with. -/
structure Spared (w : World) (cfg : Config) : Prop where
  logLevel : w.var .logLevel = none → cfg.logLevel = none
  interval : w.var .reconnectInterval = none → ((w.var .reconnectMax).bind parseI64).isSome →
    (reconnectOf cfg.reconnect).intervalSecs = defaultReconnectInterval
  max : w.var .reconnectMax = none → ((w.var .reconnectInterval).bind parseU64).isSome →
    (reconnectOf cfg.reconnect).maxRetries = defaultReconnectMax

theorem keeps_of_spared (h : Spared w cfg) (v : EnvVar) (hv : w.var v = none) :
    Keeps v cfg (applyEnv w cfg) := by
  cases v with
  | mode =>
      have hmode : parseEnvMode w = .error (utf8 "环境变量 SRT_MODE 缺失（server / client）") := by
        rw [parseEnvMode, hv]
      change (parseEnvMode w).toOption.getD cfg.mode = cfg.mode
      rw [hmode]
      rfl
  | passphrase | crypto | metricsPort | listen | udpMode | udpDatagram | latency | udpTtlMin | maxbwMbps | maxClients |
    server | streamid | heartbeatSecs => exact override_unset hv
  | logLevel => exact (logLevel_applyEnv_iff hv).mpr (h.logLevel hv)
  | socks5Users =>
      constructor
      · change (envUsers w 0).getD cfg.socks5Users = cfg.socks5Users
        rw [envUsers_unset hv]
        rfl
      · rw [socks5Of_applyEnv, envUsers_unset hv]
        rfl
  | reconnectInterval => exact (interval_applyEnv_iff cfg hv).mpr (h.interval hv)
  | reconnectMax => exact (max_applyEnv_iff cfg hv).mpr (h.max hv)
  | socks5Listen | socks5User | socks5Pass =>
      change _ = _
      rw [socks5Of_applyEnv, hv]
      rfl

/-- The environment changes only what it sets, but for a log level, which is cleared, and for the
other half of a reconnection of which only one half is set. -/
theorem only_set_fields_change_iff (w : World) (cfg : Config) : OnlySet w cfg ↔ Spared w cfg := by
  constructor
  · intro h
    exact ⟨fun hv => (logLevel_applyEnv_iff hv).mp (h.kept .logLevel hv),
      fun hv => (interval_applyEnv_iff cfg hv).mp (h.kept .reconnectInterval hv),
      fun hv => (max_applyEnv_iff cfg hv).mp (h.kept .reconnectMax hv)⟩
  · intro h
    exact ⟨keeps_of_spared h, socks5_unset cfg, reconnect_unset cfg⟩

/-- An empty environment clears the log level of the file, and a number of retries the interval. -/
theorem unset_fields_overwritten :
    (applyEnv (RunningConfig.serverWorld fun _ => none)
      { RunningConfig.serverFile with logLevel := some 4 }).logLevel = none ∧
    ((applyEnv (RunningConfig.serverWorld fun v =>
        if v = .reconnectMax then some (ascii "3") else none)
        { RunningConfig.serverFile with reconnect := some ⟨60, -1⟩ }).reconnect.map fun r =>
          (r.intervalSecs, r.maxRetries)) =
      some (5, 3) ∧
    ¬ ∀ w cfg, OnlySet w cfg := by
  have hclear : (applyEnv (RunningConfig.serverWorld fun _ => none)
      { RunningConfig.serverFile with logLevel := some 4 }).logLevel = none := by decide +kernel
  refine ⟨hclear, by decide +kernel, fun h => ?_⟩
  have hkept :=
    (h (RunningConfig.serverWorld fun _ => none)
      { RunningConfig.serverFile with logLevel := some 4 }).kept
    .logLevel rfl
  rw [Keeps, hclear] at hkept
  cases hkept

end Theorem

end SrtVpn.EnvOverrides
