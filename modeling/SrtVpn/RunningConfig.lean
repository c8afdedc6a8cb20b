import SrtVpn.Configuration

namespace SrtVpn.RunningConfig

open BigEndian Text TextFields SrtVpn.Configuration

section Outcomes

variable {ε α β : Type}

theorem ite_error_eq_ok {p : Prop} [Decidable p] {e : ε} {x : Except ε α} {a : α} :
    (if p then .error e else x) = .ok a ↔ ¬ p ∧ x = .ok a := by
  by_cases hp : p
  · simp [hp]
  · simp [hp]

theorem bind_eq_ok {x : Except ε α} {f : α → Except ε β} {b : β} (h : (x >>= f) = .ok b) :
    ∃ a, x = .ok a ∧ f a = .ok b := by
  cases x with
  | error e => cases h
  | ok a => exact ⟨a, rfl, h⟩

end Outcomes

def knownCryptos : List Bytes := [ascii "aes-128", ascii "aes-192", ascii "aes-256"]

structure Valid (cfg : Config) : Prop where
  passphrase : 10 ≤ cfg.passphrase.length ∧ cfg.passphrase.length ≤ 79
  maxClients : cfg.maxClients ≠ 0
  crypto : cfg.crypto ∈ knownCryptos
  listen : cfg.mode = .server → cfg.listen.isSome
  server : cfg.mode = .client → cfg.server.isSome
  users : ∀ u ∈ cfg.socks5Users,
    u.username ≠ [] ∧ (ascii "$argon2").isPrefixOf u.passwordHash = true

theorem validateUsers_iff (users : List Socks5User) : validateUsers users = .ok () ↔
    ∀ u ∈ users, u.username ≠ [] ∧ (ascii "$argon2").isPrefixOf u.passwordHash = true := by
  induction users with
  | nil => simp [validateUsers]
  | cons u users ih =>
      rw [validateUsers, ite_error_eq_ok, ite_error_eq_ok, ih, List.forall_mem_cons, not_not,
        and_assoc]

theorem maxClients_lt_one (n : UInt64) : n < 1 ↔ n = 0 := by
  rw [UInt64.lt_iff_toNat_lt, ← UInt64.toNat_inj]
  exact Nat.lt_one_iff

theorem validate_iff (cfg : Config) : validate cfg = .ok () ↔ Valid cfg := by
  rw [validate, ite_error_eq_ok, ite_error_eq_ok, ite_error_eq_ok, ite_error_eq_ok, ite_error_eq_ok,
    validateUsers_iff, maxClients_lt_one]
  constructor
  · rintro ⟨hpass, hmax, hcrypto, hlisten, hserver, husers⟩
    refine ⟨by omega, hmax, not_not.mp hcrypto, fun hm => ?_, fun hm => ?_, husers⟩
    · by_contra hnone
      exact hlisten ⟨hm, by simpa using hnone⟩
    · by_contra hnone
      exact hserver ⟨hm, by simpa using hnone⟩
  · intro h
    have hpass := h.passphrase
    refine ⟨by omega, h.maxClients, not_not.mpr h.crypto, ?_, ?_, h.users⟩
    · rintro ⟨hm, hnone⟩
      have hsome := h.listen hm
      simp_all
    · rintro ⟨hm, hnone⟩
      have hsome := h.server hm
      simp_all

section Users

variable {w : World} {call : Nat}

def entriesOf (parts : List Bytes) : List Bytes := (parts.map trim).filter (· ≠ [])

def Usable (w : World) (call i : Nat) (entries : List Bytes) : Prop :=
  ∀ k e, entries[k]? = some e → ∃ u p hash, splitOnce 0x3A e = some (u, p) ∧
  w.hashPassword call (i + k) p = .ok hash

theorem entriesOf_cons (part : Bytes) (parts : List Bytes) :
    entriesOf (part :: parts) =
      if trim part = [] then entriesOf parts else trim part :: entriesOf parts := by
  by_cases h : trim part = []
  · simp [entriesOf, h]
  · simp [entriesOf, h]

theorem usable_cons {i : Nat} {e : Bytes} {entries : List Bytes} : Usable w call i (e :: entries) ↔
    (∃ u p hash, splitOnce 0x3A e = some (u, p) ∧ w.hashPassword call i p = .ok hash) ∧
    Usable w call (i + 1) entries := by
  constructor
  · intro h
    refine ⟨h 0 e rfl, fun k e' he' => ?_⟩
    have hk := h (k + 1) e' (by simpa using he')
    rwa [show i + (k + 1) = i + 1 + k by omega] at hk
  · rintro ⟨hfirst, hrest⟩ k e' he'
    cases k with
    | zero =>
        obtain rfl : e = e' := by simpa using he'
        exact hfirst
    | succ k =>
        have hk := hrest k e' (by simpa using he')
        rwa [show i + 1 + k = i + (k + 1) by omega] at hk

theorem readUsers_ok (i : Nat) (parts : List Bytes) :
    (∃ users, readUsers w call i parts = .ok users) ↔ Usable w call i (entriesOf parts) := by
  induction parts generalizing i with
  | nil => exact ⟨fun _ k e he => by simp [entriesOf] at he, fun _ => ⟨[], rfl⟩⟩
  | cons part parts ih =>
      rw [entriesOf_cons, readUsers]
      by_cases hblank : trim part = []
      · simp only [hblank, if_true]
        exact ih i
      · simp only [hblank, if_false, usable_cons, ← ih]
        cases hsplit : splitOnce 0x3A (trim part) with
        | none => simp
        | some up =>
            obtain ⟨u, p⟩ := up
            cases hhash : w.hashPassword call i p with
            | error e => simp [hhash]
            | ok hash =>
                cases hrest : readUsers w call (i + 1) parts with
                | error e => simp [hhash]
                | ok users => simp [hhash]

theorem readUsers_cons {i : Nat} {part : Bytes} {parts : List Bytes} {users : List Socks5User}
    (h : readUsers w call i (part :: parts) = .ok users) :
    (trim part = [] ∧ readUsers w call i parts = .ok users) ∨
      ∃ u p hash rest, trim part ≠ [] ∧ splitOnce 0x3A (trim part) = some (u, p) ∧
        w.hashPassword call i p = .ok hash ∧
        readUsers w call (i + 1) parts = .ok rest ∧ users = ⟨trim u, hash⟩ :: rest := by
  rw [readUsers] at h
  by_cases hblank : trim part = []
  · simp only [hblank, if_true] at h
    exact Or.inl ⟨hblank, h⟩
  · simp only [hblank, if_false] at h
    cases hsplit : splitOnce 0x3A (trim part) with
    | none => simp [hsplit] at h
    | some up =>
        obtain ⟨u, p⟩ := up
        cases hhash : w.hashPassword call i p with
        | error e => simp [hsplit, hhash] at h
        | ok hash =>
            cases hrest : readUsers w call (i + 1) parts with
            | error e => simp [hsplit, hhash, hrest] at h
            | ok rest =>
                simp only [hsplit, hhash, hrest, Except.ok.injEq] at h
                exact Or.inr ⟨u, p, hash, rest, hblank, rfl, hhash, rfl, h.symm⟩

theorem names_readUsers {i : Nat} {parts : List Bytes} {users : List Socks5User}
    (h : readUsers w call i parts = .ok users) (P : Bytes → Prop) :
    (∀ u ∈ users, P u.username) ↔ ∀ e ∈ entriesOf parts, ∀ u p, splitOnce 0x3A e = some (u, p) →
    P (trim u) := by
  induction parts generalizing i users with
  | nil =>
      obtain rfl := Except.ok.inj h
      simp [entriesOf]
  | cons part parts ih =>
      rw [entriesOf_cons]
      rcases readUsers_cons h with ⟨hblank, hrest⟩ | ⟨u, p, hash, rest, hne, hsplit, -, hrest, rfl⟩
      · rw [if_pos hblank]
        exact ih hrest
      · rw [if_neg hne, List.forall_mem_cons, List.forall_mem_cons, ih hrest, hsplit]
        simp

theorem hashes_readUsers {i : Nat} {parts : List Bytes} {users : List Socks5User} {Q : Bytes → Prop}
    (hhash : ∀ k p hash, w.hashPassword call k p = .ok hash → Q hash)
    (h : readUsers w call i parts = .ok users) :
    ∀ u ∈ users, Q u.passwordHash := by
  induction parts generalizing i users with
  | nil =>
      obtain rfl := Except.ok.inj h
      simp
  | cons part parts ih =>
      rcases readUsers_cons h with ⟨-, hrest⟩ | ⟨u, p, hash, rest, -, -, hok, hrest, rfl⟩
      · exact ih hrest
      · exact List.forall_mem_cons.mpr ⟨hhash i p hash hok, ih hrest⟩

end Users

/-- The role the program takes on, by the file and the environment. -/
def RunsAs (w : World) (base : Config) (mode : Mode) : Prop :=
  match w.var .mode with
  | some text =>
      if text = ascii "server" then mode = .server else if text = ascii "client" then mode = .client
      else mode = base.mode
  | none => mode = base.mode

/-- What the environment may put in the place of a valid file's values. -/
structure OverridesValid (w : World) (base : Config) : Prop where
  passphrase : ∀ p, w.var .passphrase = some p → 10 ≤ p.length ∧ p.length ≤ 79
  maxClients : ∀ text n, w.var .maxClients = some text → parseU64 text = some n → n ≠ 0
  crypto : ∀ c, w.var .crypto = some c → c ∈ knownCryptos
  listen : RunsAs w base .server → base.listen.isSome ∨ (w.var .listen).isSome
  server : RunsAs w base .client → base.server.isSome ∨ (w.var .server).isSome
  users : ∀ raw, w.var .socks5Users = some raw → Usable w 0 0 (entriesOf (split 0x2C raw)) →
    ∀ e ∈ entriesOf (split 0x2C raw), ∀ u p, splitOnce 0x3A e = some (u, p) → trim u ≠ []

section Overrides

variable {w : World} {base : Config}

theorem mode_applyEnv (mode : Mode) : (applyEnv w base).mode = mode ↔ RunsAs w base mode := by
  have hmode : (applyEnv w base).mode = (parseEnvMode w).toOption.getD base.mode := rfl
  rw [hmode, parseEnvMode, RunsAs]
  cases w.var .mode with
  | none => exact eq_comm
  | some text =>
      simp only
      split
      · exact eq_comm
      · split
        · exact eq_comm
        · exact eq_comm

theorem override_iff {α : Type} {v : EnvVar} {parse : Bytes → Option α} {old : α} {P : α → Prop}
    (hold : P old) :
    P (override w v parse old) ↔ ∀ text n, w.var v = some text → parse text = some n → P n := by
  rw [override]
  cases hv : w.var v with
  | none => simpa using hold
  | some text =>
      rw [Option.bind_some]
      constructor
      · intro h text' n htext hn
        obtain rfl := Option.some.inj htext
        rw [hn] at h
        exact h
      · intro h
        cases hp : parse text with
        | none => exact hold
        | some n => exact h text n rfl hp

theorem isSome_override (v : EnvVar) (old : Option Bytes) :
    (override w v (fun text => some (some text)) old).isSome = true ↔
    old.isSome = true ∨ (w.var v).isSome = true := by
  rw [override]
  cases w.var v with
  | none => simp
  | some text => simp

theorem users_applyEnv
    (hhash : ∀ call i p h, w.hashPassword call i p = .ok h → (ascii "$argon2").isPrefixOf h = true)
    (hbase : Valid base) :
    (∀ u ∈ (applyEnv w base).socks5Users,
      u.username ≠ [] ∧ (ascii "$argon2").isPrefixOf u.passwordHash = true) ↔
      ∀ raw, w.var .socks5Users = some raw → Usable w 0 0 (entriesOf (split 0x2C raw)) →
        ∀ e ∈ entriesOf (split 0x2C raw), ∀ u p, splitOnce 0x3A e = some (u, p) → trim u ≠ [] := by
  have husers : (applyEnv w base).socks5Users = (envUsers w 0).getD base.socks5Users := rfl
  rw [husers, envUsers, parseEnvSocks5Users]
  cases hvar : w.var .socks5Users with
  | none => simpa using hbase.users
  | some raw =>
      simp only [Option.some.injEq, forall_eq']
      rw [← readUsers_ok]
      cases hread : readUsers w 0 0 (split 0x2C raw) with
      | error e => simpa [hread] using hbase.users
      | ok users =>
          have hnames := names_readUsers hread (· ≠ [])
          have hargon := hashes_readUsers (hhash 0) hread
          simp only [Except.ok.injEq, exists_eq', true_implies]
          rw [← hnames]
          cases users with
          | nil => simpa using hbase.users
          | cons u users =>
              simp only [List.isEmpty_cons, Bool.false_eq_true, if_false, Option.getD_some]
              exact ⟨fun h v hv => (h v hv).1, fun h v hv => ⟨h v hv, hargon v hv⟩⟩

theorem valid_applyEnv_iff
    (hhash : ∀ call i p h, w.hashPassword call i p = .ok h → (ascii "$argon2").isPrefixOf h = true)
    (hbase : Valid base) : Valid (applyEnv w base) ↔ OverridesValid w base := by
  have hpass :
      (10 ≤ (applyEnv w base).passphrase.length ∧ (applyEnv w base).passphrase.length ≤ 79) ↔
      ∀ text n, w.var .passphrase = some text → some text = some n →
      10 ≤ n.length ∧ n.length ≤ 79 :=
    override_iff (P := fun p : Bytes => 10 ≤ p.length ∧ p.length ≤ 79) hbase.passphrase
  have hmax : (applyEnv w base).maxClients ≠ 0 ↔
      ∀ text n, w.var .maxClients = some text → parseU64 text = some n → n ≠ 0 :=
    override_iff (P := (· ≠ 0)) hbase.maxClients
  have hcrypto : (applyEnv w base).crypto ∈ knownCryptos ↔
      ∀ text n, w.var .crypto = some text → some text = some n → n ∈ knownCryptos :=
    override_iff (P := (· ∈ knownCryptos)) hbase.crypto
  have hlisten : (applyEnv w base).listen.isSome = true ↔ _ := isSome_override .listen base.listen
  have hserver : (applyEnv w base).server.isSome = true ↔ _ := isSome_override .server base.server
  have husers := users_applyEnv hhash hbase
  constructor
  · intro h
    refine ⟨fun p hp => hpass.mp h.passphrase p p hp rfl, hmax.mp h.maxClients,
      fun c hc => hcrypto.mp h.crypto c c hc rfl,
      fun hm => hlisten.mp (h.listen ((mode_applyEnv _).mpr hm)),
      fun hm => hserver.mp (h.server ((mode_applyEnv _).mpr hm)),
      husers.mp h.users⟩
  · intro h
    refine ⟨hpass.mpr ?_, hmax.mpr h.maxClients, hcrypto.mpr ?_,
      fun hm => hlisten.mpr (h.listen ((mode_applyEnv _).mp hm)),
        fun hm => hserver.mpr (h.server ((mode_applyEnv _).mp hm)), husers.mpr h.users⟩
    · rintro text n htext hn
      obtain rfl := Option.some.inj hn
      exact h.passphrase text htext
    · rintro text n htext hn
      obtain rfl := Option.some.inj hn
      exact h.crypto text htext

theorem valid_applyCli (args : Args) (cfg : Config) : Valid (applyCli w args cfg) ↔ Valid cfg :=
  ⟨fun h => ⟨h.passphrase, h.maxClients, h.crypto, h.listen, h.server, h.users⟩,
    fun h => ⟨h.passphrase, h.maxClients, h.crypto, h.listen, h.server, h.users⟩⟩

theorem valid_of_load {path : Bytes} (h : load w path = .ok base) : Valid base := by
  rw [load] at h
  cases hread : w.readToString path with
  | error e => simp [hread] at h
  | ok content =>
      cases hparse : w.fromStr content with
      | error e => simp [hread, hparse] at h
      | ok cfg =>
          simp only [hread, hparse] at h
          cases hv : validate cfg with
          | error e => simp [hv, Except.map] at h
          | ok u =>
              rw [hv] at h
              obtain rfl := Except.ok.inj h
              exact (validate_iff cfg).mp hv

end Overrides

/-- With a configuration file that is accepted, what the program runs on is valid exactly when the
environment's overrides are. -/
theorem running_config_valid_iff (w : World)
    (hhash : ∀ call i p h, w.hashPassword call i p = .ok h → (ascii "$argon2").isPrefixOf h = true)
    (args : Args) (path : Bytes) (hpath : args.config = some path) (base : Config)
    (hload : load w path = .ok base) :
    ∃ run, asyncMain w args = .ok run ∧ run.mode = run.cfg.mode ∧
      (validate run.cfg = .ok () ↔ OverridesValid w base) := by
  refine ⟨⟨_, applyCli w args (applyEnv w base), _⟩,
    by rw [asyncMain, hpath]; simp only [hload]; rfl, rfl, ?_⟩
  rw [validate_iff, valid_applyCli]
  exact valid_applyEnv_iff hhash (valid_of_load hload)

/-- The configuration file `{"mode":"server","passphrase":"0123456789","listen":"0.0.0.0:9000"}`. -/
def serverFile : Config where
  mode := .server
  passphrase := ascii "0123456789"
  crypto := defaultCrypto
  metricsPort := none
  logLevel := none
  listen := some (ascii "0.0.0.0:9000")
  udpMode := defaultUdpMode
  udpDatagram := true
  latencyMs := defaultLatency
  udpTtlMin := defaultUdpTtlMin
  maxbwMbps := defaultMaxbwMbps
  maxClients := defaultMaxClients
  socks5Users := []
  server := none
  streamid := none
  socks5 := none
  reconnect := none
  heartbeatSecs := defaultHeartbeat

def serverWorld (var : EnvVar → Option Bytes) : World where
  var := var
  readToString _ :=
    .ok (utf8 "\x7b\"mode\":\"server\",\"passphrase\":\"0123456789\",\"listen\":\"0.0.0.0:9000\"\x7d")
  fromStr _ := .ok serverFile
  hashPassword _ _ _ := .ok (ascii "$argon2id$v=19$m=19456,t=2,p=1")
  toLowercase text := text.map lower

def serverArgs : Args := ⟨some (ascii "server.conf"), none, none, none, none, []⟩

/-- The environment makes a client of the server, with a passphrase and two users of its own. -/
def settings : EnvVar → Option Bytes
  | .mode => some (ascii "client")
  | .server => some (ascii "10.0.0.1:9000")
  | .passphrase => some (ascii "abcdefghijkl")
  | .maxClients => some (ascii "7")
  | .socks5Users => some (ascii "alice:secret,bob:pw")
  | _ => none

theorem overridesValid_settings : OverridesValid (serverWorld settings) serverFile := by
  refine ⟨?_, ?_, ?_, fun _ => Or.inl rfl, fun _ => Or.inr rfl, ?_⟩
  · intro p hp
    obtain rfl := Option.some.inj hp
    decide +kernel
  · intro text n ht hn
    obtain rfl := Option.some.inj ht
    have hseven : parseU64 (ascii "7") = some 7 := by decide +kernel
    obtain rfl := Option.some.inj (hseven.symm.trans hn)
    decide
  · exact fun c hc => by cases hc
  · intro raw hraw _ e he u p hsplit
    obtain rfl := Option.some.inj hraw
    have hentries : entriesOf (split 0x2C (ascii "alice:secret,bob:pw")) =
        [ascii "alice:secret", ascii "bob:pw"] := by
      decide +kernel
    rw [hentries, List.mem_cons, List.mem_singleton] at he
    rcases he with rfl | rfl
    · have halice : splitOnce 0x3A (ascii "alice:secret") =
          some (ascii "alice", ascii "secret") := by decide +kernel
      obtain ⟨rfl, -⟩ := Prod.mk.inj (Option.some.inj (halice.symm.trans hsplit))
      decide +kernel
    · have hbob : splitOnce 0x3A (ascii "bob:pw") =
          some (ascii "bob", ascii "pw") := by decide +kernel
      obtain ⟨rfl, -⟩ := Prod.mk.inj (Option.some.inj (hbob.symm.trans hsplit))
      decide +kernel

theorem running_config_valid_overridden :
    ∃ run, asyncMain (serverWorld settings) serverArgs = .ok run ∧
    validate run.cfg = .ok () := by
  have hhash : ∀ call i p h, (serverWorld settings).hashPassword call i p = .ok h →
      (ascii "$argon2").isPrefixOf h = true := by
    intro call i p h hh
    obtain rfl := Except.ok.inj hh
    decide
  obtain ⟨run, hrun, -, hvalid⟩ :=
    running_config_valid_iff (serverWorld settings) hhash serverArgs (ascii "server.conf")
      rfl serverFile rfl
  exact ⟨run, hrun, hvalid.mpr overridesValid_settings⟩

/-- The environment sets a passphrase of five bytes, or makes a client of a file without a
server. -/
theorem environment_breaks_valid_file :
    load (serverWorld fun v => if v = .passphrase then some (ascii "short") else none)
      (ascii "server.conf") = .ok serverFile ∧
    (∃ run, asyncMain (serverWorld fun v => if v = .passphrase then some (ascii "short") else none)
      serverArgs = .ok run ∧
      validate run.cfg ≠ .ok ()) ∧
    ∃ run, asyncMain (serverWorld fun v => if v = .mode then some (ascii "client") else none)
      serverArgs = .ok run ∧
      run.mode = .client ∧ validate run.cfg ≠ .ok () :=
  ⟨rfl, ⟨_, rfl, fun h => by cases h⟩, ⟨_, rfl, rfl, fun h => by cases h⟩⟩

/-- Without a configuration file everything comes from the environment, and is checked. -/
theorem env_config_valid (w : World) (args : Args) (hpath : args.config = none) {run : Dispatch}
    (h : asyncMain w args = .ok run) : validate run.cfg = .ok () := by
  rw [asyncMain, hpath] at h
  cases henv : fromEnv w with
  | error e =>
      rw [henv] at h
      cases h
  | ok cfg =>
      rw [henv] at h
      obtain rfl := Except.ok.inj h
      rw [validate_iff, valid_applyCli, ← validate_iff]
      rw [fromEnv] at henv
      obtain ⟨mode, -, henv⟩ := bind_eq_ok henv
      obtain ⟨passphrase, -, henv⟩ := bind_eq_ok henv
      obtain ⟨metricsPort, -, henv⟩ := bind_eq_ok henv
      obtain ⟨logLevel, -, henv⟩ := bind_eq_ok henv
      obtain ⟨udpMode, -, henv⟩ := bind_eq_ok henv
      obtain ⟨latencyMs, -, henv⟩ := bind_eq_ok henv
      obtain ⟨udpTtlMin, -, henv⟩ := bind_eq_ok henv
      obtain ⟨maxbwMbps, -, henv⟩ := bind_eq_ok henv
      obtain ⟨maxClients, -, henv⟩ := bind_eq_ok henv
      obtain ⟨socks5Users, -, henv⟩ := bind_eq_ok henv
      obtain ⟨socks5, -, henv⟩ := bind_eq_ok henv
      obtain ⟨reconnect, -, henv⟩ := bind_eq_ok henv
      obtain ⟨heartbeatSecs, -, henv⟩ := bind_eq_ok henv
      obtain ⟨u, hvalid, henv⟩ := bind_eq_ok henv
      obtain rfl := Except.ok.inj henv
      exact hvalid

end SrtVpn.RunningConfig
