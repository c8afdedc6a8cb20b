import SrtVpn.Socks5

namespace SrtVpn.Credentials

open BigEndian Text Socks5

section Comparison

theorem foldl_xor_eq_zero (pairs : List (UInt8 × UInt8)) (diff : UInt8) :
    pairs.foldl (fun d p => d ||| (p.1 ^^^ p.2)) diff = 0 ↔ diff = 0 ∧ ∀ p ∈ pairs, p.1 = p.2 := by
  induction pairs generalizing diff with
  | nil => simp
  | cons p pairs ih =>
      rw [List.foldl_cons, ih, UInt8.or_eq_zero_iff, UInt8.xor_eq_zero_iff, List.forall_mem_cons,
        and_assoc]

theorem zip_agrees {a b : Bytes} (h : a.length = b.length) :
    (∀ p ∈ a.zip b, p.1 = p.2) ↔ a = b := by
  induction a generalizing b with
  | nil => simp [List.length_eq_zero_iff.mp h.symm]
  | cons x a ih =>
      cases b with
      | nil => simp at h
      | cons y b =>
          rw [List.zip_cons_cons, List.forall_mem_cons, ih (by simpa using h), List.cons.injEq]

theorem differences_eq_zero {a b : Bytes} (h : a.length = b.length) (diff : UInt8) :
    differences diff a b = 0 ↔ diff = 0 ∧ a = b := by
  rw [differences, foldl_xor_eq_zero, zip_agrees h]

end Comparison

section Source

variable (verifyPassword : Bytes → Bytes → Except String Bool)

/-- What a user must present: a password that fits the first entry of that name, or, without a user
table, the configured pair. -/
def Grants (cfg : Socks5Config) (username password : Bytes) : Prop :=
  (cfg.users ≠ [] ∧ ∃ u, cfg.users.find? (fun u => u.username = username) = some u ∧
    verifyPassword password u.passwordHash = .ok true) ∨
  (cfg.users = [] ∧ cfg.username = some username ∧ cfg.password = some password)

theorem validateCredential_table {cfg : Socks5Config} (hne : cfg.users ≠ [])
    (username password : Bytes) : validateCredential verifyPassword username password cfg = true ↔
      ∃ u, cfg.users.find? (fun u => u.username = username) = some u ∧
        verifyPassword password u.passwordHash = .ok true := by
  have hempty : cfg.users.isEmpty = false := by simpa using hne
  rw [validateCredential, hempty]
  cases hfind : cfg.users.find? (fun u => u.username = username) with
  | none => simp
  | some u =>
      cases hverify : verifyPassword password u.passwordHash with
      | error e => simp [hverify]
      | ok valid => simp [hverify]

theorem validateCredential_pair {cfg : Socks5Config} (husers : cfg.users = [])
    {expectedUser expectedPass : Bytes} (huser : cfg.username = some expectedUser)
    (hpass : cfg.password = some expectedPass) (username password : Bytes) :
    validateCredential verifyPassword username password cfg = true ↔
      username = expectedUser ∧ password = expectedPass := by
  rw [validateCredential, husers, huser, hpass]
  by_cases hlen : username.length ≠ expectedUser.length ∨ password.length ≠ expectedPass.length
  · have hne : ¬ (username = expectedUser ∧ password = expectedPass) := by
      rintro ⟨rfl, rfl⟩
      simp at hlen
    simp [hlen, hne]
  · obtain ⟨hu, hp⟩ := not_or.mp hlen
    have hdiff : differences (differences 0 username expectedUser) password expectedPass = 0 ↔
        username = expectedUser ∧ password = expectedPass := by
      rw [differences_eq_zero (not_not.mp hp), differences_eq_zero (not_not.mp hu)]
      simp
    simp only [List.isEmpty_nil, if_true, if_neg hlen, decide_eq_true_eq]
    exact hdiff

theorem validateCredential_open {cfg : Socks5Config} (husers : cfg.users = [])
    (hpass : cfg.password = none) (username password : Bytes) :
    validateCredential verifyPassword username password cfg = true := by
  rw [validateCredential, husers, hpass]
  cases cfg.username <;> rfl

/-- The check lets in exactly the users it should, unless a user name is configured and nothing to
hold a password against. -/
theorem credential_check_exact_iff (cfg : Socks5Config) (hauth : cfg.hasAuth = true)
    (username password : Bytes) :
    (validateCredential verifyPassword username password cfg = true ↔
      Grants verifyPassword cfg username password) ↔
      (cfg.users ≠ [] ∨ cfg.password ≠ none) := by
  by_cases husers : cfg.users = []
  · cases hpass : cfg.password with
    | none =>
        have hopen := validateCredential_open verifyPassword husers hpass username password
        simp [Grants, husers, hpass, hopen]
    | some expectedPass =>
        have huser : cfg.username.isSome = true := by
          simpa [Socks5Config.hasAuth, husers] using hauth
        obtain ⟨expectedUser, huser⟩ := Option.isSome_iff_exists.mp huser
        have hpair := validateCredential_pair verifyPassword husers huser hpass username password
        have hgrants : Grants verifyPassword cfg username password ↔
            username = expectedUser ∧ password = expectedPass := by
          simp only [Grants, husers, huser, hpass, Option.some.injEq]
          simp [eq_comm]
        rw [hpair, hgrants]
        simp
  · have htable := validateCredential_table verifyPassword husers username password
    have hgrants : Grants verifyPassword cfg username password ↔
        ∃ u, cfg.users.find? (fun u => u.username = username) = some u ∧
          verifyPassword password u.passwordHash = .ok true := by
      simp [Grants, husers]
    rw [htable, hgrants]
    simp [husers]

end Source

def oneHash (password hash : Bytes) : Except String Bool :=
  if hash = ascii "$argon2id$secret" then .ok (password = ascii "secret") else .error "解析哈希失败"

theorem credential_check_table :
    validateCredential oneHash (ascii "alice") (ascii "secret")
        ⟨none, none, [⟨ascii "alice", ascii "$argon2id$secret"⟩]⟩ = true ∧
      ¬ validateCredential oneHash (ascii "alice") (ascii "guess")
        ⟨none, none, [⟨ascii "alice", ascii "$argon2id$secret"⟩]⟩ = true := by
  have hexact := fun password => (credential_check_exact_iff oneHash
    ⟨none, none, [⟨ascii "alice", ascii "$argon2id$secret"⟩]⟩ rfl (ascii "alice") password).mpr
      (.inl (by simp))
  constructor
  · exact (hexact (ascii "secret")).mpr (.inl ⟨by simp, _, rfl, rfl⟩)
  · rintro h
    rcases (hexact (ascii "guess")).mp h with ⟨-, u, hu, hverify⟩ | ⟨hnil, -⟩
    · obtain rfl : (⟨ascii "alice", ascii "$argon2id$secret"⟩ : Socks5UserEntry) = u :=
        Option.some.inj hu
      exact absurd hverify (by simp [oneHash, ascii])
    · simp at hnil

/-- With a user name and no password the proxy asks for credentials and takes any. -/
theorem name_without_password_admits_anyone : ∃ cfg : Socks5Config, cfg.hasAuth = true ∧
    selectMethod cfg.hasAuth [methodNoAuth] none = none ∧
    validateCredential oneHash (ascii "mallory") (ascii "guess") cfg = true ∧
    ¬ Grants oneHash cfg (ascii "mallory") (ascii "guess") :=
  ⟨⟨some (ascii "alice"), none, []⟩, rfl, by decide, rfl, by simp [Grants]⟩

end SrtVpn.Credentials
