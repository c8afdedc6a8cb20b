import SrtVpn.StreamToken

namespace SrtVpn.UserLists

open BigEndian Utf8 Utf8Chars Text TextParts TextFields SrtVpn.Configuration

section Blanks

def Unpadded (text : Bytes) : Prop :=
  (∀ c ∈ (chars text).head?, isWhitespace c = false) ∧ ∀ c ∈ (chars text).getLast?,
  isWhitespace c = false

instance (text : Bytes) : Decidable (Unpadded text) := inferInstanceAs (Decidable (_ ∧ _))

theorem flatten_chars {text : Bytes} (h : Valid text) : (chars text).flatten = text := by
  obtain ⟨cs, hcs, rfl⟩ := (valid_iff text).mp h
  rw [chars_flatten hcs]

theorem chars_join {a b : Bytes} (ha : Valid a) (hb : Valid b) {x : UInt8} (hx : x < 0x80) :
    chars (a ++ x :: b) = chars a ++ [x] :: chars b := by
  obtain ⟨as, has, rfl⟩ := (valid_iff a).mp ha
  obtain ⟨bs, hbs, rfl⟩ := (valid_iff b).mp hb
  have hall : ∀ c ∈ as ++ [x] :: bs, IsChar c := by
    intro c hc
    rcases List.mem_append.mp hc with hc | hc
    · exact has c hc
    · rcases List.mem_cons.mp hc with rfl | hc
      · exact isChar_ascii hx
      · exact hbs c hc
  have hflat : as.flatten ++ x :: bs.flatten = (as ++ [x] :: bs).flatten := by simp
  rw [hflat, chars_flatten hall, chars_flatten has, chars_flatten hbs]

theorem dropWhile_unpadded {cs : List Bytes} (h : ∀ c ∈ cs.head?, isWhitespace c = false) :
    cs.dropWhile isWhitespace = cs := by
  cases cs with
  | nil => rfl
  | cons c cs =>
      rw [List.dropWhile_cons_of_neg]
      simpa using h c rfl

theorem trim_unpadded {text : Bytes} (hvalid : Valid text) (h : Unpadded text) :
    trim text = text := by
  have hlast : ∀ c ∈ (chars text).reverse.head?, isWhitespace c = false := by
    rw [List.head?_reverse]
    exact h.2
  rw [trim, dropWhile_unpadded h.1, dropWhile_unpadded hlast, List.reverse_reverse,
    flatten_chars hvalid]

end Blanks

section Specification

structure Plain (pair : Bytes × Bytes) : Prop where
  valid : Valid pair.1 ∧ Valid pair.2
  comma : (0x2C : UInt8) ∉ pair.1 ∧ (0x2C : UInt8) ∉ pair.2
  colon : (0x3A : UInt8) ∉ pair.1
  unpadded : Unpadded pair.1 ∧ Unpadded pair.2

def entry (pair : Bytes × Bytes) : Bytes := pair.1 ++ 0x3A :: pair.2

/-- `user1:pass1,user2:pass2,...` -/
def spec (pairs : List (Bytes × Bytes)) : Bytes := [0x2C].intercalate (pairs.map entry)

variable {pair : Bytes × Bytes} {pairs : List (Bytes × Bytes)}

theorem spec_cons (hne : pairs ≠ []) : spec (pair :: pairs) = entry pair ++ 0x2C :: spec pairs := by
  cases pairs with
  | nil => exact absurd rfl hne
  | cons q pairs => simp [spec, List.intercalate_cons_cons]

theorem spec_singleton : spec [pair] = entry pair := by simp [spec]

theorem comma_not_mem_entry (h : Plain pair) : (0x2C : UInt8) ∉ entry pair := by
  rw [entry, List.mem_append, List.mem_cons]
  rintro (hu | hcolon | hp)
  · exact h.comma.1 hu
  · exact absurd hcolon (by decide)
  · exact h.comma.2 hp

theorem split_spec (hne : pairs ≠ []) (h : ∀ pair ∈ pairs, Plain pair) :
    split 0x2C (spec pairs) = pairs.map entry := by
  induction pairs with
  | nil => exact absurd rfl hne
  | cons pair pairs ih =>
      obtain ⟨hpair, hpairs⟩ := List.forall_mem_cons.mp h
      cases pairs with
      | nil =>
          rw [spec_singleton]
          exact split_last (comma_not_mem_entry hpair)
      | cons q pairs =>
          rw [spec_cons (by simp), split_field (comma_not_mem_entry hpair)]
          exact congrArg (entry pair :: ·) (ih (by simp) hpairs)

theorem trim_entry (h : Plain pair) : trim (entry pair) = entry pair := by
  have hchars := chars_join h.valid.1 h.valid.2 (show (0x3A : UInt8) < 0x80 by decide)
  have hvalid : Valid (entry pair) :=
    valid_append h.valid.1 (valid_append (a := [0x3A]) rfl h.valid.2)
  have hcolon : isWhitespace [0x3A] = false := by decide
  refine trim_unpadded hvalid ⟨?_, ?_⟩
  · rw [entry, hchars]
    cases hfirst : chars pair.1 with
    | nil => simpa using hcolon
    | cons c cs =>
        have hc := h.unpadded.1.1 c (by simp [hfirst])
        simpa using hc
  · rw [entry, hchars]
    cases hlast : (chars pair.2).getLast? with
    | none =>
        rw [List.getLast?_eq_none_iff.mp hlast]
        simpa using hcolon
    | some c =>
        have hc := h.unpadded.2.2 c hlast
        intro x hx
        rw [List.getLast?_append, List.getLast?_cons, hlast] at hx
        simp at hx
        exact hx ▸ hc

end Specification

section Tables

variable {w : World} (verifyPassword : Bytes → Bytes → Except String Bool)

def Admits (pair : Bytes × Bytes) (u : Socks5.Socks5UserEntry) : Prop :=
  u.username = pair.1 ∧ ∀ q, verifyPassword q u.passwordHash = .ok (q = pair.2)

def usersOf : Option Socks5Config → List Socks5.Socks5UserEntry
  | some s5 => s5.users
  | none => []

@[simp] theorem usersOf_withListen (listen : Option Bytes) (s5 : Option Socks5Config) :
    usersOf (withListen listen s5) = usersOf s5 := by
  cases listen <;> cases s5 <;> rfl

@[simp] theorem usersOf_withCredentials (user pass : Option Bytes) (s5 : Option Socks5Config) :
    usersOf (withCredentials user pass s5) = usersOf s5 := by
  cases user <;> cases pass <;> cases s5 <;> rfl

@[simp] theorem usersOf_withUsers (entries : List Socks5.Socks5UserEntry)
    (s5 : Option Socks5Config) : usersOf (withUsers entries s5) = entries := by
  cases s5 <;> rfl

@[simp] theorem usersOf_addUser (u : Socks5.Socks5UserEntry) (s5 : Option Socks5Config) :
    usersOf (addUser u s5) = usersOf s5 ++ [u] := by
  cases s5 <;> rfl

def userTable (cfg : Config) : List Socks5.Socks5UserEntry := usersOf cfg.socks5

def SameUsers (a b : List Socks5.Socks5UserEntry) : Prop :=
  List.Forall₂ (fun x y => x.username = y.username ∧ ∀ q,
    verifyPassword q x.passwordHash = verifyPassword q y.passwordHash) a b

/-- Hashing succeeds, and a hash is verified by the password it was made from and by no other. -/
def Consistent (w : World) : Prop :=
  ∀ call i p, ∃ hash, w.hashPassword call i p = .ok hash ∧ ∀ q, verifyPassword q hash = .ok (q = p)

variable {verifyPassword}

theorem readUsers_spec (hhash : Consistent verifyPassword w) (call i : Nat)
    {pairs : List (Bytes × Bytes)} (h : ∀ pair ∈ pairs, Plain pair) :
    ∃ users, readUsers w call i (pairs.map entry) = .ok users ∧
      List.Forall₂ (Admits verifyPassword) pairs (toEntries users) := by
  induction pairs generalizing i with
  | nil => exact ⟨[], rfl, .nil⟩
  | cons pair pairs ih =>
      obtain ⟨hpair, hpairs⟩ := List.forall_mem_cons.mp h
      obtain ⟨users, hread, hadmits⟩ := ih (i + 1) hpairs
      obtain ⟨hash, hok, hverify⟩ := hhash call i pair.2
      have hne : entry pair ≠ [] := by simp [entry]
      have hsplit : splitOnce 0x3A (entry pair) = some (pair.1, pair.2) :=
        splitOnce_field hpair.colon pair.2
      refine ⟨⟨pair.1, hash⟩ :: users, ?_, .cons ⟨rfl, hverify⟩ hadmits⟩
      rw [List.map_cons, readUsers, trim_entry hpair]
      simp only [if_neg hne, hsplit, hok, hread, trim_unpadded hpair.valid.1 hpair.unpadded.1]

theorem envUsers_spec (hhash : Consistent verifyPassword w) (call : Nat)
    {pairs : List (Bytes × Bytes)} (hne : pairs ≠ []) (h : ∀ pair ∈ pairs, Plain pair)
    (hvar : w.var .socks5Users = some (spec pairs)) :
    ∃ users, envUsers w call = some users ∧
    List.Forall₂ (Admits verifyPassword) pairs (toEntries users) := by
  obtain ⟨users, hread, hadmits⟩ := readUsers_spec hhash call 0 h
  have hsome : users.isEmpty = false := by
    cases users with
    | nil => exact absurd (List.forall₂_nil_right_iff.mp hadmits) hne
    | cons u users => rfl
  refine ⟨users, ?_, hadmits⟩
  rw [envUsers, parseEnvSocks5Users, hvar]
  simp only [split_spec hne h, hread, hsome]
  rfl

theorem userTable_applyEnv (hhash : Consistent verifyPassword w) {pairs : List (Bytes × Bytes)}
    (hne : pairs ≠ []) (h : ∀ pair ∈ pairs, Plain pair)
    (hvar : w.var .socks5Users = some (spec pairs)) (cfg : Config) :
    List.Forall₂ (Admits verifyPassword) pairs (userTable (applyEnv w cfg)) := by
  obtain ⟨users, henv, hadmits⟩ := envUsers_spec hhash 1 hne h hvar
  have htable : userTable (applyEnv w cfg) = toEntries users := by
    rw [userTable, applyEnv]
    simp only [henv, usersOf_withUsers]
  rw [htable]
  exact hadmits

def following (pairs : List (Bytes × Bytes)) : Bytes :=
  if pairs = [] then [] else 0x2C :: spec pairs

theorem spec_following (pair : Bytes × Bytes) (pairs : List (Bytes × Bytes)) :
    spec (pair :: pairs) = pair.1 ++ 0x3A :: (pair.2 ++ following pairs) := by
  rw [following]
  by_cases hne : pairs = []
  · rw [if_pos hne, hne, spec_singleton, entry, List.append_nil]
  · rw [if_neg hne, spec_cons hne, entry]
    simp

theorem userTable_applyCli (hhash : Consistent verifyPassword w) {pair : Bytes × Bytes}
    {pairs : List (Bytes × Bytes)} (hcolon : (0x3A : UInt8) ∉ pair.1) {args : Args}
    (hargs : args.socks5Users = [spec (pair :: pairs)]) {cfg : Config}
    (hempty : userTable cfg = []) :
    List.Forall₂ (Admits verifyPassword) [(pair.1, pair.2 ++ following pairs)]
      (userTable (applyCli w args cfg)) := by
  obtain ⟨hash, hok, hverify⟩ := hhash 2 0 (pair.2 ++ following pairs)
  have htable : userTable (applyCli w args cfg) = [⟨pair.1, hash⟩] := by
    have husers : usersOf cfg.socks5 = [] := hempty
    rw [userTable, applyCli, hargs, spec_following]
    simp only [addUsers, splitOnce_field hcolon, hok, usersOf_addUser, usersOf_withCredentials,
      usersOf_withListen, husers, List.nil_append]
  rw [htable]
  exact .cons ⟨rfl, hverify⟩ .nil

theorem sameUsers_of_admits {pairs : List (Bytes × Bytes)} {a b : List Socks5.Socks5UserEntry}
    (ha : List.Forall₂ (Admits verifyPassword) pairs a)
    (hb : List.Forall₂ (Admits verifyPassword) pairs b) :
    SameUsers verifyPassword a b := by
  induction ha generalizing b with
  | nil =>
      cases hb
      exact .nil
  | cons hx _ ih =>
      cases hb with
      | cons hy hb =>
          exact .cons ⟨hx.1.trans hy.1.symm, fun q => (hx.2 q).trans (hy.2 q).symm⟩ (ih hb)

/-- The two ways of giving a list agree on it exactly if it names one user. -/
theorem user_lists_agree_iff (hhash : Consistent verifyPassword w) {pairs : List (Bytes × Bytes)}
    (hne : pairs ≠ []) (h : ∀ pair ∈ pairs, Plain pair)
    (hvar : w.var .socks5Users = some (spec pairs)) {args : Args}
    (hargs : args.socks5Users = [spec pairs]) {cfg : Config} (hempty : userTable cfg = []) :
    SameUsers verifyPassword (userTable (applyCli w args cfg)) (userTable (applyEnv w cfg)) ↔
    pairs.length = 1 := by
  have henv := userTable_applyEnv hhash hne h hvar cfg
  cases pairs with
  | nil => exact absurd rfl hne
  | cons pair pairs =>
      have hcli := userTable_applyCli hhash (h pair List.mem_cons_self).colon hargs hempty
      constructor
      · intro hsame
        rw [henv.length_eq, ← hsame.length_eq, ← hcli.length_eq]
        rfl
      · intro hone
        obtain rfl : pairs = [] := by simpa using hone
        have hrest : pair.2 ++ following [] = pair.2 := by simp [following]
        rw [hrest] at hcli
        exact sameUsers_of_admits hcli henv

end Tables

section Sample

def listWorld (list : Bytes) : World where
  var v := if v = .socks5Users then some list else none
  readToString _ := .error []
  fromStr _ := .error []
  hashPassword _ _ p := .ok (ascii "$argon2id$" ++ p)
  toLowercase text := text

def verifySample (q hash : Bytes) : Except String Bool := .ok (hash = ascii "$argon2id$" ++ q)

theorem consistent_listWorld (list : Bytes) : Consistent verifySample (listWorld list) := by
  refine fun _ _ p => ⟨_, rfl, fun q => ?_⟩
  simp [verifySample, eq_comm]

def listArgs (list : Bytes) : Args := ⟨none, none, none, none, none, [list]⟩

theorem plain_alice : Plain (ascii "alice", ascii "secret") where
  valid := by decide
  comma := by decide
  colon := by decide
  unpadded := by decide +kernel

theorem user_lists_agree_alice :
    SameUsers verifySample
      (userTable (applyCli (listWorld (spec [(ascii "alice", ascii "secret")]))
        (listArgs (spec [(ascii "alice", ascii "secret")])) RunningConfig.serverFile))
      (userTable (applyEnv (listWorld (spec [(ascii "alice", ascii "secret")]))
        RunningConfig.serverFile)) :=
  (user_lists_agree_iff (consistent_listWorld _) (by simp) (by simpa using plain_alice) rfl
    rfl rfl).mpr rfl

/-- The command line makes one user of two. -/
theorem second_user_read_as_password :
    spec [(ascii "alice", ascii "secret"), (ascii "bob", ascii "hunter2")] =
      ascii "alice:secret,bob:hunter2" ∧
    (userTable (applyCli (listWorld (ascii "alice:secret,bob:hunter2"))
      (listArgs (ascii "alice:secret,bob:hunter2")) RunningConfig.serverFile)).map
        (fun u => (u.username, u.passwordHash)) =
      [(ascii "alice", ascii "$argon2id$" ++ ascii "secret,bob:hunter2")] ∧
    (userTable (applyEnv (listWorld (ascii "alice:secret,bob:hunter2"))
      RunningConfig.serverFile)).map (fun u => (u.username, u.passwordHash)) =
      [(ascii "alice", ascii "$argon2id$" ++ ascii "secret"),
        (ascii "bob", ascii "$argon2id$" ++ ascii "hunter2")] ∧
    ¬ SameUsers verifySample
      (userTable (applyCli (listWorld (ascii "alice:secret,bob:hunter2"))
        (listArgs (ascii "alice:secret,bob:hunter2")) RunningConfig.serverFile))
      (userTable (applyEnv (listWorld (ascii "alice:secret,bob:hunter2"))
        RunningConfig.serverFile)) := by
  have hcli : (userTable (applyCli (listWorld (ascii "alice:secret,bob:hunter2"))
      (listArgs (ascii "alice:secret,bob:hunter2")) RunningConfig.serverFile)).map
        (fun u => (u.username, u.passwordHash)) =
      [(ascii "alice", ascii "$argon2id$" ++ ascii "secret,bob:hunter2")] := by decide +kernel
  have henv : (userTable
      (applyEnv (listWorld (ascii "alice:secret,bob:hunter2")) RunningConfig.serverFile)).map
      (fun u => (u.username, u.passwordHash)) =
      [(ascii "alice", ascii "$argon2id$" ++ ascii "secret"),
        (ascii "bob", ascii "$argon2id$" ++ ascii "hunter2")] := by
    decide +kernel
  refine ⟨by decide +kernel, hcli, henv, fun hsame => ?_⟩
  have hlen := hsame.length_eq
  rw [← List.length_map, hcli, ← List.length_map
    (f := fun u : Socks5.Socks5UserEntry => (u.username, u.passwordHash)), henv] at hlen
  cases hlen

end Sample

end SrtVpn.UserLists
