import SrtVpn.Credentials
import SrtVpn.Handshake
import SrtVpn.RunningConfig

namespace SrtVpn.StreamToken

open BigEndian Text TextParts TextFields Handshake Credentials SrtVpn.Configuration

def contains (pat text : Bytes) : Bool := (position pat text).isSome

def extractToken (streamid : Bytes) : Option Bytes :=
  (split 0x2C streamid).findSome? (stripPrefix (ascii "k="))

def constantTimeEq (a b : Bytes) : Bool :=
  if a.length ≠ b.length then false else (a.zip b).foldl (fun d p => d ||| (p.1 ^^^ p.2)) 0 = 0

section Source

variable (hmac : Bytes → Bytes → Bytes) (hex : Hex)

def deriveToken (passphrase : Bytes) : Bytes :=
  hex.encode (hmac passphrase (ascii "srtvpn-token-v1"))

def buildStreamid (passphrase resource : Bytes) : Bytes :=
  ascii "#!::r=" ++ resource ++ ascii ",m=video,k=" ++ deriveToken hmac hex passphrase

def verifyToken (streamid passphrase : Bytes) : Bool :=
  match extractToken streamid with
  | some t => constantTimeEq t (deriveToken hmac hex passphrase)
  | none => false

/-- The streamid with which `client::run` connects. -/
def clientStreamid (cfg : Config) : Bytes :=
  match cfg.streamid with
  | some sid =>
      if contains (ascii "k=") sid then sid
      else sid ++ ascii ",k=" ++ deriveToken hmac hex cfg.passphrase
  | none => buildStreamid hmac hex cfg.passphrase (ascii "live/srtvpn")

end Source

section Parts

variable {sep : UInt8} {pat text : Bytes}

theorem splitLoop_append (a b part : Bytes) :
    splitLoop sep (a ++ sep :: b) part = splitLoop sep a part ++ splitLoop sep b [] := by
  induction a generalizing part with
  | nil => simp [splitLoop]
  | cons x a ih =>
      rw [List.cons_append, splitLoop, splitLoop]
      by_cases hx : x = sep
      · rw [if_pos hx, if_pos hx, ih, List.cons_append]
      · rw [if_neg hx, if_neg hx, ih]

theorem split_append (a b : Bytes) : split sep (a ++ sep :: b) = split sep a ++ split sep b :=
  splitLoop_append a b []

theorem infix_of_mem_splitLoop {p part : Bytes} (h : p ∈ splitLoop sep text part) :
    p <:+: part ++ text := by
  induction text generalizing part with
  | nil =>
      rw [splitLoop, List.mem_singleton] at h
      exact ⟨[], [], by simp [h]⟩
  | cons x text ih =>
      rw [splitLoop] at h
      by_cases hx : x = sep
      · rw [if_pos hx, List.mem_cons] at h
        rcases h with rfl | h
        · exact (List.prefix_append _ _).isInfix
        · exact (ih h).trans ⟨part ++ [x], [], by simp⟩
      · rw [if_neg hx] at h
        simpa using ih h

theorem infix_of_mem_split {p : Bytes} (h : p ∈ split sep text) : p <:+: text := by
  simpa using infix_of_mem_splitLoop h

theorem contains_of_infix (h : pat <:+: text) : contains pat text = true := position_isSome h

theorem stripPrefix_eq_some {rest : Bytes} :
    stripPrefix pat text = some rest ↔ text = pat ++ rest := by
  constructor
  · intro h
    obtain ⟨hpre, hrest⟩ := Option.ite_none_right_eq_some.mp h
    obtain ⟨more, rfl⟩ := List.isPrefixOf_iff_prefix.mp hpre
    rw [List.drop_left] at hrest
    rw [Option.some.inj hrest]
  · rintro rfl
    exact stripPrefix_append pat rest

theorem stripPrefix_eq_none : stripPrefix pat text = none ↔ ¬ pat <+: text := by
  rw [stripPrefix, ← List.isPrefixOf_iff_prefix]
  simp

end Parts

/-- The first part that is marked as a token is this one. -/
def Carries (token streamid : Bytes) : Prop :=
  ∃ before after, split 0x2C streamid = before ++ (ascii "k=" ++ token) :: after ∧ ∀ p ∈ before,
  ¬ ascii "k=" <+: p

theorem extractToken_eq_some {token streamid : Bytes} :
    extractToken streamid = some token ↔ Carries token streamid := by
  rw [extractToken, List.findSome?_eq_some_iff]
  constructor
  · rintro ⟨before, part, after, hsplit, hpart, hbefore⟩
    rw [stripPrefix_eq_some.mp hpart] at hsplit
    exact ⟨before, after, hsplit, fun p hp => stripPrefix_eq_none.mp (hbefore p hp)⟩
  · rintro ⟨before, after, hsplit, hbefore⟩
    exact ⟨before, _, after, hsplit, stripPrefix_append _ _,
      fun p hp => stripPrefix_eq_none.mpr (hbefore p hp)⟩

theorem constantTimeEq_iff (a b : Bytes) : constantTimeEq a b = true ↔ a = b := by
  rw [constantTimeEq]
  by_cases h : a.length = b.length
  · rw [if_neg (not_not.mpr h), decide_eq_true_eq, foldl_xor_eq_zero, zip_agrees h]
    simp
  · rw [if_pos h]
    constructor
    · intro hfalse
      cases hfalse
    · rintro rfl
      exact absurd rfl h

theorem verifyToken_iff (hmac : Bytes → Bytes → Bytes) (hex : Hex) (streamid passphrase : Bytes) :
    verifyToken hmac hex streamid passphrase = true ↔
    Carries (deriveToken hmac hex passphrase) streamid := by
  rw [← extractToken_eq_some, verifyToken]
  cases extractToken streamid with
  | none => simp
  | some t => simp [constantTimeEq_iff]

theorem carries_attached (hmac : Bytes → Bytes → Bytes) (hex : Hex) (passphrase : Bytes)
    {sid : Bytes} (h : contains (ascii "k=") sid = false) :
    Carries (deriveToken hmac hex passphrase)
      (sid ++ ascii ",k=" ++ deriveToken hmac hex passphrase) := by
  have hsep : (0x2C : UInt8) ∉ ascii "k=" ++ deriveToken hmac hex passphrase :=
    (named_ascii (show _ ∧ (0x2C : UInt8) ∉ ascii "k=" by decide +kernel) (hex.encode_ascii _)).2
  refine ⟨split 0x2C sid, [], ?_, fun p hp hpre => ?_⟩
  · have hcomma : sid ++ ascii ",k=" ++ deriveToken hmac hex passphrase =
        sid ++ 0x2C :: (ascii "k=" ++ deriveToken hmac hex passphrase) := by
      simp [ascii]
    rw [hcomma, split_append, split_last hsep]
  · have hcontains := contains_of_infix (hpre.isInfix.trans (infix_of_mem_split hp))
    rw [h] at hcontains
    cases hcontains

theorem carries_buildStreamid (hmac : Bytes → Bytes → Bytes) (hex : Hex) (passphrase : Bytes) :
    Carries (deriveToken hmac hex passphrase)
      (buildStreamid hmac hex passphrase (ascii "live/srtvpn")) := by
  have hplain : contains (ascii "k=") (ascii "#!::r=" ++ ascii "live/srtvpn" ++ ascii ",m=video") =
      false := by
    decide +kernel
  have hbuild : buildStreamid hmac hex passphrase (ascii "live/srtvpn") =
      (ascii "#!::r=" ++ ascii "live/srtvpn" ++ ascii ",m=video") ++ ascii ",k=" ++
        deriveToken hmac hex passphrase := by
    have hmark : ascii ",m=video,k=" = ascii ",m=video" ++ ascii ",k=" := rfl
    rw [buildStreamid, hmark]
    simp only [List.append_assoc]
  rw [hbuild]
  exact carries_attached hmac hex passphrase hplain

/-- The server accepts the client's streamid unless a configured one contains "k=" somewhere and its
first part of that form is not the token. -/
theorem client_streamid_verified_iff (hmac : Bytes → Bytes → Bytes) (hex : Hex) (cfg : Config) :
    verifyToken hmac hex (clientStreamid hmac hex cfg) cfg.passphrase = true ↔
      ∀ sid, cfg.streamid = some sid → contains (ascii "k=") sid = true →
      Carries (deriveToken hmac hex cfg.passphrase) sid := by
  rw [verifyToken_iff, clientStreamid]
  cases hsid : cfg.streamid with
  | none => simpa using carries_buildStreamid hmac hex cfg.passphrase
  | some sid =>
      simp only [Option.some.injEq, forall_eq']
      cases hcontains : contains (ascii "k=") sid with
      | true => simp
      | false =>
          have hcarries := carries_attached hmac hex cfg.passphrase hcontains
          simpa using hcarries

/-- HMAC-SHA256 of "srtvpn-token-v1" under "test-passphrase-123". -/
def tokenTag : Bytes :=
  [0xE0, 0xB9, 0xC2, 0x6F, 0xFD, 0x91, 0x00, 0x34, 0xC8, 0xAE, 0x07, 0x1B, 0x77, 0x72, 0x7B, 0x44,
    0xE3, 0x69, 0x7B, 0xD0, 0x09, 0x25, 0x12, 0xB6, 0x4F, 0xCD, 0xD0, 0xA2, 0x6E, 0x2D, 0x08, 0xAF]

/-- "live/link=1" looks as if it had a token. -/
theorem resource_name_taken_for_token :
    ∃ cfg : Config, cfg.passphrase = ascii "test-passphrase-123" ∧
    cfg.streamid = some (ascii "live/link=1") ∧
    clientStreamid (fun _ _ => tokenTag) Hex.lower cfg = ascii "live/link=1" ∧
    verifyToken (fun _ _ => tokenTag) Hex.lower (clientStreamid (fun _ _ => tokenTag) Hex.lower cfg)
      cfg.passphrase = false :=
  ⟨{ RunningConfig.serverFile with
      passphrase := ascii "test-passphrase-123"
      streamid := some (ascii "live/link=1") },
    rfl, rfl, by decide +kernel, by decide +kernel⟩

end SrtVpn.StreamToken
