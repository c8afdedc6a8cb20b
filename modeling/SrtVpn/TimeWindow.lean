import SrtVpn.Credentials
import SrtVpn.Handshake

namespace SrtVpn.TimeWindow

open BigEndian Text TextFields Handshake Credentials

section Clock

def distance (now t : Int64) : Nat := (now.toInt - t.toInt).natAbs

/-- Where the difference leaves the range of an `i64`: it wraps to a few seconds, or to the one
value whose absolute value is negative. -/
def Wraps (now t : Int64) : Prop := distance now t = 2 ^ 63 ∨ 2 ^ 64 - 90 ≤ distance now t

theorem toInt_abs (d : Int64) :
    d.abs.toInt = if d.toInt = -2 ^ 63 then -2 ^ 63 else (d.toInt.natAbs : Int) := by
  change d.toBitVec.abs.toInt =
    if d.toBitVec.toInt = -2 ^ 63 then -2 ^ 63 else (d.toBitVec.toInt.natAbs : Int)
  have hmin : d.toBitVec = BitVec.intMin 64 ↔ d.toBitVec.toInt = -2 ^ 63 := by
    rw [← BitVec.toInt_inj, BitVec.toInt_intMin]
    rfl
  by_cases h : d.toBitVec = BitVec.intMin 64
  · rw [if_pos (hmin.mp h), h]
    rfl
  · rw [if_neg (fun hint => h (hmin.mpr hint)), BitVec.toInt_abs_eq_natAbs, if_neg h]

/-- The window as it is computed, against the distance. -/
theorem window_iff (now t : Int64) :
    (now - t).abs ≤ authTimeWindowSecs ↔ distance now t ≤ 90 ∨ Wraps now t := by
  have hwindow : authTimeWindowSecs.toInt = 90 := rfl
  have hnow := now.toInt_lt
  have hnow' := now.le_toInt
  have ht := t.toInt_lt
  have ht' := t.le_toInt
  rw [Int64.le_iff_toInt_le, toInt_abs, Int64.toInt_sub, hwindow, Wraps, distance, Int.bmod_def]
  split <;> split <;> omega

theorem near_not_wraps {now t : Int64} (h : distance now t ≤ 90) : ¬ Wraps now t := by
  rw [Wraps]
  omega

end Clock

section Source

variable (hmac : Bytes → Bytes → Bytes) (hex : Hex) (passphrase nonce : Bytes)
  (serverTs clientTs : Int64) (response : Bytes)

/-- The response is the one for the time `t`, and `t` is one of the two the server knows. -/
def Answers (t : Int64) : Prop :=
  (t = serverTs ∨ t = clientTs) ∧ response = computeResponse hmac hex passphrase nonce t

theorem verifyResponse_eq (now t : Int64) :
    verifyResponse hmac hex now passphrase nonce t response =
    if authTimeWindowSecs < (now - t).abs then .ok false
    else if (computeResponse hmac hex passphrase nonce t).length ≠ response.length then .ok false
    else .ok (((computeResponse hmac hex passphrase nonce t).zip response).foldl
      (fun d p => d ||| (p.1 ^^^ p.2)) 0 = 0) := rfl

theorem verifyResponse_iff (now t : Int64) :
    verifyResponse hmac hex now passphrase nonce t response = .ok true ↔
    (now - t).abs ≤ authTimeWindowSecs ∧
    response = computeResponse hmac hex passphrase nonce t := by
  rw [verifyResponse_eq]
  by_cases hwindow : authTimeWindowSecs < (now - t).abs
  · simp [hwindow, Int64.not_le.mpr hwindow]
  · by_cases hlen : (computeResponse hmac hex passphrase nonce t).length = response.length
    · have hfold : ((computeResponse hmac hex passphrase nonce t).zip response).foldl
          (fun d p => d ||| (p.1 ^^^ p.2)) 0 = 0 ↔
          response = computeResponse hmac hex passphrase nonce t := by
        have hpairs :=
          foldl_xor_eq_zero ((computeResponse hmac hex passphrase nonce t).zip response) 0
        rw [zip_agrees hlen] at hpairs
        exact hpairs.trans (by simp [eq_comm])
      simp [if_neg hwindow, hlen, hfold, Int64.not_lt.mp hwindow]
    · have hne : response ≠ computeResponse hmac hex passphrase nonce t := by
        rintro rfl
        exact hlen rfl
      simp [hlen, hne]

theorem accepted_iff
    (hinj : ∀ t t', computeResponse hmac hex passphrase nonce t =
      computeResponse hmac hex passphrase nonce t' → t = t')
    (now : Int64) :
    (∃ delta, verifyResponseDual hmac hex now now passphrase nonce serverTs clientTs response =
      .ok (true, delta)) ↔
      ∃ t, Answers hmac hex passphrase nonce serverTs clientTs response t ∧
      (now - t).abs ≤ authTimeWindowSecs := by
  rw [verifyResponseDual]
  by_cases hserver : computeResponse hmac hex passphrase nonce serverTs = response
  · -- the client's time can then only be the server's
    have hunique : ∀ t, Answers hmac hex passphrase nonce serverTs clientTs response t ↔
        t = serverTs := by
      intro t
      constructor
      · rintro ⟨-, ht⟩
        exact hinj t serverTs (ht.symm.trans hserver.symm)
      · rintro rfl
        exact ⟨.inl rfl, hserver.symm⟩
    simp only [if_pos hserver, hunique, exists_eq_left]
    by_cases hwindow : (now - serverTs).abs ≤ authTimeWindowSecs
    · simp [hwindow]
    · simp [hwindow]
  · have honly : ∀ t, Answers hmac hex passphrase nonce serverTs clientTs response t ↔
        t = clientTs ∧ response = computeResponse hmac hex passphrase nonce clientTs := by
      intro t
      constructor
      · rintro ⟨rfl | rfl, ht⟩
        · exact absurd ht.symm hserver
        · exact ⟨rfl, ht⟩
      · rintro ⟨rfl, ht⟩
        exact ⟨.inr rfl, ht⟩
    have hclient : (∃ t, Answers hmac hex passphrase nonce serverTs clientTs response t ∧
        (now - t).abs ≤ authTimeWindowSecs) ↔
        verifyResponse hmac hex now passphrase nonce clientTs response = .ok true := by
      rw [verifyResponse_iff]
      constructor
      · rintro ⟨t, ht, hwindow⟩
        obtain ⟨rfl, hresponse⟩ := (honly t).mp ht
        exact ⟨hwindow, hresponse⟩
      · rintro ⟨hwindow, hresponse⟩
        exact ⟨clientTs, (honly clientTs).mpr ⟨rfl, hresponse⟩, hwindow⟩
    rw [hclient, if_neg hserver]
    cases verifyResponse hmac hex now passphrase nonce clientTs response with
    | error e => simp [bind, Except.bind]
    | ok valid => cases valid <;> simp [bind, Except.bind, pure, Except.pure]

/-- The check accepts exactly the fresh and correct answers, unless the answer is for a time so far
away that the difference to it wraps around. -/
theorem dual_verification_exact_iff
    (hinj : ∀ t t', computeResponse hmac hex passphrase nonce t =
      computeResponse hmac hex passphrase nonce t' → t = t')
    (now : Int64) :
    ((∃ delta, verifyResponseDual hmac hex now now passphrase nonce serverTs clientTs response =
      .ok (true, delta)) ↔
      ∃ t, Answers hmac hex passphrase nonce serverTs clientTs response t ∧ distance now t ≤ 90) ↔
      ∀ t, Answers hmac hex passphrase nonce serverTs clientTs response t → ¬ Wraps now t := by
  rw [accepted_iff hmac hex passphrase nonce serverTs clientTs response hinj now]
  simp only [window_iff]
  constructor
  · intro hexact t ht hwraps
    obtain ⟨t', ht', hnear⟩ := hexact.mp ⟨t, ht, .inr hwraps⟩
    have hsame : t' = t := hinj t' t (ht'.2.symm.trans ht.2)
    exact near_not_wraps hnear (hsame ▸ hwraps)
  · intro hsafe
    constructor
    · rintro ⟨t, ht, hnear | hwraps⟩
      · exact ⟨t, ht, hnear⟩
      · exact absurd hwraps (hsafe t ht)
    · rintro ⟨t, ht, hnear⟩
      exact ⟨t, ht, .inl hnear⟩

end Source

section Sample

def drawn : Bytes := [0, 1, 2, 3, 4, 5, 6, 7, 8, 9, 10, 11, 12, 13, 14, 15]

/-- HMAC-SHA256 of the bytes drawn and the time 2^63 seconds before 1700000002 under
"test-passphrase-123". -/
def distantTag : Bytes :=
  [0xD4, 0xAB, 0x11, 0xAA, 0xF1, 0x16, 0x7A, 0x5B, 0x62, 0x5D, 0xAE, 0x4C, 0x4D, 0x79, 0x55, 0xDE,
    0x1F, 0xC1, 0xB0, 0x9E, 0x5F, 0x4C, 0x99, 0x4C, 0x9A, 0x64, 0x05, 0xAC, 0x77, 0xB1, 0xA2, 0xE9]

def sampleHmac (_ message : Bytes) : Bytes :=
  if message = drawn ++ toLeBytes 1700000000 then sampleTag
  else if message = drawn ++ toLeBytes (-9223372035154775806) then distantTag
  else message

theorem sampleHmac_injective {key a b : Bytes} (ha : a.length = 24) (hb : b.length = 24)
    (h : sampleHmac key a = sampleHmac key b) : a = b := by
  have hlen : ∀ m : Bytes, m.length = 24 → m ≠ sampleTag ∧ m ≠ distantTag := by
    intro m hm
    constructor
    · rintro rfl
      cases hm
    · rintro rfl
      cases hm
  have htags : sampleTag ≠ distantTag := by decide
  rw [sampleHmac, sampleHmac] at h
  split at h
  next hfresh =>
    split at h
    next hfresh' => rw [hfresh, hfresh']
    next =>
      split at h
      next => exact absurd h htags
      next => exact absurd h.symm (hlen b hb).1
  next =>
    split at h
    next hdistant =>
      split at h
      next => exact absurd h.symm htags
      next =>
        split at h
        next hdistant' => rw [hdistant, hdistant']
        next => exact absurd h.symm (hlen b hb).2
    next =>
      split at h
      next => exact absurd h (hlen a ha).1
      next =>
        split at h
        next => exact absurd h (hlen a ha).2
        next => exact h

theorem sampleResponse_injective {passphrase : Bytes} (t t' : Int64)
    (h : computeResponse sampleHmac Hex.lower passphrase (generateNonce Hex.lower drawn) t =
      computeResponse sampleHmac Hex.lower passphrase (generateNonce Hex.lower drawn) t') :
    t = t' := by
  rw [computeResponse, computeResponse, generateNonce, Hex.lower.decode_encode,
    Option.getD_some] at h
  have htag := congrArg Hex.lower.decode h
  rw [Hex.lower.decode_encode, Hex.lower.decode_encode] at htag
  have hmessage := sampleHmac_injective (by simp [drawn]) (by simp [drawn]) (Option.some.inj htag)
  have hbytes := List.append_cancel_left hmessage
  rw [← fromLeBytes_toLeBytes t, hbytes, fromLeBytes_toLeBytes]

theorem dual_verification_exact_fresh :
    (∃ delta, verifyResponseDual sampleHmac Hex.lower 1700000002 1700000002
      (ascii "test-passphrase-123") (generateNonce Hex.lower drawn)
      1700000000 1700000000 (Hex.lower.encode sampleTag) = .ok (true, delta)) ↔
    ∃ t, Answers sampleHmac Hex.lower (ascii "test-passphrase-123") (generateNonce Hex.lower drawn)
      1700000000 1700000000 (Hex.lower.encode sampleTag) t ∧ distance 1700000002 t ≤ 90 := by
  refine (dual_verification_exact_iff sampleHmac Hex.lower _ _ _ _ _ sampleResponse_injective _).mpr
    ?_
  rintro t ⟨rfl | rfl, -⟩
  · exact near_not_wraps (by decide)
  · exact near_not_wraps (by decide)

/-- A time 2^63 seconds away is as good as now. -/
theorem distant_timestamp_accepted :
    verifyResponseDual sampleHmac Hex.lower 1700000002 1700000002 (ascii "test-passphrase-123")
      (generateNonce Hex.lower drawn) 1700000000 (-9223372035154775806)
        (Hex.lower.encode distantTag) = .ok (true, -9223372036854775808) ∧
    ¬ ∃ t, Answers sampleHmac Hex.lower (ascii "test-passphrase-123")
      (generateNonce Hex.lower drawn) 1700000000 (-9223372035154775806)
      (Hex.lower.encode distantTag) t ∧ distance 1700000002 t ≤ 90 := by
  have hserver : computeResponse sampleHmac Hex.lower (ascii "test-passphrase-123")
      (generateNonce Hex.lower drawn) 1700000000 ≠
      Hex.lower.encode distantTag := by decide +kernel
  constructor
  · decide +kernel
  · rintro ⟨t, ⟨rfl | rfl, ht⟩, hnear⟩
    · exact hserver ht.symm
    · exact absurd hnear (by decide)

end Sample

end SrtVpn.TimeWindow
