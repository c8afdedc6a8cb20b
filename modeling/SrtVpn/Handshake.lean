import SrtVpn.TextFields

namespace SrtVpn.Handshake

open BigEndian Utf8 Utf8Chars Text TextParts TextFields

def authTimeWindowSecs : Int64 := 90

/-- `generate_nonce` on the bytes that were drawn. -/
def generateNonce (hex : Hex) (buf : Bytes) : Bytes := hex.encode buf

section Source

-- HMAC-SHA256 is a function of the key and the message
variable (hmac : Bytes → Bytes → Bytes) (hex : Hex)

def computeResponse (passphrase nonce : Bytes) (timestamp : Int64) : Bytes :=
  hex.encode (hmac passphrase ((hex.decode nonce).getD nonce ++ toLeBytes timestamp))

def verifyResponse (now : Int64) (passphrase nonce : Bytes) (timestamp : Int64) (response : Bytes) :
    Except String Bool :=
  if authTimeWindowSecs < (now - timestamp).abs then .ok false
  else
    let expected := computeResponse hmac hex passphrase nonce timestamp
    if expected.length ≠ response.length then .ok false
    else .ok ((expected.zip response).foldl (fun diff (x, y) => diff ||| (x ^^^ y)) 0 = 0)

/-- The clock is read once here and once more in `verifyResponse`. -/
def verifyResponseDual (now now' : Int64) (passphrase nonce : Bytes) (serverTs clientTs : Int64)
    (response : Bytes) : Except String (Bool × Int64) :=
  if computeResponse hmac hex passphrase nonce serverTs = response then
    if (now - serverTs).abs ≤ authTimeWindowSecs then .ok (true, now - serverTs)
    else .ok (false, now - serverTs)
  else do
    let ok ← verifyResponse hmac hex now' passphrase nonce clientTs response
    return (ok, now - clientTs)

def challengePayload (nonce : Bytes) (serverTs : Int64) : Bytes :=
  ascii "nonce=" ++ nonce ++ ascii ",ts=" ++ formatI64 serverTs

structure ChallengeFields where
  nonce : Option Bytes
  serverTs : Option Int64

def ChallengeFields.read (fields : ChallengeFields) (part : Bytes) : ChallengeFields :=
  match stripPrefix (ascii "nonce=") part with
  | some v => if v ≠ [] then { fields with nonce := some v } else fields
  | none =>
      match stripPrefix (ascii "ts=") part with
      | some v => { fields with serverTs := parseI64 v }
      | none => fields

/-- The timestamp and the HMAC the client puts into its answer; a server that sent no timestamp gets
the client's own. -/
def answer (clock : Int64) (passphrase payload : Bytes) : Option (Int64 × Bytes) :=
  let fields := (split 0x2C (fromUtf8Lossy payload)).foldl ChallengeFields.read ⟨none, none⟩
  fields.nonce.map fun nonce =>
    let timestamp := fields.serverTs.getD clock
    (timestamp, computeResponse hmac hex passphrase nonce timestamp)

def responsePayload (timestamp : Int64) (resp : Bytes) : Bytes :=
  ascii "timestamp=" ++ formatI64 timestamp ++ ascii ",resp=" ++ resp

/-- The payload of the Response, if one is sent. -/
def handleChallenge (clock : Int64) (passphrase payload : Bytes) : Option Bytes :=
  (answer hmac hex clock passphrase payload).map fun (timestamp, resp) =>
    responsePayload timestamp resp

structure ResponseFields where
  tsVal : Option Int64
  respVal : Option Bytes

def ResponseFields.read (fields : ResponseFields) (part : Bytes) : ResponseFields :=
  match stripPrefix (ascii "timestamp=") part with
  | some v => { fields with tsVal := parseI64 v }
  | none =>
      match stripPrefix (ascii "resp=") part with
      | some v => { fields with respVal := some v }
      | none => fields

def parseResponse (payload : Bytes) : Except String (Int64 × Bytes) :=
  let fields := (split 0x2C (fromUtf8Lossy payload)).foldl ResponseFields.read ⟨none, none⟩
  match fields.tsVal, fields.respVal with
  | some ts, some resp => .ok (ts, resp)
  | _, _ => .error "RESPONSE 格式无效"

/-- What `authenticate` does with the payload of the Response: the clock's deviation, or why the
connection is refused. -/
def acceptResponse (now now' : Int64) (passphrase nonce : Bytes) (serverTs : Int64)
    (payload : Bytes) : Except String Int64 := do
  let (ts, resp) ← parseResponse payload
  let (ok, clockDelta) ←
      (verifyResponseDual hmac hex now now' passphrase nonce serverTs ts resp).mapError
    ("校验 RESPONSE 失败: " ++ ·)
  if ok then return clockDelta
  else if authTimeWindowSecs < clockDelta.abs then
    throw ("挑战-应答校验失败：客户端时钟" ++ (if 0 < clockDelta then "慢" else "快") ++ " " ++
      toString clockDelta.abs ++ "s（超出 ±" ++ toString authTimeWindowSecs ++
      "s 窗口），请校准系统时间（NTP）或升级客户端到 v0.2.2+")
  else throw "挑战-应答校验失败（HMAC 不匹配，passphrase 两端不一致？）"

end Source

section Payloads

variable (hex : Hex)

theorem formatI64_ascii (n : Int64) :
    (∀ x ∈ formatI64 n, x < 0x80) ∧ (0x2C : UInt8) ∉ formatI64 n := by
  have hbyte : ∀ d < 10, UInt8.ofNat (0x30 + d) < 0x80 ∧ UInt8.ofNat (0x30 + d) ≠ 0x2C := by decide
  constructor
  · intro x hx
    rcases mem_formatI64 hx with rfl | ⟨d, hd, rfl⟩
    · decide
    · exact (hbyte d hd).1
  · intro hx
    rcases mem_formatI64 hx with h | ⟨d, hd, h⟩
    · simp at h
    · exact (hbyte d hd).2 h.symm

theorem split_payload {a b : Bytes} (ha : ∀ x ∈ a, x < 0x80) (hb : ∀ x ∈ b, x < 0x80)
    (hsep : (0x2C : UInt8) ∉ a) (hsep' : (0x2C : UInt8) ∉ b) :
    split 0x2C (fromUtf8Lossy (a ++ 0x2C :: b)) = [a, b] := by
  have hascii : ∀ x ∈ a ++ 0x2C :: b, x < 0x80 := by
    intro x hx
    rcases List.mem_append.mp hx with hx | hx
    · exact ha x hx
    · rcases List.mem_cons.mp hx with rfl | hx
      · decide
      · exact hb x hx
  rw [fromUtf8Lossy_of_valid (valid_of_ascii hascii), split_field hsep, split_last hsep']

theorem named_ascii {name value : Bytes} (hname : (∀ x ∈ name, x < 0x80) ∧ (0x2C : UInt8) ∉ name)
    (hvalue : (∀ x ∈ value, x < 0x80) ∧ (0x2C : UInt8) ∉ value) :
    (∀ x ∈ name ++ value, x < 0x80) ∧ (0x2C : UInt8) ∉ name ++ value := by
  refine ⟨ascii_append hname.1 hvalue.1, fun hx => ?_⟩
  rcases List.mem_append.mp hx with hx | hx
  · exact hname.2 hx
  · exact hvalue.2 hx

theorem split_challengePayload (buf : Bytes) (serverTs : Int64) :
    split 0x2C (fromUtf8Lossy (challengePayload (generateNonce hex buf) serverTs)) =
      [ascii "nonce=" ++ generateNonce hex buf, ascii "ts=" ++ formatI64 serverTs] := by
  have hnonce :=
    named_ascii (show _ ∧ (0x2C : UInt8) ∉ ascii "nonce=" by decide +kernel) (hex.encode_ascii buf)
  have hts := named_ascii (show _ ∧ (0x2C : UInt8) ∉ ascii "ts=" by decide +kernel)
    (formatI64_ascii serverTs)
  have hpayload : challengePayload (generateNonce hex buf) serverTs =
      (ascii "nonce=" ++ generateNonce hex buf) ++ 0x2C :: (ascii "ts=" ++ formatI64 serverTs) := by
    simp [challengePayload, ascii]
  rw [hpayload]
  exact split_payload hnonce.1 hts.1 hnonce.2 hts.2

theorem split_responsePayload (timestamp : Int64) (tag : Bytes) :
    split 0x2C (fromUtf8Lossy (responsePayload timestamp (hex.encode tag))) =
      [ascii "timestamp=" ++ formatI64 timestamp, ascii "resp=" ++ hex.encode tag] := by
  have hts := named_ascii (show _ ∧ (0x2C : UInt8) ∉ ascii "timestamp=" by decide +kernel)
    (formatI64_ascii timestamp)
  have hresp :=
    named_ascii (show _ ∧ (0x2C : UInt8) ∉ ascii "resp=" by decide +kernel) (hex.encode_ascii tag)
  have hpayload : responsePayload timestamp (hex.encode tag) =
      (ascii "timestamp=" ++ formatI64 timestamp) ++ 0x2C :: (ascii "resp=" ++ hex.encode tag) := by
    simp [responsePayload, ascii]
  rw [hpayload]
  exact split_payload hts.1 hresp.1 hts.2 hresp.2

end Payloads

section Reading

variable (hex : Hex)

theorem answer_challengePayload (hmac : Bytes → Bytes → Bytes) (clock : Int64)
    (passphrase buf : Bytes) (hbuf : buf ≠ []) (serverTs : Int64) :
    answer hmac hex clock passphrase (challengePayload (generateNonce hex buf) serverTs) =
      some (serverTs, computeResponse hmac hex passphrase (generateNonce hex buf) serverTs) := by
  have hne : generateNonce hex buf ≠ [] := by
    have hlength := hex.length_encode buf
    have hpos := List.length_pos_iff.mpr hbuf
    exact List.ne_nil_of_length_pos (by rw [generateNonce]; omega)
  have hnonce : ChallengeFields.read ⟨none, none⟩ (ascii "nonce=" ++ generateNonce hex buf) =
      ⟨some (generateNonce hex buf), none⟩ := by
    rw [ChallengeFields.read, stripPrefix_append]
    exact if_pos hne
  have hother : stripPrefix (ascii "nonce=") (ascii "ts=" ++ formatI64 serverTs) = none := rfl
  have hts : ChallengeFields.read
      ⟨some (generateNonce hex buf), none⟩ (ascii "ts=" ++ formatI64 serverTs) =
      ⟨some (generateNonce hex buf), some serverTs⟩ := by
    rw [ChallengeFields.read, hother]
    simp only [stripPrefix_append, parseI64_formatI64]
  rw [answer, split_challengePayload, List.foldl_cons, hnonce, List.foldl_cons, hts]
  rfl

theorem parseResponse_responsePayload (timestamp : Int64) (tag : Bytes) :
    parseResponse (responsePayload timestamp (hex.encode tag)) =
      .ok (timestamp, hex.encode tag) := by
  have hts : ResponseFields.read ⟨none, none⟩ (ascii "timestamp=" ++ formatI64 timestamp) =
      ⟨some timestamp, none⟩ := by
    rw [ResponseFields.read, stripPrefix_append]
    simp only [parseI64_formatI64]
  have hother : stripPrefix (ascii "timestamp=") (ascii "resp=" ++ hex.encode tag) = none := rfl
  have hresp : ResponseFields.read ⟨some timestamp, none⟩ (ascii "resp=" ++ hex.encode tag) =
      ⟨some timestamp, some (hex.encode tag)⟩ := by
    rw [ResponseFields.read, hother]
    simp only [stripPrefix_append]
  rw [parseResponse, split_responsePayload, List.foldl_cons, hts, List.foldl_cons, hresp]
  rfl

theorem abs_le_of_near {now serverTs : Int64}
    (h : ((now.toInt - serverTs.toInt).natAbs : Int) ≤ authTimeWindowSecs.toInt) :
    (now - serverTs).abs ≤ authTimeWindowSecs := by
  have hwindow : authTimeWindowSecs.toInt = 90 := rfl
  have hsub : (now - serverTs).toInt = now.toInt - serverTs.toInt := by
    rw [Int64.toInt_sub, Int.bmod_eq_of_le (by omega) (by omega)]
  have hne : (now - serverTs).toBitVec ≠ BitVec.intMin 64 := by
    intro heq
    have hmin := congrArg BitVec.toInt heq
    change (now - serverTs).toInt = _ at hmin
    rw [hsub, BitVec.toInt_intMin] at hmin
    omega
  have habs : (now - serverTs).abs.toInt = ((now - serverTs).toInt.natAbs : Int) := by
    change (now - serverTs).toBitVec.abs.toInt = _
    rw [BitVec.toInt_abs_eq_natAbs, if_neg hne]
    rfl
  rw [Int64.le_iff_toInt_le, habs, hsub]
  exact h

end Reading

/-- A client that knows the passphrase is let in, whatever its clock shows: the server reads the
timestamp and the HMAC the client computed, and both are what it expects. -/
theorem honest_handshake_accepted (hmac : Bytes → Bytes → Bytes) (hex : Hex)
    (passphrase buf : Bytes) (hbuf : buf.length = 16) (serverTs clock now now' : Int64)
    (hnow : ((now.toInt - serverTs.toInt).natAbs : Int) ≤ authTimeWindowSecs.toInt) :
    ∃ timestamp resp,
      answer hmac hex clock passphrase (challengePayload (generateNonce hex buf) serverTs) =
        some (timestamp, resp) ∧
      handleChallenge hmac hex clock passphrase
        (challengePayload (generateNonce hex buf) serverTs) =
        some (responsePayload timestamp resp) ∧
      parseResponse (responsePayload timestamp resp) = .ok (timestamp, resp) ∧
      verifyResponseDual hmac hex now now' passphrase (generateNonce hex buf) serverTs
        timestamp resp =
        .ok (true, now - serverTs) ∧
      acceptResponse hmac hex now now' passphrase (generateNonce hex buf) serverTs
        (responsePayload timestamp resp) =
        .ok (now - serverTs) := by
  have hne : buf ≠ [] := List.ne_nil_of_length_pos (by omega)
  have hanswer := answer_challengePayload hex hmac clock passphrase buf hne serverTs
  have hparse :
      parseResponse (responsePayload serverTs
        (computeResponse hmac hex passphrase (generateNonce hex buf) serverTs)) =
      .ok (serverTs, computeResponse hmac hex passphrase (generateNonce hex buf) serverTs) :=
    parseResponse_responsePayload hex serverTs _
  have hverify : verifyResponseDual hmac hex now now' passphrase (generateNonce hex buf)
      serverTs serverTs (computeResponse hmac hex passphrase (generateNonce hex buf) serverTs) =
        .ok (true, now - serverTs) := by
    rw [verifyResponseDual, if_pos rfl, if_pos (abs_le_of_near hnow)]
  refine ⟨_, _, hanswer, by rw [handleChallenge, hanswer, Option.map_some], hparse, hverify, ?_⟩
  rw [acceptResponse, hparse]
  simp only [bind, Except.bind, hverify]
  rfl

/-- HMAC-SHA256 of the bytes 0 to 15 and 1700000000 under "test-passphrase-123". -/
def sampleTag : Bytes :=
  [0x93, 0x38, 0xC3, 0x77, 0x94, 0xB5, 0x2D, 0x8F, 0x5B, 0x96, 0x33, 0xC6, 0x75, 0xA6, 0x44, 0xE3,
    0xA2, 0x8F, 0xD8, 0x40, 0x6C, 0x11, 0x80, 0x2B, 0x45, 0xD5, 0x5E, 0x28, 0x0F, 0x09, 0xE0, 0x9B]

theorem honest_handshake_drifted_clock : ∃ payload,
    handleChallenge (fun _ _ => sampleTag) Hex.lower 1700100000 (ascii "test-passphrase-123")
        (challengePayload (generateNonce Hex.lower [0, 1, 2, 3, 4, 5, 6, 7, 8, 9, 10, 11, 12, 13,
          14, 15]) 1700000000) =
      some payload ∧
    acceptResponse (fun _ _ => sampleTag) Hex.lower 1700000002 1700000002
      (ascii "test-passphrase-123")
        (generateNonce Hex.lower [0, 1, 2, 3, 4, 5, 6, 7, 8, 9, 10, 11, 12, 13, 14, 15]) 1700000000
          payload = .ok 2 := by
  obtain ⟨timestamp, resp, -, hpayload, -, -, haccept⟩ :=
    honest_handshake_accepted (fun _ _ => sampleTag) Hex.lower
    (ascii "test-passphrase-123") [0, 1, 2, 3, 4, 5, 6, 7, 8, 9, 10, 11, 12, 13, 14, 15] rfl
      1700000000 1700100000
    1700000002 1700000002 (by decide)
  exact ⟨responsePayload timestamp resp, hpayload, haccept⟩

end SrtVpn.Handshake
