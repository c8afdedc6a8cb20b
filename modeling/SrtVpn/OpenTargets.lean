import SrtVpn.Socks5
import SrtVpn.TextParts

namespace SrtVpn.OpenTargets

open BigEndian Wire Encoder Utf8 Utf8Chars Text TextParts Session LocalConn
  HttpProxy Socks5 Programs

structure OpenRequest where
  proto : UInt8
  host : Bytes
  port : UInt16
  deriving DecidableEq

def parseOpenPayload : Bytes → Option OpenRequest
  | proto :: hostLen :: body =>
      if body.length + 2 < 4 then none
      else if body.length + 2 < 2 + hostLen.toNat + 2 then none
      else some ⟨proto, fromUtf8Lossy (body.take hostLen.toNat),
        UInt16.ofNat (ofBytes ((body.drop hostLen.toNat).take 2))⟩
  | _ => none

/-- The targets with which a front end opens a session: the address of a SOCKS5 CONNECT, or what an
HTTP request names. -/
inductive Asked : Bytes → UInt16 → Prop
  | socks5 {atyp : UInt8} {c c' : Conn} {host : Bytes} (port : UInt16) :
      exec (readAddress atyp) c = (.ok host, c') → Asked host port
  | http {header method target version : Bytes} {more : List Bytes} :
      splitWhitespace (requestLine (fromUtf8Lossy header)) = method :: target :: version :: more →
      Asked (destination method target (fromUtf8Lossy header)).1
        (destination method target (fromUtf8Lossy header)).2

/-- The Open is built without a failed assertion and is read back as it was meant. -/
def Arrives (enc : MuxEncoder) (sid : UInt16) (proto : UInt8) (host : Bytes) (port : UInt16) :
    Prop :=
  ∃ msg enc' frame, encodeFrame enc (sendOpen sid proto host port) = some (msg, enc') ∧
    decodeFrame msg = some frame ∧ parseOpenPayload frame.payload = some ⟨proto, host, port⟩

section Hosts

variable {host text target method : Bytes}

theorem valid_unbracket (h : Valid host) : Valid (unbracket host) :=
  valid_trimEndMatches (by decide) (valid_trimStartMatches (by decide) h)

theorem valid_splitHostPort {authority : Bytes} (h : Valid authority) (defaultPort : UInt16) :
    Valid (splitHostPort authority defaultPort).1 := by
  rw [splitHostPort]
  split
  next before port hsplit =>
    split
    · apply valid_unbracket
      rw [rsplitOnce_eq hsplit] at h
      exact (valid_split (by decide) h).1
    · exact valid_unbracket h
  next => exact valid_unbracket h

theorem valid_authority (h : Valid text) : Valid (authority text) := by
  refine valid_takeWhile h fun x hx => ?_
  have hsep : x = 0x2F ∨ x = 0x3F := by
    rw [decide_eq_false_iff_not] at hx
    by_cases hslash : x = 0x2F
    · exact Or.inl hslash
    · exact Or.inr (not_not.mp fun hquery => hx ⟨hslash, hquery⟩)
  rcases hsep with rfl | rfl <;> decide

theorem valid_hostHeader (h : Valid text) : Valid (hostHeader text) := by
  rw [hostHeader]
  cases hfound : ((lines text).find? fun l => (ascii "host:").isPrefixOf (l.map lower)).bind
    (splitOnce 0x3A) with
  | none => exact valid_nil
  | some p =>
      obtain ⟨l, hl, hsplit⟩ := Option.bind_eq_some_iff.mp hfound
      have hline : Valid l :=
        valid_linesLoop (show Valid ([] ++ text) from h) (List.mem_of_find?_eq_some hl)
      rw [splitOnce_eq hsplit] at hline
      exact valid_trim (valid_split (by decide) hline).2

theorem valid_destination (htarget : Valid target) (htext : Valid text) :
    Valid (destination method target text).1 := by
  rw [destination]
  split
  · exact valid_splitHostPort htarget 443
  split
  next rest hrest =>
    exact valid_splitHostPort
      (valid_authority (valid_stripPrefix htarget (by decide +kernel) hrest)) 80
  split
  next rest hrest =>
    exact valid_splitHostPort
      (valid_authority (valid_stripPrefix htarget (by decide +kernel) hrest)) 443
  next => exact valid_splitHostPort (valid_hostHeader htext) 80

theorem valid_readAddress {atyp : UInt8} {c c' : Conn}
    (h : exec (readAddress atyp) c = (.ok host, c')) : Valid host := by
  rw [readAddress] at h
  split at h
  · obtain ⟨ip, u, -, h⟩ := exec_bind_eq_ok h
    obtain rfl := Except.ok.inj (Prod.mk.inj h).1
    exact valid_ipv4ToString ip
  split at h
  · obtain ⟨dlen, u, -, h⟩ := exec_bind_eq_ok h
    obtain ⟨domain, u, -, h⟩ := exec_bind_eq_ok h
    obtain rfl := Except.ok.inj (Prod.mk.inj h).1
    exact valid_fromUtf8Lossy domain
  split at h
  · obtain ⟨ip, u, -, h⟩ := exec_bind_eq_ok h
    obtain rfl := Except.ok.inj (Prod.mk.inj h).1
    exact valid_ipv6ToString ip
  · simp [LocalConn.fail] at h

theorem valid_of_asked {port : UInt16} (h : Asked host port) : Valid host := by
  cases h with
  | socks5 _ h => exact valid_readAddress h
  | @http header method target version more hline =>
      have htext := valid_fromUtf8Lossy header
      have hrequest : Valid (requestLine (fromUtf8Lossy header)) :=
        valid_upTo htext (by decide +kernel) (by simp)
      have htarget := valid_splitWhitespace hrequest (show target ∈ _ by rw [hline]; simp)
      exact valid_destination htarget htext

end Hosts

section Payload

variable {proto : UInt8} {host : Bytes} {port : UInt16}

theorem length_openPayload : (openPayload proto host port).length = host.length + 4 := by
  simp [openPayload, length_toBytes]

theorem parseOpenPayload_of_fits (hvalid : Valid host) (hlen : host.length ≤ 255) :
    parseOpenPayload (openPayload proto host port) = some ⟨proto, host, port⟩ := by
  have hn : (UInt8.ofNat host.length).toNat = host.length := by
    rw [UInt8.toNat_ofNat', Nat.mod_eq_of_lt (by omega)]
  have hport := ofBytes_toBytes 2 (show port.toNat < 256 ^ 2 from port.toNat_lt)
  have hp := length_toBytes 2 port.toNat
  simp only [openPayload, List.cons_append, parseOpenPayload, hn, List.length_append, hp]
  rw [if_neg (by omega), if_neg (by omega), List.take_left, List.drop_left,
    List.take_of_length_le (by omega), hport, fromUtf8Lossy_of_valid hvalid]
  simp

theorem length_openedHost (hvalid : Valid host) {req : OpenRequest}
    (h : parseOpenPayload (openPayload proto host port) = some req) :
    req.host.length ≤ host.length % 256 + 2 := by
  have hn : (UInt8.ofNat host.length).toNat = host.length % 256 := UInt8.toNat_ofNat'
  have hle := Nat.mod_le host.length 256
  simp only [openPayload, List.cons_append, parseOpenPayload, hn, Option.ite_none_left_eq_some,
    Option.some.injEq] at h
  obtain ⟨-, -, rfl⟩ := h
  simp only
  rw [List.take_append_of_le_length hle]
  exact length_fromUtf8Lossy_take hvalid _

end Payload

/-- The target a front end asks for reaches the server exactly when its host fits the length
byte. -/
theorem target_opened_iff (enc : MuxEncoder) (sid : UInt16) (host : Bytes) (port : UInt16)
    (h : Asked host port) : Arrives enc sid protoTcp host port ↔ host.length ≤ 255 := by
  have hvalid := valid_of_asked h
  have hpay : (stamp enc (sendOpen sid protoTcp host port)).1.payload =
      openPayload protoTcp host port := rfl
  constructor
  · rintro ⟨msg, enc', frame, henc, hdec, hparse⟩
    rw [encodeFrame, Option.ite_none_right_eq_some] at henc
    obtain ⟨hfits, heq⟩ := henc
    obtain ⟨rfl, -⟩ := Prod.mk.inj (Option.some.inj heq)
    rw [decodeFrame_frameBytes _ (Nat.lt_of_le_of_lt hfits (by decide))] at hdec
    obtain rfl := Option.some.inj hdec
    rw [hpay] at hparse
    have hlen := length_openedHost hvalid hparse
    simp only at hlen
    omega
  · intro hlen
    have hfits : (sendOpen sid protoTcp host port).payload.length ≤ frameDataMax := by
      have hl : (sendOpen sid protoTcp host port).payload.length = host.length + 4 :=
        length_openPayload
      rw [hl, frameDataMax]
      omega
    refine ⟨_, _, _, if_pos hfits,
      decodeFrame_frameBytes _ (Nat.lt_of_le_of_lt hfits (by decide)), ?_⟩
    rw [hpay]
    exact parseOpenPayload_of_fits hvalid hlen

def sending (input : Bytes) : Conn :=
  ⟨input, [], none, [], [], .ok (), .ok ([0, 0, 0, 0], 0), [], ⟨.new, [], []⟩⟩

theorem target_opened_ipv4 : Arrives (.new true) 1 protoTcp (ascii "10.0.0.1") 80 := by
  have hasked : Asked (ascii "10.0.0.1") 80 :=
    @Asked.socks5 1 (sending [10, 0, 0, 1]) (sending []) _ 80 rfl
  exact (target_opened_iff (.new true) 1 (ascii "10.0.0.1") 80 hasked).mpr (by decide)

def brokenHost : Bytes := (List.replicate 86 replacement).flatten

theorem asked_brokenHost : Asked brokenHost 443 := by
  have hhost : fromUtf8Lossy (List.replicate 86 0xFF) = brokenHost := by decide +kernel
  rw [← hhost]
  exact @Asked.socks5 3 (sending (86 :: List.replicate 86 0xFF)) (sending []) _ 443 rfl

theorem broken_host_opened_elsewhere : Asked brokenHost 443 ∧
    ((encodeFrame (.new true) (sendOpen 1 protoTcp brokenHost 443)).bind fun p =>
        (decodeFrame p.1).bind fun f => parseOpenPayload f.payload) =
          some ⟨0, replacement, 0xBDEF⟩ ∧
      ¬ Arrives (.new true) 1 protoTcp brokenHost 443 := by
  have hread : ((encodeFrame (.new true) (sendOpen 1 protoTcp brokenHost 443)).bind fun p =>
      (decodeFrame p.1).bind fun f => parseOpenPayload f.payload) =
        some ⟨0, replacement, 0xBDEF⟩ := by decide +kernel
  refine ⟨asked_brokenHost, hread, ?_⟩
  rintro ⟨msg, enc', frame, henc, hdec, hparse⟩
  rw [henc, Option.bind_some, hdec, Option.bind_some, hparse] at hread
  simp at hread

end SrtVpn.OpenTargets
