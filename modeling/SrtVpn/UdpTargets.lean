import SrtVpn.TextParts
import SrtVpn.UdpFrames

namespace SrtVpn.UdpTargets

open BigEndian Utf8 Utf8Chars Text TextParts UdpFrames

/-- The target of a SOCKS5 UDP datagram and the position behind its address. -/
def targetHost (datagram : Bytes) : Option (Bytes × Nat) :=
  let atyp := datagram.getD 3 0
  if atyp = 0x01 then
    if datagram.length < 8 then none else some (ipv4ToString ((datagram.drop 4).take 4), 8)
  else if atyp = 0x03 then
    if datagram.length < 5 then none
    else
      let dlen := (datagram.getD 4 0).toNat
      if datagram.length < 5 + dlen then none
      else some (fromUtf8Lossy ((datagram.drop 5).take dlen), 5 + dlen)
  else if atyp = 0x04 then
    if datagram.length < 20 then none else some (ipv6ToString ((datagram.drop 4).take 16), 20)
  else none

def parseUdpDatagram (datagram : Bytes) : Option (Bytes × UInt16 × Bytes) :=
  if datagram.length < 4 then none
  else if datagram.getD 2 0 ≠ 0 then none
  else do
    let (host, pos) ← targetHost datagram
    if datagram.length < pos + 2 then none
    else some (host, UInt16.ofNat (ofBytes ((datagram.drop pos).take 2)), datagram.drop (pos + 2))

theorem valid_targetHost {datagram host : Bytes} {pos : Nat}
    (h : targetHost datagram = some (host, pos)) : Valid host := by
  simp only [targetHost] at h
  split at h
  · simp only [Option.ite_none_left_eq_some, Option.some.injEq, Prod.mk.injEq] at h
    rw [← h.2.1]
    exact valid_ipv4ToString _
  split at h
  · simp only [Option.ite_none_left_eq_some, Option.some.injEq, Prod.mk.injEq] at h
    rw [← h.2.2.1]
    exact valid_fromUtf8Lossy _
  split at h
  · simp only [Option.ite_none_left_eq_some, Option.some.injEq, Prod.mk.injEq] at h
    rw [← h.2.1]
    exact valid_ipv6ToString _
  · simp at h

theorem valid_of_parseUdpDatagram {datagram host payload : Bytes} {port : UInt16}
    (h : parseUdpDatagram datagram = some (host, port, payload)) : Valid host := by
  simp only [parseUdpDatagram, Option.ite_none_left_eq_some, Option.bind_eq_bind,
    Option.bind_eq_some_iff] at h
  obtain ⟨-, -, ⟨host', pos⟩, htarget, -, heq⟩ := h
  obtain ⟨rfl, -, -⟩ : host' = host ∧ _ := by simpa using heq
  exact valid_targetHost htarget

theorem length_parsedHost {host rest : Bytes} {port port' : UInt16} {host' rest' : Bytes}
    (hvalid : Valid host)
    (h : parseUdpAddrHeader (encodeUdpAddrHeaderHost host port ++ rest) =
      some (host', port', rest')) :
    host'.length ≤ host.length % 256 + 2 := by
  have hn : (UInt8.ofNat host.length).toNat = host.length % 256 := UInt8.toNat_ofNat'
  have hle := Nat.mod_le host.length 256
  simp only [encodeUdpAddrHeaderHost, List.cons_append, parseUdpAddrHeader, hn, List.append_assoc,
    Option.ite_none_left_eq_some, Option.some.injEq, Prod.mk.injEq] at h
  obtain ⟨-, -, hhost, -⟩ := h
  rw [← hhost, List.take_append_of_le_length hle]
  exact length_fromUtf8Lossy_take hvalid _

/-- A target comes out of the tunnel header as it went in exactly when its host fits the length
byte. -/
theorem target_survives_iff (datagram host payload : Bytes) (port : UInt16)
    (h : parseUdpDatagram datagram = some (host, port, payload)) :
    parseUdpAddrHeader (encodeUdpAddrHeaderHost host port ++ payload) = some (host, port, payload) ↔
      host.length ≤ 255 := by
  have hvalid := valid_of_parseUdpDatagram h
  constructor
  · intro hparse
    have hlen := length_parsedHost hvalid hparse
    omega
  · intro hlen
    exact parseUdpAddrHeader_encode host port payload hlen hvalid

theorem target_survives_ipv4 :
    parseUdpAddrHeader (encodeUdpAddrHeaderHost (ascii "1.2.3.4") 53 ++ [7]) =
    some (ascii "1.2.3.4", 53, [7]) :=
  (target_survives_iff [0, 0, 0, 1, 1, 2, 3, 4, 0, 53, 7] (ascii "1.2.3.4") [7] 53 (by decide)).mpr
    (by decide)

/-- A domain of 86 bytes that are no characters; decoded it has 258. -/
def brokenDomain : Bytes := [0, 0, 0, 3, 86] ++ List.replicate 86 0xFF ++ [0, 53, 7]

theorem broken_domain_redirected :
    (parseUdpDatagram brokenDomain).map (fun t => (t.1.length, t.2)) = some (258, 53, [7]) ∧
      ((parseUdpDatagram brokenDomain).bind fun t =>
          parseUdpAddrHeader (encodeUdpAddrHeaderHost t.1 t.2.1 ++ t.2.2)).map
            (fun t => (t.1, t.2.1)) =
        some (replacement, 0xBDEF) ∧
      ((parseUdpDatagram brokenDomain).bind fun t =>
          parseUdpAddrHeader (encodeUdpAddrHeaderHost t.1 t.2.1 ++ t.2.2)) ≠
            parseUdpDatagram brokenDomain := by
  decide +kernel

end SrtVpn.UdpTargets
