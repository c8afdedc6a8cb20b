import SrtVpn.Chunks
import SrtVpn.Utf8
import SrtVpn.Wire

namespace SrtVpn.UdpFrames

open BigEndian Chunks Utf8 Wire

def udpFragMark : UInt8 := 0xFF

def encodeUdpAddrHeaderHost (host : Bytes) (port : UInt16) : Bytes :=
  UInt8.ofNat host.length :: host ++ toBytes 2 port.toNat

def parseUdpAddrHeader (data : Bytes) : Option (Bytes × UInt16 × Bytes) :=
  match data with
  | [] => none
  | hostLen :: body =>
      if data.length < 3 then none
      else if data.length < 1 + hostLen.toNat + 2 then none
      else some (fromUtf8Lossy (body.take hostLen.toNat),
        UInt16.ofNat (ofBytes ((body.drop hostLen.toNat).take 2)), body.drop (hostLen.toNat + 2))

/-- Payload bytes one fragment carries behind its address header and its five header bytes. -/
def perPart (addrHeader : Bytes) : Nat := frameDataMax - addrHeader.length - 5

def fragment (addrHeader payload : Bytes) (total idx : Nat) : Bytes :=
  addrHeader ++ [udpFragMark] ++ toBytes 2 payload.length ++ [UInt8.ofNat idx, UInt8.ofNat total] ++
    (payload.drop (idx * perPart addrHeader)).take (perPart addrHeader)

def splitUdpFrames (addrHeader payload : Bytes) : List Bytes :=
  if payload.length + (addrHeader.length + 5) ≤ frameDataMax then [addrHeader ++ payload]
  else
    let total := divCeil payload.length (perPart addrHeader)
    (List.range total).map (fragment addrHeader payload total)

theorem length_header (host : Bytes) (port : UInt16) :
    (encodeUdpAddrHeaderHost host port).length = host.length + 3 := by
  simp [encodeUdpAddrHeaderHost, length_toBytes]

theorem parseUdpAddrHeader_encode (host : Bytes) (port : UInt16) (rest : Bytes)
    (hlen : host.length ≤ 255) (hvalid : Valid host) :
    parseUdpAddrHeader (encodeUdpAddrHeaderHost host port ++ rest) = some (host, port, rest) := by
  have hn : (UInt8.ofNat host.length).toNat = host.length := by
    rw [UInt8.toNat_ofNat', Nat.mod_eq_of_lt (by omega)]
  have hport := ofBytes_toBytes 2 (show port.toNat < 256 ^ 2 from port.toNat_lt)
  have hp := length_toBytes 2 port.toNat
  simp only [encodeUdpAddrHeaderHost, List.cons_append, parseUdpAddrHeader, hn, List.append_assoc,
    List.length_cons, List.length_append, hp]
  rw [if_neg (by omega), if_neg (by omega), List.take_left, List.drop_left,
    List.take_append_of_le_length (by omega), List.take_of_length_le (by omega), hport,
      List.drop_append]
  simp [fromUtf8Lossy_of_valid hvalid, hp]

theorem le_perPart {addrHeader : Bytes} (hheader : addrHeader.length ≤ 768) :
    528 ≤ perPart addrHeader := by
  rw [perPart, frameDataMax]
  omega

theorem count_le {addrHeader payload : Bytes} (hheader : addrHeader.length ≤ 768)
    (hpayload : payload.length ≤ 65535) : divCeil payload.length (perPart addrHeader) ≤ 125 := by
  have hpart := le_perPart hheader
  rw [divCeil, ← Nat.lt_succ_iff, Nat.div_lt_iff_lt_mul (by omega)]
  omega

theorem one_lt_count {addrHeader payload : Bytes} (hheader : addrHeader.length ≤ 768)
    (hlarge : frameDataMax < payload.length + (addrHeader.length + 5)) :
    1 < divCeil payload.length (perPart addrHeader) := by
  have hpart := le_perPart hheader
  apply one_lt_divCeil (by omega)
  rw [perPart] at hpart ⊢
  omega

theorem length_header_le {host : Bytes} (port : UInt16) (hlen : host.length ≤ 765) :
    (encodeUdpAddrHeaderHost host port).length ≤ 768 := by
  rw [length_header]
  omega

theorem perPart_pos {host : Bytes} (port : UInt16) (hlen : host.length ≤ 765) :
    528 ≤ perPart (encodeUdpAddrHeaderHost host port) := le_perPart (length_header_le port hlen)

theorem length_split {host : Bytes} {port : UInt16} {payload : Bytes} (hlen : host.length ≤ 765)
    (hlarge : frameDataMax < payload.length + ((encodeUdpAddrHeaderHost host port).length + 5)) :
    splitUdpFrames (encodeUdpAddrHeaderHost host port) payload =
        (List.range (divCeil payload.length (perPart (encodeUdpAddrHeaderHost host port)))).map
          (fragment (encodeUdpAddrHeaderHost host port) payload
            (divCeil payload.length (perPart (encodeUdpAddrHeaderHost host port)))) ∧
      1 < divCeil payload.length (perPart (encodeUdpAddrHeaderHost host port)) := by
  exact ⟨by rw [splitUdpFrames, if_neg (Nat.not_le.mpr hlarge)], one_lt_count (length_header_le port hlen) hlarge⟩

theorem split_eq_singleton {host : Bytes} {port : UInt16} {payload frame : Bytes}
    (hlen : host.length ≤ 765)
    (h : splitUdpFrames (encodeUdpAddrHeaderHost host port) payload = [frame]) :
    frame = encodeUdpAddrHeaderHost host port ++ payload := by
  by_cases hsmall : payload.length + ((encodeUdpAddrHeaderHost host port).length + 5) ≤ frameDataMax
  · rw [splitUdpFrames, if_pos hsmall] at h
    simpa using h.symm
  · obtain ⟨hsplit, hmany⟩ := length_split hlen (Nat.not_le.mp hsmall)
    have hcount := congrArg List.length h
    rw [hsplit, List.length_map, List.length_range, List.length_singleton] at hcount
    omega

end SrtVpn.UdpFrames
