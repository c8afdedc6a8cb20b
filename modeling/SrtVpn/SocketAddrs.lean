import SrtVpn.Attempts
import SrtVpn.Ipv6Texts
import SrtVpn.UdpRelay

namespace SrtVpn.SocketAddrs

open BigEndian Utf8 Utf8Chars Text TextParts Addresses Ipv6Texts Attempts UdpTargets UdpRelay

def ipToString : SocketAddr → Bytes
  | .v4 ip _ => ipv4ToString ip
  | .v6 ip _ => ipv6ToString ip

def portOf : SocketAddr → UInt16
  | .v4 _ port => port
  | .v6 _ port => port

def Wellformed : SocketAddr → Prop
  | .v4 ip _ => ip.length = 4
  | .v6 ip _ => ip.length = 16

instance (a : SocketAddr) : Decidable (Wellformed a) :=
  match a with
  | .v4 ip _ => inferInstanceAs (Decidable (ip.length = 4))
  | .v6 ip _ => inferInstanceAs (Decidable (ip.length = 16))

/-- `host.parse::<IpAddr>()`, with the port put beside it. -/
def parseIpAddr (host : Bytes) (port : UInt16) : Option SocketAddr :=
  match parseIpv4Addr host with
  | some ip => some (.v4 ip port)
  | none => (parseIpv6Addr host).map (.v6 · port)

variable {a : SocketAddr}

theorem length_ipToString_le (h : Wellformed a) : (ipToString a).length ≤ 82 := by
  cases a with
  | v4 ip port =>
      have hip : ip.length = 4 := h
      have hle := length_ipv4ToString_le ip
      rw [hip] at hle
      exact Nat.le_trans hle (by decide)
  | v6 ip port => exact length_ipv6ToString_le (Nat.le_of_eq h)

theorem valid_ipToString (a : SocketAddr) : Valid (ipToString a) := by
  cases a with
  | v4 ip port => exact valid_ipv4ToString ip
  | v6 ip port => exact valid_ipv6ToString ip

theorem wellformed_v4 {ip : Bytes} {port : UInt16} (h : Wellformed (.v4 ip port)) :
    ∃ a b c d, ip = [a, b, c, d] :=
  List.length_eq_four.mp h

theorem parseIpAddr_ipToString (h : Wellformed a) :
    parseIpAddr (ipToString a) (portOf a) = some a := by
  cases a with
  | v4 ip port =>
      obtain ⟨a, b, c, d, rfl⟩ := wellformed_v4 h
      rw [parseIpAddr, ipToString, parseIpv4Addr_ipv4ToString]
      rfl
  | v6 ip port =>
      rw [parseIpAddr, ipToString, parseIpv4Addr_ipv6ToString h, parseIpv6Addr_ipv6ToString h]
      rfl

theorem parseUdpDatagram_v6 {ip : Bytes} (h : ip.length = 16) (port : UInt16) (payload : Bytes) :
    parseUdpDatagram (responseDatagram (ipv6ToString ip) port payload) =
      some (ipv6ToString ip, port, payload) := by
  have hport := ofBytes_toBytes 2 (show port.toNat < 256 ^ 2 from port.toNat_lt)
  have htwo := length_toBytes 2 port.toNat
  have hform : responseDatagram (ipv6ToString ip) port payload =
      [0, 0, 0, 0x04] ++ (ip ++ (toBytes 2 port.toNat ++ payload)) := by
    rw [responseDatagram, parseIpv4Addr_ipv6ToString h, parseIpv6Addr_ipv6ToString h]
    simp
  have hlen : (responseDatagram (ipv6ToString ip) port payload).length = 22 + payload.length := by
    simp only [hform, List.length_append, List.length_cons, List.length_nil, h, htwo]
    omega
  have htarget : targetHost (responseDatagram (ipv6ToString ip) port payload) =
      some (ipv6ToString ip, 20) := by
    have htake : ((responseDatagram (ipv6ToString ip) port payload).drop 4).take 16 = ip := by
      rw [hform]
      exact List.take_left' h
    have hatyp : (responseDatagram (ipv6ToString ip) port payload).getD 3 0 = 0x04 := by
      rw [hform]
      rfl
    simp only [targetHost, hatyp, htake, hlen]
    rw [if_neg (by decide), if_neg (by decide), if_pos trivial, if_neg (by omega)]
  have hfrag : (responseDatagram (ipv6ToString ip) port payload).getD 2 0 = 0 := by
    rw [hform]
    rfl
  have hbehind : (responseDatagram (ipv6ToString ip) port payload).drop 20 =
      toBytes 2 port.toNat ++ payload := by
    rw [hform, ← List.append_assoc]
    apply List.drop_left'
    rw [List.length_append, h]
    rfl
  have hdrop : (responseDatagram (ipv6ToString ip) port payload).drop 22 = payload := by
    rw [show 22 = 20 + 2 from rfl, ← List.drop_drop, hbehind, List.drop_left' htwo]
  rw [parseUdpDatagram, hlen, if_neg (by omega), if_neg (fun hne => hne hfrag), htarget]
  simp only [Option.bind_eq_bind, Option.bind_some]
  rw [if_neg (by omega), hbehind, hdrop, List.take_left' htwo, hport]
  simp

theorem parseUdpDatagram_ipToString (h : Wellformed a) (payload : Bytes) :
    parseUdpDatagram (responseDatagram (ipToString a) (portOf a) payload) =
      some (ipToString a, portOf a, payload) := by
  cases a with
  | v4 ip port =>
      obtain ⟨a, b, c, d, rfl⟩ := wellformed_v4 h
      exact parseUdpDatagram_responseDatagram a b c d port payload
  | v6 ip port => exact parseUdpDatagram_v6 h port payload

end SrtVpn.SocketAddrs
