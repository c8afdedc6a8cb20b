import SrtVpn.Addresses
import SrtVpn.HttpProxy

namespace SrtVpn.Authorities

open BigEndian Text TextParts TextFields Addresses HttpProxy

def Bracketless (text : Bytes) : Prop := 0x5B ∉ text ∧ 0x5D ∉ text

/-- The host of an authority: a name without colons, or a literal, which stands in brackets. -/
inductive Host
  | name (text : Bytes) (colon : 0x3A ∉ text) (plain : Bracketless text)
  | literal (text : Bytes) (plain : Bracketless text)

theorem bracketless_of_parseIpv6Addr {text ip : Bytes} (h : parseIpv6Addr text = some ip) :
    Bracketless text := by
  have hall := addressByte_of_parseIpv6Addr h
  exact ⟨fun hmem => absurd (hall 0x5B hmem) (by decide),
    fun hmem => absurd (hall 0x5D hmem) (by decide)⟩

def Host.ipv6 {text ip : Bytes} (h : parseIpv6Addr text = some ip) : Host :=
  .literal text (bracketless_of_parseIpv6Addr h)

def Host.bare : Host → Bytes
  | .name text _ _ => text
  | .literal text _ => text

def Host.written : Host → Bytes
  | .name text _ _ => text
  | .literal text _ => 0x5B :: (text ++ [0x5D])

structure Port where
  digits : Bytes
  nonempty : digits ≠ []
  decimal : digits.all isDigit = true

def Port.value (p : Port) : Nat := number p.digits

structure Authority where
  host : Host
  port : Option Port

def Authority.written (a : Authority) : Bytes :=
  match a.port with
  | none => a.host.written
  | some p => a.host.written ++ 0x3A :: p.digits

def Authority.foundPort (a : Authority) (defaultPort : UInt16) : UInt16 :=
  match a.port with
  | none => defaultPort
  | some p => if p.value < 65536 then UInt16.ofNat p.value else defaultPort

/-- The authority is split into its host and the port that is written, the default being for
none. -/
def Faithful (a : Authority) (defaultPort : UInt16) : Prop :=
  (splitHostPort a.written defaultPort).1 = a.host.bare ∧
    match a.port with
    | none => (splitHostPort a.written defaultPort).2 = defaultPort
    | some p => (splitHostPort a.written defaultPort).2.toNat = p.value

section Split

theorem unbracket_written (host : Host) : unbracket host.written = host.bare := by
  cases host with
  | name text colon plain =>
      rw [Host.written, Host.bare, unbracket, trimStartMatches_of_not_mem plain.1,
        trimEndMatches_of_not_mem plain.2]
  | literal text plain =>
      have hopen : 0x5B ∉ text ++ [0x5D] := by
        rw [List.mem_append, List.mem_singleton]
        rintro (hmem | heq)
        · exact plain.1 hmem
        · exact absurd heq (by decide)
      have hstart : trimStartMatches 0x5B (0x5B :: (text ++ [0x5D])) = text ++ [0x5D] := by
        have htrim := trimStartMatches_of_not_mem hopen
        rw [trimStartMatches] at htrim
        rw [trimStartMatches, List.dropWhile_cons_of_pos (by simp), htrim]
      have hend : trimEndMatches 0x5D (text ++ [0x5D]) = text := by
        have htrim := trimEndMatches_of_not_mem plain.2
        rw [trimEndMatches] at htrim
        rw [trimEndMatches, List.reverse_append, List.reverse_singleton, List.singleton_append,
          List.dropWhile_cons_of_pos (by simp), htrim]
      rw [Host.written, Host.bare, unbracket, hstart, hend]

theorem not_isDigit_of_mem {digits : Bytes} {b : UInt8} (h : digits.all isDigit = true)
    (hb : isDigit b = false) : b ∉ digits := by
  intro hmem
  rw [List.all_eq_true.mp h b hmem] at hb
  cases hb

theorem no_port_behind (host : Host) {h p : Bytes}
    (hsplit : rsplitOnce 0x3A host.written = some (h, p)) : ¬ (p ≠ [] ∧ p.all isDigit = true) := by
  rintro ⟨hne, hdigits⟩
  cases host with
  | name text colon plain =>
      rw [Host.written, rsplitOnce_none colon] at hsplit
      cases hsplit
  | literal text plain =>
      have hlast := congrArg List.getLast? (rsplitOnce_eq hsplit)
      rw [Host.written, ← List.cons_append, List.getLast?_concat, List.getLast?_append_cons,
        List.getLast?_cons_of_ne_nil hne] at hlast
      exact not_isDigit_of_mem hdigits (by decide) (List.mem_of_getLast? hlast.symm)

theorem splitHostPort_written (a : Authority) (defaultPort : UInt16) :
    splitHostPort a.written defaultPort = (a.host.bare, a.foundPort defaultPort) := by
  cases a with
  | mk host port =>
      cases port with
      | none =>
          rw [Authority.written, Authority.foundPort, splitHostPort]
          cases hsplit : rsplitOnce 0x3A host.written with
          | none => simp only [unbracket_written]
          | some parts => simp only [if_neg (no_port_behind host hsplit), unbracket_written]
      | some p =>
          have hcolon : 0x3A ∉ p.digits := not_isDigit_of_mem p.decimal (by decide)
          rw [Authority.written, Authority.foundPort, splitHostPort]
          simp only [rsplitOnce_field host.written hcolon, if_pos (And.intro p.nonempty p.decimal),
            unbracket_written]
          rfl

/-- An IPv6 address in brackets is found without them, and its colons are not taken for that of a
port. -/
theorem splitHostPort_ipv6 {text ip : Bytes} (h : parseIpv6Addr text = some ip)
    (defaultPort : UInt16) : splitHostPort (0x5B :: (text ++ [0x5D])) defaultPort =
      (text, defaultPort) := splitHostPort_written ⟨.ipv6 h, none⟩ defaultPort

example : splitHostPort (ascii "[2001:db8::1]:8080") 443 = (ascii "2001:db8::1", 8080) := by
  decide +kernel

/-- An authority is read as it is written exactly if its port, where it has one, is a number of
sixteen bits. -/
theorem faithful_iff (a : Authority) (defaultPort : UInt16) :
    Faithful a defaultPort ↔ ∀ p, a.port = some p → p.value < 65536 := by
  rw [Faithful, splitHostPort_written]
  cases a with
  | mk host port =>
      cases port with
      | none => simp [Authority.foundPort]
      | some p =>
          simp only [Authority.foundPort, Option.some.injEq, forall_eq', true_and]
          constructor
          · intro hport
            rw [← hport]
            exact UInt16.toNat_lt _
          · intro hlt
            rw [if_pos hlt, UInt16.toNat_ofNat', Nat.mod_eq_of_lt hlt]

/-- The authority of a request for a port that there is not. -/
def beyondPorts : Authority where
  host := .name (ascii "example.com") (by decide +kernel) ⟨by decide +kernel, by decide +kernel⟩
  port := some ⟨ascii "65536", by decide +kernel, by decide +kernel⟩

/-- A client that asks for port 65536 is connected to port 443. -/
theorem connect_to_default_port :
    destination (ascii "CONNECT") beyondPorts.written [] = (ascii "example.com", 443) ∧
    ¬ ∀ a defaultPort, Faithful a defaultPort := by
  refine ⟨by decide +kernel, fun hall => ?_⟩
  have hport : (splitHostPort beyondPorts.written 443).2.toNat = number (ascii "65536") :=
    (hall beyondPorts 443).2
  exact absurd hport (by decide +kernel)

end Split

end SrtVpn.Authorities
