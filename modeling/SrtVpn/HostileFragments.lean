import SrtVpn.Splicing
import SrtVpn.Utf8Chars

namespace SrtVpn.HostileFragments

open BigEndian Tables Utf8 Utf8Chars Wire UdpFrames Reassembly Splicing

/-- A frame laid out as a fragment, whatever its bytes are. -/
def layout (host : Bytes) (p0 p1 l0 l1 idx total : UInt8) (part : Bytes) : Bytes :=
  UInt8.ofNat host.length :: (host ++ p0 :: p1 :: udpFragMark :: l0 :: l1 :: idx :: total :: part)

def hostLen (frame : Bytes) : Nat := (frame.headD 0).toNat

def addressHeader (frame : Bytes) : Bytes := frame.take (1 + hostLen frame + 2)

def hostBytes (frame : Bytes) : Bytes := frame.tail.take (hostLen frame)

/-- A first fragment whose host does not keep its length when it is decoded. -/
def Swollen (frame : Bytes) : Prop :=
  ∃ host p0 p1 l0 l1 total part, frame = layout host p0 p1 l0 l1 0 total part ∧ host.length ≤ 255 ∧
    0 < total.toNat ∧ ofBytes [l0, l1] ≠ 0 ∧ (fromUtf8Lossy host).length ≠ host.length

section Parsing

variable {host : Bytes} {p0 p1 l0 l1 idx total : UInt8} {part frame : Bytes} {f : Fragment Bytes}

theorem hostLen_layout (h : host.length ≤ 255) :
    hostLen (layout host p0 p1 l0 l1 idx total part) = host.length := by
  change (UInt8.ofNat host.length).toNat = host.length
  rw [UInt8.toNat_ofNat', Nat.mod_eq_of_lt (by omega)]

theorem parseUdpAddrHeader_raw (h : host.length ≤ 255) (rest : Bytes) :
    parseUdpAddrHeader (UInt8.ofNat host.length :: (host ++ p0 :: p1 :: rest)) =
      some (fromUtf8Lossy host, UInt16.ofNat (ofBytes [p0, p1]), rest) := by
  have hn : (UInt8.ofNat host.length).toNat = host.length := by
    rw [UInt8.toNat_ofNat', Nat.mod_eq_of_lt (by omega)]
  simp only [parseUdpAddrHeader, hn, List.length_cons, List.length_append]
  rw [if_neg (by omega), if_neg (by omega), List.take_left, List.drop_left]
  simp [List.drop_append]

theorem raw_of_parseUdpAddrHeader {host' rest : Bytes} {port : UInt16}
    (h : parseUdpAddrHeader frame = some (host', port, rest)) :
    ∃ host p0 p1, host.length ≤ 255 ∧
    frame = UInt8.ofNat host.length :: (host ++ p0 :: p1 :: rest) ∧
      host' = fromUtf8Lossy host ∧ port = UInt16.ofNat (ofBytes [p0, p1]) := by
  cases frame with
  | nil => simp [parseUdpAddrHeader] at h
  | cons n body =>
      simp only [parseUdpAddrHeader, Option.ite_none_left_eq_some, Option.some.injEq, Prod.mk.injEq,
        List.length_cons] at h
      obtain ⟨-, hlen, rfl, rfl, rfl⟩ := h
      have htake : (body.take n.toNat).length = n.toNat := List.length_take_of_le (by omega)
      have hn := n.toNat_lt
      obtain ⟨p0, p1, hp⟩ : ∃ p0 p1, (body.drop n.toNat).take 2 = [p0, p1] := by
        have hdrop : 2 ≤ (body.drop n.toNat).length := by
          rw [List.length_drop]
          omega
        rcases hd : body.drop n.toNat with _ | ⟨p0, _ | ⟨p1, rest⟩⟩
        · simp [hd] at hdrop
        · simp [hd] at hdrop
        · exact ⟨p0, p1, rfl⟩
      refine ⟨body.take n.toNat, p0, p1, by omega, ?_, rfl, by rw [hp]⟩
      have hsplit : body.drop n.toNat = [p0, p1] ++ body.drop (n.toNat + 2) := by
        rw [← hp, ← List.drop_drop, List.take_append_drop]
      rw [htake, show p0 :: p1 :: body.drop (n.toNat + 2) = [p0,
        p1] ++ body.drop (n.toNat + 2) from rfl, ← hsplit, List.take_append_drop]
      simp

theorem layout_of_fragment (h : parseFrame frame = .fragment f) :
    ∃ host p0 p1 l0 l1 idx total part,
      host.length ≤ 255 ∧ frame = layout host p0 p1 l0 l1 idx total part ∧
      idx.toNat < total.toNat ∧ ofBytes [l0, l1] ≠ 0 ∧
      f = ⟨(fromUtf8Lossy host, UInt16.ofNat (ofBytes [p0, p1])), ofBytes [l0, l1], idx.toNat,
        total.toNat, part⟩ := by
  rw [parseFrame] at h
  split at h
  · simp at h
  · simp at h
  next host' port mark rest hparse =>
    obtain ⟨host, p0, p1, hlen, hframe, rfl, rfl⟩ := raw_of_parseUdpAddrHeader hparse
    split at h
    · simp at h
    next hmark =>
      split at h
      next l0 l1 idx total part =>
        split at h
        · simp at h
        next hbounds =>
          split at h
          · simp at h
          next hlength =>
            obtain rfl := Parsed.fragment.inj h
            refine ⟨host, p0, p1, l0, l1, idx, total, part, hlen, ?_,
              by omega, fun hz => hlength (Or.inl hz), rfl⟩
            rw [hframe, not_not.mp hmark]
            rfl
      · simp at h

theorem parseFrame_layout (hlen : host.length ≤ 255) (hidx : idx.toNat < total.toNat)
    (hne : ofBytes [l0, l1] ≠ 0) : parseFrame (layout host p0 p1 l0 l1 idx total part) =
      .fragment ⟨(fromUtf8Lossy host, UInt16.ofNat (ofBytes [p0, p1])), ofBytes [l0, l1], idx.toNat,
        total.toNat, part⟩ := by
  have htotal := total.toNat_lt
  have hlength : ofBytes [l0, l1] < 65536 := by simpa using ofBytes_lt [l0, l1]
  rw [layout, parseFrame, parseUdpAddrHeader_raw hlen]
  simp only [ne_eq, not_true, if_false]
  rw [if_neg (by omega), if_neg (by omega)]

theorem hostBytes_layout (h : host.length ≤ 255) :
    hostBytes (layout host p0 p1 l0 l1 idx total part) = host := by
  rw [hostBytes, hostLen_layout h]
  exact List.take_left

theorem addressHeader_layout (h : host.length ≤ 255) :
    addressHeader (layout host p0 p1 l0 l1 idx total part) =
    UInt8.ofNat host.length :: (host ++ [p0, p1]) := by
  rw [addressHeader, hostLen_layout h, layout,
    show 1 + host.length + 2 =
        (host.length + 2) + 1 by omega, List.take_succ_cons, List.take_length_add_append]
  rfl

theorem addressHeader_of_plain (hparse : parseFrame frame = .fragment f)
    (hplain : ¬ replacement <:+: f.target.1) :
    addressHeader frame = encodeUdpAddrHeaderHost f.target.1 f.target.2 ∧
    f.target.1.length = hostLen frame := by
  obtain ⟨host, p0, p1, l0, l1, idx, total, part, hlen, rfl, -, -, rfl⟩ := layout_of_fragment hparse
  have hhost : fromUtf8Lossy host = host := fromUtf8Lossy_of_plain hplain
  have hlt : ofBytes [p0, p1] < 65536 := by simpa using ofBytes_lt [p0, p1]
  have hport : toBytes 2 (UInt16.ofNat (ofBytes [p0, p1])).toNat = [p0, p1] := by
    rw [UInt16.toNat_ofNat', Nat.mod_eq_of_lt (by omega)]
    exact toBytes_ofBytes [p0, p1]
  rw [hostLen_layout hlen, addressHeader_layout hlen, encodeUdpAddrHeaderHost, hhost, hport]
  exact ⟨rfl, rfl⟩

end Parsing

section Groups

variable {target : Target} {st : ReasmState Bytes}

theorem storePart_header (st : ReasmState Bytes) (f : Fragment Bytes) (header : Bytes) :
    (storePart st f header).addrHeader = (if f.idx = 0 then header else st.addrHeader) ∧
      (storePart st f header).parts.length = st.parts.length ∧
      (storePart st f header).totalParts = st.totalParts := by
  by_cases hnone : st.parts[f.idx]? = some none
  · rw [storePart_empty header hnone]
    exact ⟨rfl, by simp, rfl⟩
  · rw [storePart_filled header hnone]
    exact ⟨rfl, rfl, rfl⟩

/-- Where a group goes: it is kept, or joined and forgotten. -/
theorem finish_cases {r r' : UdpReassembler Bytes} {now total : Nat} {out : Output Bytes}
    (h : finish r now target total st = (out, r')) :
    (out = .nothing ∧ r'.pending = r.pending.insert target st) ∨
      ∃ parts, st.received = total ∧ st.parts = parts.map some ∧ out = .joined st.addrHeader parts ∧
        r'.pending = r.pending.erase target := by
  simp only [finish] at h
  split at h
  next hreceived =>
    cases hparts : st.parts.mapM id with
    | none =>
        rw [hparts] at h
        obtain ⟨rfl, rfl⟩ := Prod.mk.inj h
        exact Or.inl ⟨rfl, rfl⟩
    | some parts =>
        rw [hparts] at h
        obtain ⟨rfl, rfl⟩ := Prod.mk.inj h
        exact Or.inr ⟨parts, hreceived, mapM_id_eq_some hparts, rfl, rfl⟩
  next =>
    obtain ⟨rfl, rfl⟩ := Prod.mk.inj h
    exact Or.inl ⟨rfl, rfl⟩

end Groups

section Push

variable {frame : Bytes} {f : Fragment Bytes} {r : UdpReassembler Bytes}

theorem header_of_first (hparse : parseFrame frame = .fragment f) :
    1 + hostLen frame + 2 ≤ frame.length ∧ hostLen frame ≤ f.target.1.length ∧
      (f.idx = 0 → f.target.1.length ≠ hostLen frame → Swollen frame) := by
  obtain ⟨host, p0, p1, l0, l1, idx, total, part, hlen, rfl, hidx, hne, rfl⟩ :=
    layout_of_fragment hparse
  rw [hostLen_layout hlen]
  refine ⟨by simp [layout]; omega, length_le_fromUtf8Lossy host, fun hz hlength => ?_⟩
  have hz' : idx = 0 := UInt8.toNat_inj.mp hz
  subst hz'
  exact ⟨host, p0, p1, l0, l1, total, part, rfl, hlen, hidx, hne, hlength⟩

theorem fragment_of_swollen (h : Swollen frame) :
    ∃ f, parseFrame frame = .fragment f ∧ f.idx = 0 ∧ hostLen frame < f.target.1.length := by
  obtain ⟨host, p0, p1, l0, l1, total, part, rfl, hlen, htotal, hne, hlength⟩ := h
  refine ⟨_, parseFrame_layout hlen (by simpa using htotal) hne, rfl, ?_⟩
  rw [hostLen_layout hlen]
  have hle := length_le_fromUtf8Lossy host
  simp only
  omega

theorem pushWith_returns (hframe : ¬ Swollen frame) (now : Nat)
    (hgroup : ∀ f, parseFrame frame = .fragment f → (groupFor r.pending f).parts.length = f.total) :
    ∃ out r', pushWith id now r frame = some (out, r') := by
  rw [pushWith]
  cases hparse : parseFrame frame with
  | invalid => exact ⟨_, _, rfl⟩
  | whole => exact ⟨_, _, rfl⟩
  | fragment f =>
      obtain ⟨hlength, -, hswollen⟩ := header_of_first hparse
      obtain ⟨host, p0, p1, l0, l1, idx, total, part, -, -, hidx, -, hf⟩ :=
        layout_of_fragment hparse
      have hlt : f.idx < f.total := by rw [hf]; exact hidx
      have hsize := hgroup f hparse
      simp only
      rw [if_neg (by
        rintro (⟨hz, hshort⟩ | hshort)
        · by_cases hhost : f.target.1.length = hostLen frame
          · omega
          · exact hframe (hswollen hz hhost)
        · omega)]
      exact ⟨_, _, rfl⟩

end Push

/-- The host is three bytes that are no characters, for which the header is taken to be six bytes
longer than it is: one byte more than the first frame has, and all of the second. -/
theorem swollen_fragment_panics :
    Reachable .new ∧ push 0 .new (layout [0xFF, 0xFF, 0xFF] 0 53 0 1 0 1 []) = none ∧
    (push 0 .new (layout [0xFF, 0xFF, 0xFF] 0 53 0 1 0 1 [7])).map Prod.fst =
      some (some (layout [0xFF, 0xFF, 0xFF] 0 53 0 1 0 1 [7] ++ [7])) :=
  ⟨.new, rfl, rfl⟩

end SrtVpn.HostileFragments
