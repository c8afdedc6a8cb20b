import SrtVpn.Tables
import SrtVpn.UdpFrames

namespace SrtVpn.Reassembly

open BigEndian Tables Utf8 Wire UdpFrames

variable {β γ : Type}

abbrev Target := Bytes × UInt16

/-- One group of fragments. The type of a part stays open: reassembly never looks inside one. -/
structure ReasmState (β : Type) where
  totalLen : Nat
  totalParts : Nat
  parts : List (Option β)
  received : Nat
  addrHeader : Bytes

structure UdpReassembler (β : Type) where
  pending : Table Target (ReasmState β)
  createdAt : Table Target Nat

def UdpReassembler.new : UdpReassembler β := ⟨∅, ∅⟩

def reasmExpiry : Nat := 30 * 10 ^ 9

def cleanupExpired (now : Nat) (r : UdpReassembler β) : UdpReassembler β :=
  let expired := r.createdAt.keys.filter fun k => ((find r.createdAt k).any (reasmExpiry < now - ·))
  ⟨expired.foldl (fun t k => t.erase k) r.pending, expired.foldl (fun t k => t.erase k) r.createdAt⟩

structure Fragment (β : Type) where
  target : Target
  totalLen : Nat
  idx : Nat
  total : Nat
  part : β

inductive Parsed
  | invalid
  | whole
  | fragment (f : Fragment Bytes)

def parseFrame (frame : Bytes) : Parsed :=
  match parseUdpAddrHeader frame with
  | none => .invalid
  | some (_, _, []) => .invalid
  | some (host, port, mark :: rest) =>
      if mark ≠ udpFragMark then .whole
      else match rest with
        | l₀ :: l₁ :: idx :: total :: part =>
            if total.toNat = 0 ∨ 255 < total.toNat ∨ total.toNat ≤ idx.toNat then .invalid
            else if ofBytes [l₀, l₁] = 0 ∨ 65535 < ofBytes [l₀, l₁] then .invalid
            else .fragment ⟨(host, port), ofBytes [l₀, l₁], idx.toNat, total.toNat, part⟩
        | _ => .invalid

def freshGroup (f : Fragment γ) : ReasmState β :=
  ⟨f.totalLen, f.total, List.replicate f.total none, 0, []⟩

/-- The group a fragment goes to; one whose length or count differs is started over. -/
def groupFor (pending : Table Target (ReasmState β)) (f : Fragment γ) : ReasmState β :=
  let st := (find pending f.target).getD (freshGroup f)
  if st.totalLen ≠ f.totalLen ∨ st.totalParts ≠ f.total then freshGroup f else st

theorem groupFor_cases (pending : Table Target (ReasmState β)) (f : Fragment γ) :
    groupFor pending f = freshGroup f ∨
    ∃ st, find pending f.target = some st ∧ groupFor pending f = st ∧ st.totalLen = f.totalLen ∧
    st.totalParts = f.total := by
  simp only [groupFor]
  split
  · exact Or.inl rfl
  next hsame =>
    obtain ⟨hlen, htotal⟩ := not_or.mp hsame
    cases hfind : find pending f.target with
    | none => exact Or.inl rfl
    | some st =>
        rw [hfind] at hlen htotal
        exact Or.inr ⟨st, rfl, rfl, not_not.mp hlen, not_not.mp htotal⟩

def storePart (st : ReasmState β) (f : Fragment β) (header : Bytes) : ReasmState β :=
  let st := if f.idx = 0 then { st with addrHeader := header } else st
  match st.parts[f.idx]? with
  | some none => { st with parts := st.parts.set f.idx (some f.part), received := st.received + 1 }
  | _ => st

inductive Output (β : Type)
  | nothing
  | whole
  | joined (header : Bytes) (parts : List β)
  deriving DecidableEq

def finish (r : UdpReassembler β) (now : Nat) (target : Target) (total : Nat) (st : ReasmState β) :
    Output β × UdpReassembler β :=
  let createdAt :=
    if (find r.pending target).isNone then r.createdAt.insert target now else r.createdAt
  if st.received = total then
    match st.parts.mapM id with
    | some parts => (.joined st.addrHeader parts, ⟨r.pending.erase target, createdAt.erase target⟩)
    | none => (.nothing, ⟨r.pending.insert target st, createdAt⟩)
  else (.nothing, ⟨r.pending.insert target st, createdAt⟩)

/-- `push` with its parts labelled by `tag`. The result is `none` where the source would panic: the
header slice or the part index is out of bounds. -/
def pushWith (tag : Bytes → β) (now : Nat) (r : UdpReassembler β) (frame : Bytes) :
    Option (Output β × UdpReassembler β) :=
  match parseFrame frame with
  | .invalid => some (.nothing, r)
  | .whole => some (.whole, r)
  | .fragment f =>
      let headerLen := 1 + f.target.1.length + 2
      let st := groupFor r.pending f
      if (f.idx = 0 ∧ frame.length < headerLen) ∨ st.parts.length ≤ f.idx then none
      else some (finish r now f.target f.total
        (storePart st { f with part := tag f.part } (frame.take headerLen)))

def Output.bytes (frame : Bytes) : Output Bytes → Option Bytes
  | .nothing => none
  | .whole => some frame
  | .joined header parts => some (header ++ parts.flatten)

def push (now : Nat) (r : UdpReassembler Bytes) (frame : Bytes) :
    Option (Option Bytes × UdpReassembler Bytes) :=
  (pushWith id now r frame).map fun (o, r) => (o.bytes frame, r)

/-- The states a reassembler can get into, whatever frames the peer sends. -/
inductive Reachable : UdpReassembler Bytes → Prop
  | new : Reachable .new
  | push {r r' : UdpReassembler Bytes} {now : Nat} {frame : Bytes} {out : Option Bytes} :
      Reachable r → push now r frame = some (out, r') → Reachable r'
  | cleanup {r : UdpReassembler Bytes} (now : Nat) : Reachable r → Reachable (cleanupExpired now r)

theorem find_cleanupExpired {r : UdpReassembler β} {now : Nat} {key : Target} {st : ReasmState β}
    (h : find (cleanupExpired now r).pending key = some st) : find r.pending key = some st := by
  simp only [cleanupExpired, find_foldl_erase] at h
  split at h
  · simp at h
  · exact h

theorem pushWith_cases {now : Nat} {r r' : UdpReassembler Bytes} {frame : Bytes}
    {out : Output Bytes} (h : pushWith id now r frame = some (out, r')) :
    ((∀ f, parseFrame frame ≠ .fragment f) ∧ r' = r ∧ ∀ header parts, out ≠ .joined header parts) ∨
      ∃ f, parseFrame frame = .fragment f ∧ (f.idx = 0 → 1 + f.target.1.length + 2 ≤ frame.length) ∧
        finish r now f.target f.total
          (storePart (groupFor r.pending f) f (frame.take (1 + f.target.1.length + 2))) =
            (out, r') := by
  rw [pushWith] at h
  cases hparse : parseFrame frame with
  | invalid =>
      rw [hparse] at h
      obtain ⟨rfl, rfl⟩ := Prod.mk.inj (Option.some.inj h)
      exact Or.inl ⟨by simp, rfl, by simp⟩
  | whole =>
      rw [hparse] at h
      obtain ⟨rfl, rfl⟩ := Prod.mk.inj (Option.some.inj h)
      exact Or.inl ⟨by simp, rfl, by simp⟩
  | fragment f =>
      rw [hparse] at h
      simp only [Option.ite_none_left_eq_some, Option.some.injEq, not_or, not_and, Nat.not_lt] at h
      exact Or.inr ⟨f, rfl, h.1.1, h.2⟩

theorem parseFrame_of_header {host : Bytes} (port : UInt16) (rest : Bytes)
    (hlen : host.length ≤ 255) (hvalid : Valid host) (mark : UInt8) :
    parseFrame (encodeUdpAddrHeaderHost host port) = .invalid ∧
      (mark ≠ udpFragMark →
        parseFrame (encodeUdpAddrHeaderHost host port ++ mark :: rest) = .whole) := by
  have hempty := parseUdpAddrHeader_encode host port [] hlen hvalid
  rw [List.append_nil] at hempty
  refine ⟨by rw [parseFrame, hempty], fun hmark => ?_⟩
  rw [parseFrame, parseUdpAddrHeader_encode host port _ hlen hvalid]
  exact if_pos hmark

theorem parseFrame_marked {host : Bytes} {port : UInt16} {rest : Bytes} (hlen : host.length ≤ 255)
    (hvalid : Valid host) {f : Fragment Bytes}
    (h : parseFrame (encodeUdpAddrHeaderHost host port ++ udpFragMark :: rest) = .fragment f) :
    f.target = (host, port) ∧ f.part.length + 4 = rest.length ∧ f.idx < f.total := by
  rw [parseFrame, parseUdpAddrHeader_encode host port _ hlen hvalid] at h
  simp only [ne_eq, not_true, if_false] at h
  split at h
  next l₀ l₁ idx total part =>
    split at h
    next => simp at h
    next hbounds =>
      split at h
      next => simp at h
      next =>
        obtain rfl := Parsed.fragment.inj h
        refine ⟨rfl, by simp, ?_⟩
        simp only
        omega
  next => simp at h

theorem parseFrame_marked_ne_whole {host : Bytes} {port : UInt16} {rest : Bytes}
    (hlen : host.length ≤ 255) (hvalid : Valid host) :
    parseFrame (encodeUdpAddrHeaderHost host port ++ udpFragMark :: rest) ≠ .whole := by
  rw [parseFrame, parseUdpAddrHeader_encode host port _ hlen hvalid]
  simp only [ne_eq, not_true, if_false]
  split
  next =>
    split
    · simp
    split <;> simp
  next => simp

theorem storePart_empty {st : ReasmState β} {f : Fragment β} (header : Bytes)
    (h : st.parts[f.idx]? = some none) :
    storePart st f header = { st with
      parts := st.parts.set f.idx (some f.part)
      received := st.received + 1
      addrHeader := if f.idx = 0 then header else st.addrHeader } := by
  by_cases hz : f.idx = 0
  · rw [hz] at h
    simp [storePart, hz, h]
  · simp [storePart, hz, h]

theorem storePart_filled {st : ReasmState β} {f : Fragment β} (header : Bytes)
    (h : st.parts[f.idx]? ≠ some none) :
    storePart st f header =
      { st with addrHeader := if f.idx = 0 then header else st.addrHeader } := by
  by_cases hz : f.idx = 0
  · rw [hz] at h
    simp only [storePart, hz, if_true]
  · simp only [storePart, hz, if_false]

theorem finish_storePart_fresh (r : UdpReassembler β) (now : Nat) (f : Fragment β) (header : Bytes)
    (hidx : f.idx < f.total) :
    (finish r now f.target f.total (storePart (freshGroup f) f header)).1 =
      if f.total = 1 then .joined header [f.part] else .nothing := by
  have hpart : (freshGroup f : ReasmState β).parts[f.idx]? = some none := by
    simp [freshGroup, hidx]
  rw [storePart_empty header hpart]
  by_cases hone : f.total = 1
  · have hzero : f.idx = 0 := by omega
    simp [finish, freshGroup, hone, hzero]
  · simp [finish, freshGroup, Ne.symm hone, hone]

theorem push_marked_new (now : Nat) (host : Bytes) (port : UInt16) (rest : Bytes)
    (hlen : host.length ≤ 255) (hvalid : Valid host) (r : UdpReassembler Bytes) :
    push now .new (encodeUdpAddrHeaderHost host port ++ udpFragMark :: rest) ≠
      some (some (encodeUdpAddrHeaderHost host port ++ udpFragMark :: rest), r) := by
  intro h
  rw [push, pushWith] at h
  cases hparse : parseFrame (encodeUdpAddrHeaderHost host port ++ udpFragMark :: rest) with
  | invalid => simp [hparse, Output.bytes] at h
  | whole => exact parseFrame_marked_ne_whole hlen hvalid hparse
  | fragment f =>
      obtain ⟨htarget, hpart, hidx⟩ := parseFrame_marked hlen hvalid hparse
      rw [hparse] at h
      simp only at h
      split at h
      next => simp at h
      next hok =>
        have hgroup : groupFor (UdpReassembler.new : UdpReassembler Bytes).pending f =
            freshGroup f := by
          simp [groupFor, UdpReassembler.new, freshGroup]
        have hfin := finish_storePart_fresh UdpReassembler.new now f
          ((encodeUdpAddrHeaderHost host port ++ udpFragMark :: rest).take
            (1 + f.target.1.length + 2)) hidx
        simp only [Option.map_some, Option.some.injEq, Prod.mk.injEq] at h
        have hout := h.1
        rw [hgroup] at hout
        simp only [id] at hout
        rw [hfin] at hout
        split at hout
        · have hlength := congrArg (fun o => o.map List.length) hout
          have htake : ((encodeUdpAddrHeaderHost host port ++ udpFragMark :: rest).take
              (1 + f.target.1.length + 2)).length ≤ host.length + 3 := by
            rw [htarget]
            exact Nat.le_trans (List.length_take_le _ _) (by simp only; omega)
          simp only [Output.bytes, Option.map_some, Option.some.injEq, List.length_append,
            List.flatten_cons, List.flatten_nil, List.append_nil, List.length_cons,
              length_header] at hlength
          omega
        · simp [Output.bytes] at hout

/-- A datagram that fits one frame passes the receiver unchanged, in every state the receiver can be
in, exactly when it has a payload that does not start with the fragment mark. -/
theorem small_datagram_unchanged_iff (host : Bytes) (port : UInt16) (payload frame : Bytes)
    (hlen : 1 ≤ host.length ∧ host.length ≤ 255) (hvalid : Valid host)
    (hone : splitUdpFrames (encodeUdpAddrHeaderHost host port) payload = [frame]) :
    (∀ now r, Reachable r → (push now r frame).map (fun p => (p.1, p.2.pending)) =
        some (some (encodeUdpAddrHeaderHost host port ++ payload), r.pending)) ↔
      payload ≠ [] ∧ payload.head? ≠ some udpFragMark := by
  obtain rfl := split_eq_singleton (by omega) hone
  cases payload with
  | nil =>
      refine ⟨fun h => ?_, fun h => absurd rfl h.1⟩
      have hnew := h 0 .new .new
      rw [List.append_nil, push, pushWith, (parseFrame_of_header port [] hlen.2 hvalid 0).1] at hnew
      simp [Output.bytes] at hnew
  | cons mark rest =>
      refine ⟨fun h => ⟨by simp, fun hmark => ?_⟩, fun h now r _ => ?_⟩
      · obtain rfl : mark = udpFragMark := by simpa using hmark
        have hnew := h 0 .new .new
        obtain ⟨⟨out, r⟩, hpush, hout⟩ := Option.map_eq_some_iff.mp hnew
        simp only [Prod.mk.injEq] at hout
        rw [hout.1] at hpush
        exact push_marked_new 0 host port rest hlen.2 hvalid r hpush
      · have hmark : mark ≠ udpFragMark := by simpa using h.2
        rw [push, pushWith, (parseFrame_of_header port rest hlen.2 hvalid mark).2 hmark]
        rfl

theorem small_datagram_unchanged_ascii :
    (push 0 .new (encodeUdpAddrHeaderHost [97] 53 ++ [1])).map (fun p => (p.1, p.2.pending)) =
      some (some (encodeUdpAddrHeaderHost [97] 53 ++ [1]), UdpReassembler.new.pending) :=
  (small_datagram_unchanged_iff [97] 53 [1] _ (by decide) (by decide) rfl).mpr
    (by decide) 0 .new .new

theorem small_datagram_lost :
    splitUdpFrames (encodeUdpAddrHeaderHost [97] 53) [0xFF] =
      [encodeUdpAddrHeaderHost [97] 53 ++ [0xFF]] ∧
      Reachable .new ∧ (push 0 .new (encodeUdpAddrHeaderHost [97] 53 ++ [0xFF])).map Prod.fst =
        some none :=
  ⟨rfl, .new, by decide⟩

end SrtVpn.Reassembly
