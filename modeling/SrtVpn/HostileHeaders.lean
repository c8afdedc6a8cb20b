import SrtVpn.ReassemblyInvariant

namespace SrtVpn.HostileHeaders

open BigEndian Tables Utf8 Utf8Chars Wire UdpFrames Reassembly HostileFragments ReassemblyInvariant

/-- A later fragment whose host is decoded to a text with U+FFFD, as other hosts are, too. -/
def Ambiguous (frame : Bytes) : Prop :=
  ∃ host p0 p1 l0 l1 idx total part, frame = layout host p0 p1 l0 l1 idx total part ∧
    host.length ≤ 255 ∧
    idx ≠ 0 ∧ idx.toNat < total.toNat ∧ ofBytes [l0, l1] ≠ 0 ∧ replacement <:+: fromUtf8Lossy host

/-- Each header that a push of the frame stores or hands out is the address header of the frame. -/
structure HeadersOwn (r : UdpReassembler Bytes) (frame : Bytes) (out : Output Bytes)
    (r' : UdpReassembler Bytes) : Prop where
  stored : ∀ key st', find r'.pending key = some st' → st'.addrHeader = [] ∨
    st'.addrHeader = addressHeader frame ∨ ∃ st, find r.pending key = some st ∧
    st'.addrHeader = st.addrHeader
  first : ∀ f, parseFrame frame = .fragment f → f.idx = 0 →
    ∀ st', find r'.pending f.target = some st' → st'.addrHeader = addressHeader frame
  returned : ∀ header parts, out = .joined header parts → header = addressHeader frame

/-- The push returns, and does so with its own headers only. -/
def PushSafe (now : Nat) (r : UdpReassembler Bytes) (frame : Bytes) : Prop :=
  ∃ out r', pushWith id now r frame = some (out, r') ∧ HeadersOwn r frame out r'

section Reached

variable {frame : Bytes} {f : Fragment Bytes} {r r' : UdpReassembler Bytes} {now : Nat}
  {out : Output Bytes}

theorem pos_of_fragment (h : parseFrame frame = .fragment f) : f.idx < f.total := by
  obtain ⟨host, p0, p1, l0, l1, idx, total, part, -, -, hidx, -, rfl⟩ := layout_of_fragment h
  exact hidx

theorem size_of_wellformed (h : Wellformed r) (hparse : parseFrame frame = .fragment f) :
    (groupFor r.pending f).parts.length = f.total := by
  obtain ⟨hcounted, htotal⟩ :=
    h.groupFor (Nat.lt_of_le_of_lt (Nat.zero_le _) (pos_of_fragment hparse))
  exact hcounted.length.trans htotal

theorem pushWith_fragment_eq (h : Wellformed r) (now : Nat)
    (hparse : parseFrame frame = .fragment f)
    (hfits : f.idx = 0 → 1 + f.target.1.length + 2 ≤ frame.length) :
    pushWith id now r frame = some (finish r now f.target f.total (stored r frame f)) := by
  have hsize := size_of_wellformed h hparse
  have hlt := pos_of_fragment hparse
  rw [pushWith, hparse]
  simp only
  rw [if_neg (by
    rintro (⟨hz, hshort⟩ | hshort)
    · have := hfits hz
      omega
    · omega)]
  rfl

theorem wellformed_pushWith (h : Wellformed r) (hpush : pushWith id now r frame = some (out, r')) :
    Wellformed r' := by
  rcases pushWith_cases hpush with ⟨-, rfl, -⟩ | ⟨f, hparse, -, hfinish⟩
  · exact h
  · obtain ⟨hcounted, htotal⟩ := h.stored hparse
    have hnext :
        Wellformed (finish r now f.target (stored r frame f).totalParts (stored r frame f)).2 :=
      h.finish hcounted now
    rw [htotal] at hnext
    change finish r now f.target f.total (stored r frame f) = (out, r') at hfinish
    rwa [hfinish] at hnext

theorem wellformed_of_reachable (h : Reachable r) : Wellformed r := by
  induction h with
  | new => exact wellformed_new
  | push _ hpush ih =>
      obtain ⟨⟨out, r₁⟩, hwith, heq⟩ := Option.map_eq_some_iff.mp hpush
      obtain rfl := (Prod.mk.inj heq).2
      exact wellformed_pushWith ih hwith
  | cleanup now _ ih => exact ih.cleanup now

theorem header_stored (r : UdpReassembler Bytes) (frame : Bytes) (f : Fragment Bytes) :
    (stored r frame f).addrHeader =
    if f.idx = 0 then frame.take (1 + f.target.1.length + 2)
    else (groupFor r.pending f).addrHeader :=
  (storePart_header _ _ _).1

theorem header_groupFor (r : UdpReassembler Bytes) (f : Fragment Bytes) :
    (groupFor r.pending f).addrHeader = [] ∨
    ∃ st, find r.pending f.target = some st ∧
    (groupFor r.pending f).addrHeader = st.addrHeader := by
  rcases groupFor_cases r.pending f with hnew | ⟨st, hfind, hsame, -⟩
  · rw [hnew]
    exact Or.inl rfl
  · exact Or.inr ⟨st, hfind, by rw [hsame]⟩

end Reached

/-- Under a host without U+FFFD only its own header is kept. -/
def Genuine (r : UdpReassembler Bytes) : Prop :=
  ∀ key st, find r.pending key = some st → ¬ replacement <:+: key.1 →
    st.addrHeader = [] ∨ st.addrHeader = encodeUdpAddrHeaderHost key.1 key.2

section Safe

variable {frame : Bytes} {f : Fragment Bytes} {r r' : UdpReassembler Bytes} {now : Nat}
  {out : Output Bytes}

theorem Genuine.stored (h : Genuine r) (hparse : parseFrame frame = .fragment f)
    (hplain : ¬ replacement <:+: f.target.1) :
    (stored r frame f).addrHeader = [] ∨
    (stored r frame f).addrHeader = encodeUdpAddrHeaderHost f.target.1 f.target.2 := by
  rw [header_stored]
  split
  next hz =>
    obtain ⟨hheader, hlen⟩ := addressHeader_of_plain hparse hplain
    rw [hlen]
    exact Or.inr hheader
  next =>
    rcases header_groupFor r f with hnil | ⟨st, hfind, hsame⟩
    · exact Or.inl hnil
    · rw [hsame]
      exact h _ st hfind hplain

theorem Genuine.pushWith (h : Genuine r) (hpush : pushWith id now r frame = some (out, r')) :
    Genuine r' := by
  rcases pushWith_cases hpush with ⟨-, rfl, -⟩ | ⟨f, hparse, -, hfinish⟩
  · exact h
  · change finish r now f.target f.total (ReassemblyInvariant.stored r frame f) =
        (out, r') at hfinish
    intro key st hst hplain
    rcases finish_cases hfinish with ⟨-, hp⟩ | ⟨parts, -, -, -, hp⟩
    · rw [hp, find_insert] at hst
      split at hst
      next hkey =>
        obtain rfl := Option.some.inj hst
        rw [hkey] at hplain ⊢
        exact h.stored hparse hplain
      next => exact h key st hst hplain
    · rw [hp, find_erase] at hst
      split at hst
      · cases hst
      · exact h key st hst hplain

theorem genuine_of_reachable (h : Reachable r) : Genuine r := by
  induction h with
  | new =>
      intro key st hst
      simp [UdpReassembler.new] at hst
  | push _ hpush ih =>
      obtain ⟨⟨out, r₁⟩, hwith, heq⟩ := Option.map_eq_some_iff.mp hpush
      obtain rfl := (Prod.mk.inj heq).2
      exact ih.pushWith hwith
  | cleanup now _ ih => exact fun key st hst => ih key st (find_cleanupExpired hst)

theorem plain_of_fragment (hparse : parseFrame frame = .fragment f) (hlater : f.idx ≠ 0)
    (h : ¬ Ambiguous frame) : ¬ replacement <:+: f.target.1 := by
  obtain ⟨host, p0, p1, l0, l1, idx, total, part, hlen, rfl, hidx, hne, rfl⟩ :=
    layout_of_fragment hparse
  intro hreplaced
  refine h ⟨host, p0, p1, l0, l1, idx, total, part, rfl, hlen, ?_, hidx, hne, hreplaced⟩
  rintro rfl
  exact hlater rfl

theorem complete_header (hr : Reachable r) (hparse : parseFrame frame = .fragment f)
    (hfirst : f.idx = 0 →
    (stored r frame f).addrHeader = addressHeader frame) (hamb : ¬ Ambiguous frame)
    {parts : List Bytes}
    (hparts : (stored r frame f).parts = parts.map some) :
    (stored r frame f).addrHeader = addressHeader frame := by
  by_cases hz : f.idx = 0
  · exact hfirst hz
  · have hplain := plain_of_fragment hparse hz hamb
    obtain ⟨hcounted, htotal⟩ := (wellformed_of_reachable hr).stored hparse
    have hpos : 0 < parts.length := by
      have hlen := hcounted.length
      have hone := hcounted.pos
      rw [hparts, List.length_map] at hlen
      omega
    -- its first part is there, so a header is
    have hne : (stored r frame f).addrHeader ≠ [] := by
      apply hcounted.header.mpr
      exact ⟨parts[0],
        by rw [hparts, List.getElem?_map, List.getElem?_eq_getElem hpos, Option.map_some]⟩
    rw [((genuine_of_reachable hr).stored hparse hplain).resolve_left hne,
      (addressHeader_of_plain hparse hplain).1]

theorem push_safe (hr : Reachable r) (now : Nat) (hswollen : ¬ Swollen frame)
    (hamb : ¬ Ambiguous frame) : PushSafe now r frame := by
  have hwell := wellformed_of_reachable hr
  obtain ⟨out, r', hpush⟩ :=
    pushWith_returns hswollen now fun f hparse => size_of_wellformed hwell hparse
  refine ⟨out, r', hpush, ?_⟩
  rcases pushWith_cases hpush with ⟨hnone, rfl, hout⟩ | ⟨f, hparse, -, hfinish⟩
  · exact ⟨fun key st hst => Or.inr (Or.inr ⟨st, hst, rfl⟩), fun f hf => absurd hf (hnone f),
      fun header parts hj => absurd hj (hout header parts)⟩
  · change finish r now f.target f.total (stored r frame f) = (out, r') at hfinish
    have hfirst : f.idx = 0 → (stored r frame f).addrHeader = addressHeader frame := by
      intro hz
      have hhost : f.target.1.length = hostLen frame :=
        Classical.not_not.mp fun hne => hswollen ((header_of_first hparse).2.2 hz hne)
      rw [header_stored, if_pos hz, hhost, addressHeader]
    rcases finish_cases hfinish with ⟨hout, hp⟩ | ⟨parts, -, hparts, hout, hp⟩
    · refine ⟨fun key st' hst' => ?_, fun f' hf' hz st' hst' => ?_,
        fun header parts hj => by rw [hout] at hj; cases hj⟩
      · rw [hp, find_insert] at hst'
        split at hst'
        next hkey =>
          obtain rfl := Option.some.inj hst'
          by_cases hz : f.idx = 0
          · exact Or.inr (Or.inl (hfirst hz))
          · rw [header_stored, if_neg hz, hkey]
            exact (header_groupFor r f).imp_right Or.inr
        next => exact Or.inr (Or.inr ⟨st', hst', rfl⟩)
      · obtain rfl := Parsed.fragment.inj (hparse.symm.trans hf')
        rw [hp, find_insert_self] at hst'
        obtain rfl := Option.some.inj hst'
        exact hfirst hz
    · refine ⟨fun key st' hst' => ?_, fun f' hf' hz st' hst' => ?_, fun header parts' hj => ?_⟩
      · rw [hp, find_erase] at hst'
        split at hst'
        · cases hst'
        · exact Or.inr (Or.inr ⟨st', hst', rfl⟩)
      · obtain rfl := Parsed.fragment.inj (hparse.symm.trans hf')
        rw [hp, find_erase, if_pos rfl] at hst'
        cases hst'
      · rw [hout, Output.joined.injEq] at hj
        rw [← hj.1]
        exact complete_header hr hparse hfirst hamb hparts

end Safe

section Unsafe

variable {frame : Bytes} {f : Fragment Bytes} {r r' : UdpReassembler Bytes} {now : Nat}
  {out : Output Bytes}

theorem swollen_unsafe (hframe : Swollen frame) (now : Nat) (r : UdpReassembler Bytes) :
    ¬ PushSafe now r frame := by
  rintro ⟨out, r', hpush, hown⟩
  obtain ⟨f, hparse, hz, hlong⟩ := fragment_of_swollen hframe
  rcases pushWith_cases hpush with ⟨hnone, -⟩ | ⟨f', hparse', hfits, hfinish⟩
  · exact hnone f hparse
  obtain rfl := Parsed.fragment.inj (hparse.symm.trans hparse')
  have hlen := hfits hz
  change finish r now f.target f.total (stored r frame f) = (out, r') at hfinish
  have hheader : (stored r frame f).addrHeader ≠ addressHeader frame := by
    rw [header_stored, if_pos hz]
    intro heq
    have hcount := congrArg List.length heq
    rw [addressHeader, List.length_take_of_le hlen, List.length_take_of_le (by omega)] at hcount
    omega
  rcases finish_cases hfinish with ⟨-, hp⟩ | ⟨parts, -, -, hout, -⟩
  · exact hheader (hown.first f hparse hz _ (by rw [hp, find_insert_self]))
  · exact hheader (hown.returned _ parts hout)

end Unsafe

/-- The group of the fragment keeps the header and all parts before the `n`-th, but the fragment's
own. -/
structure Lacking (f : Fragment Bytes) (header : Bytes) (n : Nat) (st : ReasmState Bytes) :
    Prop where
  totalLen : st.totalLen = f.totalLen
  totalParts : st.totalParts = f.total
  header : st.addrHeader = header
  own : st.parts[f.idx]? = some none
  others : ∀ k < n, k ≠ f.idx → ∃ p, st.parts[k]? = some (some p)

section Filling

variable {f g : Fragment Bytes} {header : Bytes} {st : ReasmState Bytes}
  {r : UdpReassembler Bytes} {n : Nat}

theorem Lacking.groupFor (h : Lacking f header n st) (hfind : find r.pending f.target = some st)
    (htarget : g.target = f.target) (hlen : g.totalLen = f.totalLen) (htotal : g.total = f.total) :
    groupFor r.pending g = st := by
  rw [Reassembly.groupFor, htarget, hfind, Option.getD_some, hlen, htotal]
  exact if_neg (not_or.mpr ⟨not_not.mpr h.totalLen, not_not.mpr h.totalParts⟩)

theorem Lacking.incomplete (h : Lacking f header n st) (hcounted : Counted st) :
    st.received ≠ f.total := by
  rw [hcounted.received, ← h.totalParts, ← hcounted.length]
  intro hall
  have hsome := List.countP_eq_length.mp hall none (List.mem_of_getElem? h.own)
  cases hsome

theorem Lacking.store (h : Lacking f header n st) (hcounted : Counted st) (hg : g.idx = n)
    (hpos : n ≠ 0) (hne : n ≠ f.idx) (hlt : n < f.total) (cut : Bytes) :
    Lacking f header (n + 1) (storePart st g cut) := by
  have hbound : n < st.parts.length := by
    rw [hcounted.length, h.totalParts]
    exact hlt
  by_cases hnone : st.parts[g.idx]? = some none
  · rw [storePart_empty cut hnone, hg, if_neg hpos]
    refine ⟨h.totalLen, h.totalParts, h.header, ?_, fun k hk hkne => ?_⟩
    · rw [List.getElem?_set_ne hne]
      exact h.own
    · by_cases hkn : k = n
      · exact ⟨g.part, by rw [hkn, List.getElem?_set_self hbound]⟩
      · rw [List.getElem?_set_ne (Ne.symm hkn)]
        exact h.others k (by omega) hkne
  · rw [storePart_filled cut hnone, hg, if_neg hpos]
    refine ⟨h.totalLen, h.totalParts, h.header, h.own, fun k hk hkne => ?_⟩
    by_cases hkn : k = n
    · rw [hg, List.getElem?_eq_getElem hbound] at hnone
      have hsome : st.parts[n] ≠ none := fun hslot => hnone (congrArg some hslot)
      obtain ⟨p, hp⟩ := Option.ne_none_iff_exists'.mp hsome
      exact ⟨p, by rw [hkn, List.getElem?_eq_getElem hbound, hp]⟩
    · exact h.others k (by omega) hkne

end Filling

/-- A state from which the fragment completes a group under the header. -/
def Prepared (f : Fragment Bytes) (header : Bytes) (n : Nat) : Prop :=
  ∃ r st, Reachable r ∧ find r.pending f.target = some st ∧ Lacking f header n st

section Prepare

variable {host : Bytes} {p0 p1 l0 l1 idx total : UInt8} {part frame header : Bytes}
  {f : Fragment Bytes} {n : Nat}

theorem reachable_pushWith {r r' : UdpReassembler Bytes} {now : Nat} {out : Output Bytes}
    (h : Reachable r) (hpush : pushWith id now r frame = some (out, r')) : Reachable r' := by
  have hbytes : push now r frame = some (out.bytes frame, r') := by
    rw [push, hpush]
    rfl
  exact h.push hbytes

theorem prepared_one {g : Fragment Bytes} (hparse : parseFrame frame = .fragment g) (hz : g.idx = 0)
    (hfits : 1 + g.target.1.length + 2 ≤ frame.length) (htarget : g.target = f.target)
    (hlen : g.totalLen = f.totalLen)
    (htotal : g.total = f.total) (hidx : f.idx ≠ 0) (hlt : f.idx < f.total) :
    Prepared f (frame.take (1 + g.target.1.length + 2)) 1 := by
  have hgroup : groupFor (UdpReassembler.new : UdpReassembler Bytes).pending g = freshGroup g := by
    simp [groupFor, UdpReassembler.new, freshGroup]
  have hnone : (freshGroup g : ReasmState Bytes).parts[g.idx]? = some none := by
    rw [freshGroup, List.getElem?_replicate, if_pos (by omega)]
  have hstored : stored .new frame g = { (freshGroup g : ReasmState Bytes) with
      parts := (freshGroup g : ReasmState Bytes).parts.set g.idx (some g.part)
      received := (freshGroup g : ReasmState Bytes).received + 1
      addrHeader := frame.take (1 + g.target.1.length + 2) } := by
    rw [stored, hgroup, storePart_empty _ hnone, if_pos hz]
  have hlack : Lacking f (frame.take (1 + g.target.1.length + 2)) 1 (stored .new frame g) := by
    rw [hstored]
    refine ⟨hlen, htotal, rfl, ?_, fun k hk hne => ⟨g.part, ?_⟩⟩
    · rw [List.getElem?_set_ne (by omega), freshGroup, List.getElem?_replicate, if_pos (by omega)]
    · obtain rfl : k = 0 := by omega
      rw [hz, List.getElem?_set_self (by rw [freshGroup, List.length_replicate]; omega)]
  have hcounted := (wellformed_new.stored hparse).1
  have hpush := pushWith_fragment_eq wellformed_new 0 hparse fun _ => hfits
  rw [finish_incomplete _ 0 _ (htotal.symm ▸ hlack.incomplete hcounted)] at hpush
  refine ⟨_, stored .new frame g, reachable_pushWith .new hpush, ?_, hlack⟩
  rw [← htarget]
  exact find_insert_self _ _ _

theorem Prepared.next (h : Prepared f header n) (hlen : host.length ≤ 255)
    (hne : ofBytes [l0, l1] ≠ 0)
    (hf : f.target = (fromUtf8Lossy host, UInt16.ofNat (ofBytes [p0, p1])) ∧
      f.totalLen = ofBytes [l0, l1] ∧
      f.total = total.toNat) (hpos : n ≠ 0) (hlt : n < f.total) : Prepared f header (n + 1) := by
  obtain ⟨r, st, hr, hfind, hlack⟩ := h
  by_cases hown : n = f.idx
  · exact ⟨r, st, hr, hfind, hlack.totalLen, hlack.totalParts, hlack.header, hlack.own,
      fun k hk hk' =>
      hlack.others k (by omega) hk'⟩
  have hbyte : (UInt8.ofNat n).toNat = n := by
    have hsmall := total.toNat_lt
    rw [UInt8.toNat_ofNat', Nat.mod_eq_of_lt (by omega)]
  have hparse : parseFrame (layout host p0 p1 l0 l1 (UInt8.ofNat n) total []) =
      .fragment ⟨(fromUtf8Lossy host, UInt16.ofNat (ofBytes [p0, p1])), ofBytes [l0, l1],
        (UInt8.ofNat n).toNat, total.toNat, []⟩ :=
    parseFrame_layout hlen (by rw [hbyte]; omega) hne
  rw [hbyte] at hparse
  generalize layout host p0 p1 l0 l1 (UInt8.ofNat n) total [] = later at hparse
  generalize hg :
      (⟨(fromUtf8Lossy host, UInt16.ofNat (ofBytes [p0, p1])), ofBytes [l0, l1], n,
        total.toNat, []⟩ :
    Fragment Bytes) = g at hparse
  have htarget : g.target = f.target := by rw [← hg, hf.1]
  have hlength : g.totalLen = f.totalLen := by rw [← hg, hf.2.1]
  have htotal : g.total = f.total := by rw [← hg, hf.2.2]
  have hidx : g.idx = n := by rw [← hg]
  have hwell := wellformed_of_reachable hr
  have hgroup := hlack.groupFor hfind htarget hlength htotal
  have hnext : Lacking f header (n + 1) (stored r later g) := by
    rw [stored, hgroup]
    exact hlack.store (hwell.groups _ _ hfind).toCounted hidx hpos hown hlt _
  have hpush := pushWith_fragment_eq hwell 0 hparse fun hz => absurd (hidx.symm.trans hz) hpos
  rw [finish_incomplete _ 0 _ (htotal.symm ▸ hnext.incomplete (hwell.stored hparse).1)] at hpush
  refine ⟨_, stored r later g, reachable_pushWith hr hpush, ?_, hnext⟩
  rw [← htarget]
  exact find_insert_self _ _ _

theorem Prepared.all (h : Prepared f header 1) (hlen : host.length ≤ 255)
    (hne : ofBytes [l0, l1] ≠ 0)
    (hf : f.target = (fromUtf8Lossy host, UInt16.ofNat (ofBytes [p0, p1])) ∧
      f.totalLen = ofBytes [l0, l1] ∧
      f.total = total.toNat) : ∀ m, m < f.total → Prepared f header (m + 1)
  | 0, _ => h
  | m + 1, hm => (h.all hlen hne hf m (by omega)).next hlen hne hf (by omega) hm

theorem Prepared.joins (h : Prepared f header f.total) (hparse : parseFrame frame = .fragment f)
    (hidx : f.idx ≠ 0) (now : Nat) :
    ∃ r parts r', Reachable r ∧ pushWith id now r frame = some (.joined header parts, r') := by
  obtain ⟨r, st, hr, hfind, hlack⟩ := h
  have hwell := wellformed_of_reachable hr
  obtain ⟨hcounted, htotal⟩ := hwell.stored hparse
  have hgroup := hlack.groupFor hfind rfl rfl rfl
  have hstored : stored r frame f =
      { st with parts := st.parts.set f.idx (some f.part), received := st.received + 1 } := by
    rw [stored, hgroup, storePart_empty _ hlack.own, if_neg hidx]
  have hlength : st.parts.length = f.total := (hwell.groups _ _ hfind).length.trans hlack.totalParts
  have hall : (stored r frame f).received = f.total := by
    rw [hcounted.received, ← htotal, ← hcounted.length, List.countP_eq_length, hstored]
    intro slot hslot
    obtain ⟨k, hk, rfl⟩ := List.getElem_of_mem hslot
    simp only [List.length_set] at hk
    by_cases hown : k = f.idx
    · simp [hown]
    · obtain ⟨p, hp⟩ := hlack.others k (by omega) hown
      rw [List.getElem?_eq_getElem hk] at hp
      rw [List.getElem_set_ne (Ne.symm hown), Option.some.inj hp]
      rfl
  obtain ⟨parts, hparts⟩ := hcounted.complete (hall.trans htotal.symm)
  have hpush := pushWith_fragment_eq hwell now hparse fun hz => absurd hz hidx
  rw [finish_complete _ now _ hall hparts, header_stored, if_neg hidx, hgroup,
    hlack.header] at hpush
  exact ⟨r, parts, _, hr, hpush⟩

end Prepare

section Wrong

variable {host : Bytes} {frame : Bytes}

theorem exists_first (hlen : host.length ≤ 255) (hreplaced : replacement <:+: fromUtf8Lossy host)
    (p0 p1 l0 l1 total : UInt8) :
    ∃ host' part, host'.length ≤ 255 ∧ fromUtf8Lossy host' = fromUtf8Lossy host ∧
      1 + (fromUtf8Lossy host).length + 2 ≤ (layout host' p0 p1 l0 l1 0 total part).length ∧
      (layout host' p0 p1 l0 l1 0 total part).take (1 + (fromUtf8Lossy host).length + 2) ≠
        UInt8.ofNat host.length :: (host ++ [p0, p1]) := by
  by_cases hkept : (fromUtf8Lossy host).length = host.length
  · -- another host that is decoded to the same text
    obtain ⟨other, hne, hother, hsame⟩ := exists_twin hreplaced hkept
    have hlen' : other.length ≤ 255 := by omega
    refine ⟨other, [], hlen', hsame,
      by simp only [layout, List.length_cons, List.length_append]; omega, ?_⟩
    have hheader : addressHeader (layout other p0 p1 l0 l1 0 total []) =
        UInt8.ofNat other.length :: (other ++ [p0, p1]) :=
      addressHeader_layout hlen'
    rw [addressHeader, hostLen_layout hlen', hother, ← hkept] at hheader
    rw [hheader]
    intro heq
    exact hne (List.append_cancel_right (List.cons.inj heq).2)
  · -- the host itself, of which more is kept than its header
    have hlong : 1 + (fromUtf8Lossy host).length + 2 ≤
        (layout host p0 p1 l0 l1 0 total (fromUtf8Lossy host)).length := by
      simp only [layout, List.length_cons, List.length_append]
      omega
    refine ⟨host, fromUtf8Lossy host, hlen, rfl, hlong, fun heq => hkept ?_⟩
    have hcount := congrArg List.length heq
    rw [List.length_take_of_le hlong, List.length_cons, List.length_append] at hcount
    simp only [List.length_cons, List.length_nil] at hcount
    omega

theorem ambiguous_unsafe (h : Ambiguous frame) (now : Nat) :
    ∃ r, Reachable r ∧ ¬ PushSafe now r frame := by
  obtain ⟨host, p0, p1, l0, l1, idx, total, part, rfl, hlen, hlater, hidx, hne, hreplaced⟩ := h
  have hz : idx.toNat ≠ 0 := fun heq => hlater (UInt8.toNat_inj.mp heq)
  have hparse : parseFrame (layout host p0 p1 l0 l1 idx total part) =
      .fragment ⟨(fromUtf8Lossy host, UInt16.ofNat (ofBytes [p0, p1])), ofBytes [l0, l1], idx.toNat,
        total.toNat, part⟩ :=
    parseFrame_layout hlen hidx hne
  obtain ⟨host', part', hlen', hsame, hfits, hwrong⟩ :=
    exists_first hlen hreplaced p0 p1 l0 l1 total
  have hfirst : parseFrame (layout host' p0 p1 l0 l1 0 total part') =
      .fragment ⟨(fromUtf8Lossy host', UInt16.ofNat (ofBytes [p0, p1])), ofBytes [l0, l1], 0,
        total.toNat, part'⟩ :=
    parseFrame_layout hlen' (Nat.lt_of_le_of_lt (Nat.zero_le _) hidx) hne
  rw [hsame] at hfirst
  have hone := prepared_one hfirst rfl hfits rfl rfl rfl hz hidx (f := ⟨_, _, _, _, part⟩)
  have hall := hone.all hlen hne ⟨rfl, rfl, rfl⟩ (total.toNat - 1) (by simp only; omega)
  rw [show total.toNat - 1 + 1 = total.toNat by omega] at hall
  obtain ⟨r, parts, r', hr, hpush⟩ := Prepared.joins hall hparse hz now
  refine ⟨r, hr, ?_⟩
  rintro ⟨out, r₁, hpush', hown⟩
  obtain ⟨rfl, -⟩ := Prod.mk.inj (Option.some.inj (hpush.symm.trans hpush'))
  refine hwrong ((hown.returned _ parts rfl).trans ?_)
  exact addressHeader_layout hlen

end Wrong

/-- In every state that the peer can bring about, a push returns, and stores and hands out its own
header only, exactly for the frames that are of neither kind. -/
theorem hostile_push_safe_iff (frame : Bytes) : (∀ r, Reachable r → ∀ now, PushSafe now r frame) ↔
    ¬ Swollen frame ∧ ¬ Ambiguous frame := by
  constructor
  · intro hsafe
    refine ⟨fun hswollen => swollen_unsafe hswollen 0 .new (hsafe .new .new 0), fun hamb => ?_⟩
    obtain ⟨r, hr, hunsafe⟩ := ambiguous_unsafe hamb 0
    exact hunsafe (hsafe r hr 0)
  · rintro ⟨hswollen, hamb⟩ r hr now
    exact push_safe hr now hswollen hamb

end SrtVpn.HostileHeaders
