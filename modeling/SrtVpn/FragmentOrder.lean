import SrtVpn.HostileFragments

namespace SrtVpn.FragmentOrder

open BigEndian Tables Utf8 Wire UdpFrames Reassembly Splicing HostileFragments

def isOwn (target : Target) (frame : Bytes) : Bool :=
  match parseFrame frame with
  | .fragment f => f.target = target
  | _ => false

def idxOf (frame : Bytes) : Nat :=
  match parseFrame frame with
  | .fragment f => f.idx
  | _ => 0

def own (target : Target) (pushes : List (Nat × Bytes)) : List Bytes :=
  (pushes.map Prod.snd).filter (isOwn target)

def pushAll (r : UdpReassembler Bytes) (pushes : List (Nat × Bytes)) :
    Option (UdpReassembler Bytes) :=
  pushes.foldlM (fun r p => (push p.1 r p.2).map Prod.snd) r

theorem own_append (target : Target) (before after : List (Nat × Bytes)) :
    own target (before ++ after) = own target before ++ own target after := by
  rw [own, List.map_append, List.filter_append]
  rfl

theorem own_cons (target : Target) (p : Nat × Bytes) (pushes : List (Nat × Bytes)) :
    own target (p :: pushes) =
      if isOwn target p.2 then p.2 :: own target pushes else own target pushes := by
  rw [own, List.map_cons, List.filter_cons]
  rfl

theorem pushAll_cons {r r' : UdpReassembler Bytes} {p : Nat × Bytes} {pushes : List (Nat × Bytes)}
    (h : pushAll r (p :: pushes) = some r') :
    ∃ out r₁, push p.1 r p.2 = some (out, r₁) ∧ pushAll r₁ pushes = some r' := by
  rw [pushAll, List.foldlM_cons] at h
  obtain ⟨r₁, hr₁, hrest⟩ := Option.bind_eq_some_iff.mp h
  obtain ⟨⟨out, r₂⟩, hpush, rfl⟩ := Option.map_eq_some_iff.mp hr₁
  exact ⟨out, r₂, hpush, hrest⟩

theorem pushAll_append {r r' : UdpReassembler Bytes} {before after : List (Nat × Bytes)}
    (h : pushAll r (before ++ after) = some r') :
    ∃ r₁, pushAll r before = some r₁ ∧ pushAll r₁ after = some r' := by
  rw [pushAll, List.foldlM_append] at h
  exact Option.bind_eq_some_iff.mp h

theorem exists_last_own {target : Target} {pushes : List (Nat × Bytes)}
    (h : own target pushes ≠ []) :
    ∃ before p after, pushes = before ++ p :: after ∧ isOwn target p.2 = true ∧
    own target after = [] := by
  induction pushes with
  | nil => exact absurd rfl h
  | cons p pushes ih =>
      by_cases hrest : own target pushes = []
      · rw [own_cons, hrest] at h
        refine ⟨[], p, pushes, rfl, ?_, hrest⟩
        by_contra hp
        exact h (if_neg hp)
      · obtain ⟨before, q, after, rfl, hq, hafter⟩ := ih hrest
        exact ⟨p :: before, q, after, rfl, hq, hafter⟩

section Foreign

variable {target : Target} {frame : Bytes} {r r' : UdpReassembler Bytes} {now : Nat}
  {out : Option Bytes}

theorem find_finish {key : Target} (r : UdpReassembler Bytes) (now total : Nat)
    (st : ReasmState Bytes) (h : target ≠ key) :
    find (finish r now key total st).2.pending target = find r.pending target ∧
      find (finish r now key total st).2.createdAt target = find r.createdAt target := by
  have hcreated : find
      (if (find r.pending key).isNone then r.createdAt.insert key now else r.createdAt) target =
      find r.createdAt target := by
    split
    · rw [find_insert, if_neg h]
    · rfl
  simp only [finish]
  split
  · split
    · simp only [find_erase, if_neg h]
      exact ⟨trivial, hcreated⟩
    · simp only [find_insert, if_neg h]
      exact ⟨trivial, hcreated⟩
  · simp only [find_insert, if_neg h]
    exact ⟨trivial, hcreated⟩

theorem push_foreign (hframe : isOwn target frame = false)
    (hpush : push now r frame = some (out, r')) :
    find r'.pending target = find r.pending target ∧
    find r'.createdAt target = find r.createdAt target := by
  obtain ⟨⟨o, r₁⟩, hwith, heq⟩ := Option.map_eq_some_iff.mp hpush
  obtain rfl : r₁ = r' := (Prod.mk.inj heq).2
  rcases pushWith_cases hwith with ⟨-, rfl, -⟩ | ⟨f, hparse, -, hfinish⟩
  · exact ⟨rfl, rfl⟩
  · have hne : target ≠ f.target := by
      intro h
      simp [isOwn, hparse, h] at hframe
    have hfind := find_finish r now f.total (storePart (groupFor r.pending f) f
      (frame.take (1 + f.target.1.length + 2))) hne
    rw [hfinish] at hfind
    exact hfind

end Foreign

/-- The group of a datagram of which the fragments `got` have arrived. -/
structure Filled (d : Datagram) (got : List Nat) (st : ReasmState Bytes) : Prop where
  totalLen : st.totalLen = d.payload.length
  totalParts : st.totalParts = d.count
  parts : st.parts = (List.range d.count).map fun k => if k ∈ got then some (d.chunk k) else none
  received : st.received = got.length
  header : 0 ∈ got → st.addrHeader = d.header

/-- The next fragment of the datagram finds a group that holds the fragments `got`. -/
def Waiting (d : Datagram) (got : List Nat) (r : UdpReassembler Bytes) : Prop :=
  ∀ k, Filled d got (groupFor r.pending (d.toFragment k))

def Gone (d : Datagram) (r : UdpReassembler Bytes) : Prop :=
  find r.pending d.target = none ∧ find r.createdAt d.target = none

section Steps

variable {d : Datagram} {got : List Nat} {k : Nat} {r r' : UdpReassembler Bytes}
  {st : ReasmState Bytes}

theorem filled_fresh : Filled d [] (freshGroup (d.toFragment k) : ReasmState Bytes) := by
  refine ⟨rfl, rfl, ?_, rfl, by simp⟩
  simp [freshGroup, Datagram.toFragment, List.map_const']

theorem waiting_nil (h : find r.pending d.target = none) : Waiting d [] r := by
  intro k
  have hgroup : groupFor r.pending (d.toFragment k) =
      (freshGroup (d.toFragment k) : ReasmState Bytes) := by
    simp only [groupFor]
    rw [show (d.toFragment k).target = d.target from rfl, h, Option.getD_none]
    split <;> rfl
  rw [hgroup]
  exact filled_fresh

theorem waiting_of_find (h : find r.pending d.target = some st) (hst : Filled d got st) :
    Waiting d got r := by
  intro k
  have hgroup : groupFor r.pending (d.toFragment k) = st := by
    simp only [groupFor]
    rw [show (d.toFragment k).target = d.target from rfl, h, Option.getD_some]
    apply if_neg
    rintro (hne | hne)
    · exact hne hst.totalLen
    · exact hne hst.totalParts
  rw [hgroup]
  exact hst

theorem Filled.store (h : Filled d got st) (hk : k < d.count) (hnew : k ∉ got) :
    Filled d (got ++ [k]) (storePart st (d.toFragment k) d.header) := by
  have hslot : st.parts[k]? = some none := by
    rw [h.parts, List.getElem?_map, List.getElem?_range hk, Option.map_some, if_neg hnew]
  rw [storePart_empty d.header hslot]
  refine ⟨h.totalLen, h.totalParts, ?_, by simp [h.received], fun hz => ?_⟩
  · apply List.ext_getElem?
    intro j
    simp only [h.parts, Datagram.toFragment, List.getElem?_set, List.length_map, List.length_range,
      List.getElem?_map]
    by_cases hlt : j < d.count
    · by_cases hj : k = j
      · subst hj
        simp [hk]
      · simp [hj, Ne.symm hj, hlt]
    · rw [List.getElem?_eq_none (by simpa using hlt), if_neg (by omega)]
      rfl
  · by_cases hzero : k = 0
    · simp [Datagram.toFragment, hzero]
    · have hmem : 0 ∈ got := by
        rcases List.mem_append.mp hz with hmem | hlast
        · exact hmem
        · exact absurd (List.mem_singleton.mp hlast).symm hzero
      simp [Datagram.toFragment, hzero, h.header hmem]

theorem mapM_id_map_some {β : Type} (ps : List β) : (ps.map some).mapM id = some ps := by
  induction ps with
  | nil => rfl
  | cons p ps ih =>
      rw [List.map_cons, List.mapM_cons, ih]
      rfl

theorem Filled.all (h : Filled d got st) (hall : ∀ j < d.count, j ∈ got) :
    st.parts.mapM id = some ((List.range d.count).map d.chunk) := by
  have hparts : st.parts = ((List.range d.count).map d.chunk).map some := by
    rw [h.parts, List.map_map]
    apply List.map_congr_left
    intro j hj
    rw [if_pos (hall j (List.mem_range.mp hj))]
    rfl
  rw [hparts, mapM_id_map_some]

theorem push_fragment (h : Waiting d got r) (hhost : d.host.length ≤ 255) (hk : k < d.count)
    (now : Nat) : push now r (fragment d.header d.payload d.count k) =
      some ((finish r now d.target d.count
        (storePart (groupFor r.pending (d.toFragment k)) (d.toFragment k) d.header)).1.bytes
          (fragment d.header d.payload d.count k),
        (finish r now d.target d.count
          (storePart (groupFor r.pending (d.toFragment k)) (d.toFragment k) d.header)).2) := by
  have hroom : (groupFor r.pending (d.toFragment k) : ReasmState Bytes).parts.length = d.count := by
    rw [(h k).parts, List.length_map, List.length_range]
  rw [push, pushWith_fragment id now hhost hk hroom]
  rfl

theorem push_more (h : Waiting d got r) (hhost : d.host.length ≤ 255) (hk : k < d.count)
    (hnew : k ∉ got) (hmore : got.length + 1 < d.count) (now : Nat) :
    ∃ r', push now r (fragment d.header d.payload d.count k) = some (none, r') ∧
    Waiting d (got ++ [k]) r' := by
  have hst := (h k).store hk hnew
  have hreceived := hst.received
  rw [push_fragment h hhost hk now]
  generalize storePart (groupFor r.pending (d.toFragment k)) (d.toFragment k) d.header =
      st at hst hreceived
  rw [List.length_append, List.length_singleton] at hreceived
  rw [finish, if_neg (by omega)]
  exact ⟨_, rfl, waiting_of_find (find_insert_self _ _ _) hst⟩

theorem push_last (h : Waiting d got r) (hhost : d.host.length ≤ 255) (hk : k < d.count)
    (hnew : k ∉ got) (hall : (got ++ [k]).Perm (List.range d.count)) (now : Nat) :
    ∃ r', push now r (fragment d.header d.payload d.count k) =
      some (some (d.header ++ d.payload), r') ∧ Gone d r' := by
  have hst := (h k).store hk hnew
  have hreceived :
      (storePart (groupFor r.pending (d.toFragment k)) (d.toFragment k) d.header).received =
        d.count := by
    rw [hst.received, hall.length_eq, List.length_range]
  have hmem : ∀ j < d.count, j ∈ got ++ [k] := fun j hj => hall.mem_iff.mpr (List.mem_range.mpr hj)
  have hparts := hst.all hmem
  have hheader := hst.header (hmem 0 (by omega))
  rw [push_fragment h hhost hk now]
  generalize storePart (groupFor r.pending (d.toFragment k)) (d.toFragment k) d.header =
      st at hreceived hparts hheader
  simp only [finish]
  rw [if_pos hreceived, hparts, hheader]
  refine ⟨_, by rw [Output.bytes, d.flatten_chunks], ?_, ?_⟩
  · rw [find_erase, if_pos rfl]
  · rw [find_erase, if_pos rfl]

theorem mem_frames {frame : Bytes} (hhost : d.host.length ≤ 255) (h : frame ∈ d.frames) :
    idxOf frame < d.count ∧ frame = fragment d.header d.payload d.count (idxOf frame) ∧
    isOwn d.target frame = true := by
  obtain ⟨k, hk⟩ := List.getElem?_of_mem h
  rw [d.getElem?_frames] at hk
  split at hk
  next hlt =>
    obtain rfl := Option.some.inj hk
    have hparse := d.parseFrame_fragment hhost hlt
    simp [idxOf, isOwn, hparse, hlt]
  next => simp at hk

theorem idxOf_frames (hhost : d.host.length ≤ 255) : d.frames.map idxOf = List.range d.count := by
  apply List.ext_getElem?
  intro k
  rw [List.getElem?_map, d.getElem?_frames]
  split
  next hlt =>
    rw [Option.map_some, idxOf, d.parseFrame_fragment hhost hlt, List.getElem?_range hlt]
  next hlt => rw [Option.map_none, List.getElem?_eq_none (by simpa using hlt)]

end Steps

section Runs

variable {d : Datagram} {got : List Nat} {r r' : UdpReassembler Bytes}

theorem Waiting.foreign (h : Waiting d got r) {frame : Bytes} {now : Nat} {out : Option Bytes}
    (hframe : isOwn d.target frame = false) (hpush : push now r frame = some (out, r')) :
    Waiting d got r' := by
  have hsame := (push_foreign hframe hpush).1
  intro k
  have hgroup : groupFor r'.pending (d.toFragment k) = groupFor r.pending (d.toFragment k) := by
    simp only [groupFor]
    rw [show (d.toFragment k).target = d.target from rfl, hsame]
  rw [hgroup]
  exact h k

theorem Waiting.run (h : Waiting d got r) (hhost : d.host.length ≤ 255)
    (pushes : List (Nat × Bytes)) (hown : ∀ frame ∈ own d.target pushes, frame ∈ d.frames)
    (hnodup : (got ++ (own d.target pushes).map idxOf).Nodup)
    (hshort : got.length + (own d.target pushes).length < d.count)
    (hrun : pushAll r pushes = some r') :
    Waiting d (got ++ (own d.target pushes).map idxOf) r' := by
  induction pushes generalizing got r with
  | nil =>
      obtain rfl := Option.some.inj hrun
      simpa [own] using h
  | cons p pushes ih =>
      obtain ⟨out, r₁, hpush, hrest⟩ := pushAll_cons hrun
      rw [own_cons] at hown hnodup hshort ⊢
      cases hp : isOwn d.target p.2 with
      | false =>
          simp only [hp, Bool.false_eq_true, if_false] at hown hnodup hshort ⊢
          exact ih (h.foreign hp hpush) hown hnodup hshort hrest
      | true =>
          simp only [hp, if_true, List.forall_mem_cons, List.map_cons,
            List.length_cons] at hown hnodup hshort ⊢
          obtain ⟨hk, hframe, -⟩ := mem_frames hhost hown.1
          have hnew : idxOf p.2 ∉ got :=
            fun hmem => (List.nodup_append.mp hnodup).2.2 _ hmem _ (by simp) rfl
          obtain ⟨r₂, hpush', hwait⟩ := push_more h hhost hk hnew (by omega) p.1
          rw [← hframe, hpush] at hpush'
          obtain ⟨-, rfl⟩ := Prod.mk.inj (Option.some.inj hpush')
          rw [List.append_cons] at hnodup ⊢
          exact ih hwait hown.2 hnodup
            (by rw [List.length_append, List.length_singleton]; omega) hrest

theorem Gone.run (h : Gone d r) {pushes : List (Nat × Bytes)} (hown : own d.target pushes = [])
    (hrun : pushAll r pushes = some r') : Gone d r' := by
  induction pushes generalizing r with
  | nil =>
      obtain rfl := Option.some.inj hrun
      exact h
  | cons p pushes ih =>
      obtain ⟨out, r₁, hpush, hrest⟩ := pushAll_cons hrun
      rw [own_cons] at hown
      cases hp : isOwn d.target p.2 with
      | true => simp [hp] at hown
      | false =>
          obtain ⟨hpending, hcreated⟩ := push_foreign hp hpush
          apply ih ⟨hpending.trans h.1, hcreated.trans h.2⟩ _ hrest
          simpa [hp] using hown

theorem push_own (hhost : d.host.length ≤ 255) (hnone : find r.pending d.target = none)
    {before after : List (Nat × Bytes)} {now : Nat} {frame : Bytes} {r₁ : UdpReassembler Bytes}
    (hperm : (own d.target (before ++ (now, frame) :: after)).Perm d.frames)
    (hframe : isOwn d.target frame = true)
    (hrun : pushAll r before = some r₁) :
    ∃ r₂, push now r₁ frame =
      some (if own d.target after = [] then some (d.header ++ d.payload) else none, r₂) ∧
      (own d.target after = [] → Gone d r₂) := by
  rw [own_append, own_cons, if_pos hframe] at hperm
  have hmem : ∀ g ∈ own d.target before ++ frame :: own d.target after, g ∈ d.frames :=
    fun g hg => hperm.mem_iff.mp hg
  have hidx : ((own d.target before).map idxOf ++ idxOf frame ::
      (own d.target after).map idxOf).Perm (List.range d.count) := by
    have hmap := hperm.map idxOf
    rw [idxOf_frames hhost, List.map_append, List.map_cons] at hmap
    exact hmap
  have hnodup := hidx.nodup_iff.mpr List.nodup_range
  have hlength := hidx.length_eq
  rw [List.length_append, List.length_cons, List.length_map, List.length_map,
    List.length_range] at hlength
  have hbefore : ((own d.target before).map idxOf).Nodup := (List.nodup_append.mp hnodup).1
  have hnew : idxOf frame ∉ (own d.target before).map idxOf := fun hm =>
    (List.nodup_append.mp hnodup).2.2 _ hm _ (by simp) rfl
  obtain ⟨hk, heq, -⟩ := mem_frames hhost (hmem frame (by simp))
  have hwait := (waiting_nil hnone).run hhost before (fun g hg => hmem g (by simp [hg]))
    (by simpa using hbefore) (by rw [List.length_nil]; omega) hrun
  rw [List.nil_append] at hwait
  by_cases hlast : own d.target after = []
  · rw [hlast, List.map_nil] at hidx
    obtain ⟨r₂, hpush, hgone⟩ := push_last hwait hhost hk hnew hidx now
    rw [← heq] at hpush
    exact ⟨r₂, by rw [hpush, if_pos hlast], fun _ => hgone⟩
  · have hpos := List.length_pos_iff.mpr hlast
    obtain ⟨r₂, hpush, -⟩ := push_more hwait hhost hk hnew (by rw [List.length_map]; omega) now
    rw [← heq] at hpush
    exact ⟨r₂, by rw [hpush, if_neg hlast], fun h => absurd h hlast⟩

end Runs

/-- Every group has a slot for each of its parts. -/
def Sized (r : UdpReassembler Bytes) : Prop :=
  ∀ key st, find r.pending key = some st → st.parts.length = st.totalParts

section Returns

variable {r r' : UdpReassembler Bytes} {frame : Bytes} {now : Nat}

theorem Sized.groupFor (h : Sized r) (f : Fragment Bytes) :
    (groupFor r.pending f).parts.length = f.total ∧
    (groupFor r.pending f).totalParts = f.total := by
  rcases groupFor_cases r.pending f with hnew | ⟨st, hfind, hsame, -, htotal⟩
  · rw [hnew]
    exact ⟨List.length_replicate, rfl⟩
  · rw [hsame]
    exact ⟨(h _ st hfind).trans htotal, htotal⟩

theorem Sized.push (h : Sized r) {out : Option Bytes} (hpush : push now r frame = some (out, r')) :
    Sized r' := by
  obtain ⟨⟨o, r₁⟩, hwith, heq⟩ := Option.map_eq_some_iff.mp hpush
  obtain rfl : r₁ = r' := (Prod.mk.inj heq).2
  rcases pushWith_cases hwith with ⟨-, rfl, -⟩ | ⟨f, -, -, hfinish⟩
  · exact h
  · obtain ⟨hlen, htotal⟩ := h.groupFor f
    obtain ⟨-, hlen', htotal'⟩ :=
      storePart_header (Reassembly.groupFor r.pending f) f (frame.take (1 + f.target.1.length + 2))
    generalize storePart (Reassembly.groupFor r.pending f) f
        (frame.take (1 + f.target.1.length + 2)) = st at hfinish hlen' htotal'
    intro key st' hst'
    rcases finish_cases hfinish with ⟨-, hp⟩ | ⟨parts, -, -, -, hp⟩
    · rw [hp, find_insert] at hst'
      split at hst'
      · obtain rfl := Option.some.inj hst'
        rw [hlen', htotal', hlen, htotal]
      · exact h key st' hst'
    · rw [hp, find_erase] at hst'
      split at hst'
      · simp at hst'
      · exact h key st' hst'

theorem Sized.push_returns (h : Sized r) (now : Nat) (hframe : ¬ Swollen frame) :
    ∃ out r', Reassembly.push now r frame = some (out, r') := by
  obtain ⟨out, r', hpush⟩ := pushWith_returns hframe now fun f _ => (h.groupFor f).1
  rw [Reassembly.push, hpush]
  exact ⟨_, _, rfl⟩

theorem Sized.run (h : Sized r) (pushes : List (Nat × Bytes))
    (hframes : ∀ p ∈ pushes, ¬ Swollen p.2) : ∃ r', pushAll r pushes = some r' := by
  induction pushes generalizing r with
  | nil => exact ⟨r, rfl⟩
  | cons p pushes ih =>
      rw [List.forall_mem_cons] at hframes
      obtain ⟨out, r₁, hpush⟩ := h.push_returns p.1 hframes.1
      obtain ⟨r', hrun⟩ := ih (h.push hpush) hframes.2
      refine ⟨r', ?_⟩
      rw [pushAll, List.foldlM_cons, hpush]
      exact hrun

theorem sized_of_reachable (h : Reachable r) : Sized r := by
  induction h with
  | new =>
      intro key st hst
      simp [UdpReassembler.new] at hst
  | push _ hpush ih => exact ih.push hpush
  | cleanup now _ ih => exact fun key st hst => ih key st (find_cleanupExpired hst)

end Returns

theorem not_swollen_of_mem_frames {d : Datagram} {frame : Bytes} (hhost : d.host.length ≤ 255)
    (h : frame ∈ d.frames) : ¬ Swollen frame := by
  intro hs
  obtain ⟨f, hparse, -, hlong⟩ := fragment_of_swollen hs
  obtain ⟨hk, heq, -⟩ := mem_frames hhost h
  have hparse' := d.parseFrame_fragment hhost hk
  rw [← heq, hparse] at hparse'
  obtain rfl := Parsed.fragment.inj hparse'
  have hfirst : hostLen frame = d.host.length := by
    obtain ⟨l₀, l₁, hfrag, -⟩ := d.fragment_eq (idxOf frame)
    rw [heq, hfrag, hostLen, Datagram.header, encodeUdpAddrHeaderHost]
    change (UInt8.ofNat d.host.length).toNat = d.host.length
    rw [UInt8.toNat_ofNat', Nat.mod_eq_of_lt (by omega)]
  rw [hfirst] at hlong
  exact Nat.lt_irrefl _ hlong

/-- The fragments of a datagram, in any order and between any other frames: all pushes but the last
return nothing, the last one the datagram, of which nothing is left behind. A frame for another
target can stop the run only by being one on which the receiver panics. -/
theorem fragments_reassemble_in_any_order (d : Datagram)
    (hhost : 1 ≤ d.host.length ∧ d.host.length ≤ 255) (r : UdpReassembler Bytes)
    (hnone : find r.pending d.target = none) (pushes : List (Nat × Bytes))
    (hperm : (own d.target pushes).Perm d.frames) :
    (∀ before now frame after r₁, pushes = before ++ (now, frame) :: after →
      isOwn d.target frame = true →
      pushAll r before = some r₁ →
      ∃ r₂, push now r₁ frame =
        some (if own d.target after = [] then some (d.header ++ d.payload) else none, r₂) ∧
        (own d.target after = [] →
          find r₂.pending d.target = none ∧ find r₂.createdAt d.target = none)) ∧
    (∀ r', pushAll r pushes = some r' →
      find r'.pending d.target = none ∧ find r'.createdAt d.target = none) ∧
    (Reachable r → (∀ p ∈ pushes, isOwn d.target p.2 = false → ¬ Swollen p.2) →
      ∃ r', pushAll r pushes = some r') := by
  refine ⟨fun before now frame after r₁ hsplit hframe hrun => ?_, fun r' hrun => ?_,
    fun hreach hothers => ?_⟩
  · rw [hsplit] at hperm
    exact push_own hhost.2 hnone hperm hframe hrun
  · have hne : own d.target pushes ≠ [] := by
      intro hnil
      have hlength := hperm.length_eq
      have hmap := congrArg List.length (idxOf_frames hhost.2)
      rw [List.length_map, List.length_range] at hmap
      rw [hnil, List.length_nil, hmap] at hlength
      have hone := d.one_lt_count
      omega
    obtain ⟨before, p, after, rfl, hp, hafter⟩ := exists_last_own hne
    obtain ⟨r₁, hbefore, hrest⟩ := pushAll_append hrun
    obtain ⟨out, r₂, hpush, hlast⟩ := pushAll_cons hrest
    obtain ⟨r₃, hpush', hgone⟩ := push_own hhost.2 hnone hperm hp hbefore
    obtain ⟨-, rfl⟩ := Prod.mk.inj (Option.some.inj (hpush.symm.trans hpush'))
    exact (hgone hafter).run hafter hlast
  · apply (sized_of_reachable hreach).run
    intro p hp
    cases hown : isOwn d.target p.2 with
    | false => exact hothers p hp hown
    | true =>
        apply not_swollen_of_mem_frames hhost.2
        apply hperm.mem_iff.mp
        exact List.mem_filter.mpr ⟨List.mem_map_of_mem hp, hown⟩

theorem fragments_reassemble_reversed : ∃ r₁ r₂,
    push 0 .new (fragment (filled 1).header (filled 1).payload 2 1) = some (none, r₁) ∧
      push 5 r₁ (fragment (filled 1).header (filled 1).payload 2 0) =
        some (some ((filled 1).header ++ (filled 1).payload), r₂) ∧
      find r₂.pending (filled 1).target = none ∧ find r₂.createdAt (filled 1).target = none := by
  have hcount : (filled 1).count = 2 := by
    rw [Datagram.count, Datagram.header, perPart, length_header, filled, List.length_replicate]
    decide
  have hframes : (filled 1).frames = [fragment (filled 1).header (filled 1).payload 2 0,
      fragment (filled 1).header (filled 1).payload 2 1] := by
    have hsplit := (length_split (filled 1).host_le (filled 1).large).1
    change (filled 1).frames = (List.range (filled 1).count).map
      (fragment (filled 1).header (filled 1).payload (filled 1).count) at hsplit
    rw [hsplit, hcount]
    rfl
  generalize hf : fragment (filled 1).header (filled 1).payload 2 0 = f at *
  generalize hg : fragment (filled 1).header (filled 1).payload 2 1 = g at *
  have hisf : isOwn (filled 1).target f = true :=
    (mem_frames (by decide) (by rw [hframes]; simp)).2.2
  have hisg : isOwn (filled 1).target g = true :=
    (mem_frames (by decide) (by rw [hframes]; simp)).2.2
  have hownf : own (filled 1).target [(5, f)] = [f] := by simp [own, hisf]
  have hperm : (own (filled 1).target [(0, g), (5, f)]).Perm (filled 1).frames := by
    rw [own_cons, if_pos hisg, hownf, hframes]
    exact List.Perm.swap f g []
  obtain ⟨hpush, -, -⟩ :=
    fragments_reassemble_in_any_order (filled 1) (by decide) .new (find_empty _) _ hperm
  obtain ⟨r₁, hfirst, -⟩ := hpush [] 0 g [(5, f)] .new rfl hisg rfl
  rw [hownf, if_neg (by simp)] at hfirst
  have hrun : pushAll .new [(0, g)] = some r₁ := by
    rw [pushAll, List.foldlM_cons, hfirst]
    rfl
  obtain ⟨r₂, hlast, hgone⟩ := hpush [(0, g)] 5 f [] r₁ rfl hisf hrun
  exact ⟨r₁, r₂, hfirst, hlast, hgone rfl⟩

end SrtVpn.FragmentOrder
