import SrtVpn.FragmentOrder

namespace SrtVpn.ReassemblyInvariant

open BigEndian Tables Utf8 Wire UdpFrames Reassembly Splicing HostileFragments FragmentOrder

variable {β : Type}

/-- A group between two calls or within one: the counter counts the filled slots, and an address
header is stored exactly if the first one is filled. -/
structure Counted (st : ReasmState β) : Prop where
  length : st.parts.length = st.totalParts
  pos : 1 ≤ st.totalParts
  received : st.received = st.parts.countP Option.isSome
  header : st.addrHeader ≠ [] ↔ ∃ p, st.parts[0]? = some (some p)

structure GroupOk (st : ReasmState β) : Prop extends Counted st where
  incomplete : st.received < st.totalParts

structure Wellformed (r : UdpReassembler β) : Prop where
  keys : ∀ key, (find r.pending key).isSome = (find r.createdAt key).isSome
  groups : ∀ key st, find r.pending key = some st → GroupOk st

section Groups

variable {st : ReasmState β} {f : Fragment β} {r : UdpReassembler β}

theorem counted_fresh (h : 0 < f.total) : Counted (freshGroup f : ReasmState β) := by
  refine ⟨List.length_replicate, h, ?_, ?_⟩
  · simp [freshGroup, List.countP_replicate]
  · rw [freshGroup]
    simp only [ne_eq, not_true_eq_false, false_iff, not_exists]
    intro p hp
    rw [List.getElem?_replicate] at hp
    split at hp
    · cases Option.some.inj hp
    · cases hp

theorem Wellformed.groupFor (h : Wellformed r) (hf : 0 < f.total) :
    Counted (groupFor r.pending f) ∧ (groupFor r.pending f).totalParts = f.total := by
  rcases groupFor_cases r.pending f with hnew | ⟨st, hfind, hsame, -, htotal⟩
  · rw [hnew]
    exact ⟨counted_fresh hf, rfl⟩
  · rw [hsame]
    exact ⟨(h.groups _ st hfind).toCounted, htotal⟩

theorem Counted.received_le (h : Counted st) : st.received ≤ st.totalParts := by
  rw [h.received, ← h.length]
  exact List.countP_le_length

theorem Counted.complete (h : Counted st) (hall : st.received = st.totalParts) :
    ∃ parts : List β, st.parts = parts.map some := by
  rw [h.received, ← h.length, List.countP_eq_length] at hall
  generalize st.parts = slots at hall
  induction slots with
  | nil => exact ⟨[], rfl⟩
  | cons slot slots ih =>
      rw [List.forall_mem_cons] at hall
      obtain ⟨p, rfl⟩ := Option.isSome_iff_exists.mp hall.1
      obtain ⟨parts, rfl⟩ := ih hall.2
      exact ⟨p :: parts, rfl⟩

theorem Counted.store {header : Bytes} (h : Counted st) (hidx : f.idx < st.totalParts)
    (hheader : f.idx = 0 → header ≠ []) :
    Counted (storePart st f header) ∧ (storePart st f header).totalParts = st.totalParts := by
  have hlt : f.idx < st.parts.length := by rwa [h.length]
  cases hslot : st.parts[f.idx] with
  | none =>
      have hnone : st.parts[f.idx]? = some none := by rw [List.getElem?_eq_getElem hlt, hslot]
      rw [storePart_empty header hnone]
      refine ⟨⟨?_, h.pos, ?_, ?_⟩, rfl⟩
      · rw [List.length_set]
        exact h.length
      · rw [List.countP_set hlt, hslot, h.received]
        rfl
      · by_cases hz : f.idx = 0
        · rw [if_pos hz, hz, List.getElem?_set_self (hz ▸ hlt)]
          exact ⟨fun _ => ⟨f.part, rfl⟩, fun _ => hheader hz⟩
        · rw [if_neg hz, List.getElem?_set_ne hz]
          exact h.header
  | some p =>
      have hfilled : st.parts[f.idx]? = some (some p) := by rw [List.getElem?_eq_getElem hlt, hslot]
      rw [storePart_filled header (by rw [hfilled]; simp)]
      refine ⟨⟨h.length, h.pos, h.received, ?_⟩, rfl⟩
      by_cases hz : f.idx = 0
      · rw [if_pos hz]
        rw [hz] at hfilled
        exact ⟨fun _ => ⟨p, hfilled⟩, fun _ => hheader hz⟩
      · rw [if_neg hz]
        exact h.header

end Groups

section Finish

variable {st : ReasmState β} {r : UdpReassembler β} {target : Target}

/-- The creation times when the group of the target has been looked up. -/
def started (r : UdpReassembler β) (now : Nat) (target : Target) : Table Target Nat :=
  if (find r.pending target).isNone then r.createdAt.insert target now else r.createdAt

theorem finish_complete (r : UdpReassembler β) (now : Nat) (target : Target) {total : Nat}
    {parts : List β} (hall : st.received = total) (hparts : st.parts = parts.map some) :
    finish r now target total st =
      (.joined st.addrHeader parts,
        ⟨r.pending.erase target, (started r now target).erase target⟩) := by
  rw [finish, if_pos hall, hparts, mapM_id_map_some]
  rfl

theorem finish_incomplete (r : UdpReassembler β) (now : Nat) (target : Target) {total : Nat}
    (hsome : st.received ≠ total) :
    finish r now target total st =
      (.nothing, ⟨r.pending.insert target st, started r now target⟩) := by
  rw [finish, if_neg hsome]
  rfl

theorem Wellformed.started (h : Wellformed r) (now : Nat) (key : Target) :
    (find (started r now target) key).isSome =
      if key = target then true else (find r.pending key).isSome := by
  rw [ReassemblyInvariant.started]
  split
  next hnone =>
    rw [find_insert]
    split
    · rfl
    · exact (h.keys key).symm
  next hfound =>
    split
    next heq =>
      rw [heq, ← h.keys target]
      simpa [Option.isNone_iff_eq_none, Option.isSome_iff_ne_none] using hfound
    next => exact (h.keys key).symm

theorem Wellformed.finish (h : Wellformed r) (hst : Counted st) (now : Nat) :
    Wellformed (finish r now target st.totalParts st).2 := by
  by_cases hall : st.received = st.totalParts
  · obtain ⟨parts, hparts⟩ := hst.complete hall
    rw [finish_complete r now target hall hparts]
    constructor
    · intro key
      rw [find_erase, find_erase]
      split
      · rfl
      next hne => rw [h.started now key, if_neg hne]
    · intro key st' hst'
      rw [find_erase] at hst'
      split at hst'
      · cases hst'
      · exact h.groups key st' hst'
  · rw [finish_incomplete r now target hall]
    constructor
    · intro key
      rw [find_insert, h.started now key]
      split
      · rfl
      · rfl
    · intro key st' hst'
      rw [find_insert] at hst'
      split at hst'
      · obtain rfl := Option.some.inj hst'
        exact ⟨hst, Nat.lt_of_le_of_ne hst.received_le hall⟩
      · exact h.groups key st' hst'

theorem Wellformed.cleanup (h : Wellformed r) (now : Nat) : Wellformed (cleanupExpired now r) := by
  constructor
  · intro key
    rw [cleanupExpired, find_foldl_erase, find_foldl_erase]
    split
    · rfl
    · exact h.keys key
  · intro key st hst
    exact h.groups key st (find_cleanupExpired hst)

end Finish

section Push

variable {frame : Bytes} {r : UdpReassembler Bytes} {f : Fragment Bytes}

def HostValid (frame : Bytes) : Prop := hostLen frame + 3 ≤ frame.length → Valid (hostBytes frame)

theorem not_swollen (h : HostValid frame) : ¬ Swollen frame := by
  rintro ⟨host, p0, p1, l0, l1, total, part, rfl, hlen, -, -, hlength⟩
  have hlong : hostLen (layout host p0 p1 l0 l1 0 total part) + 3 ≤
      (layout host p0 p1 l0 l1 0 total part).length := by
    rw [hostLen_layout hlen]
    simp [layout]
  have hvalid := h hlong
  rw [hostBytes_layout hlen] at hvalid
  rw [fromUtf8Lossy_of_valid hvalid] at hlength
  exact hlength rfl

def stored (r : UdpReassembler Bytes) (frame : Bytes) (f : Fragment Bytes) : ReasmState Bytes :=
  storePart (groupFor r.pending f) f (frame.take (1 + f.target.1.length + 2))

theorem Wellformed.stored (h : Wellformed r) (hparse : parseFrame frame = .fragment f) :
    Counted (stored r frame f) ∧ (stored r frame f).totalParts = f.total := by
  obtain ⟨host, p0, p1, l0, l1, idx, total, part, -, rfl, hidx, -, hf⟩ := layout_of_fragment hparse
  have hlt : f.idx < f.total := by rw [hf]; exact hidx
  obtain ⟨hcounted, htotal⟩ := h.groupFor (f := f) (Nat.lt_of_le_of_lt (Nat.zero_le _) hlt)
  have hheader : (layout host p0 p1 l0 l1 idx total part).take (1 + f.target.1.length + 2) ≠
      [] := by
    rw [layout, Nat.add_assoc, Nat.add_comm 1, List.take_succ_cons]
    exact List.cons_ne_nil _ _
  have hstore := hcounted.store (htotal.symm ▸ hlt) fun _ => hheader
  rw [htotal] at hstore
  exact hstore

theorem push_fragment_eq (h : Wellformed r) (now : Nat) (hframe : HostValid frame)
    (hparse : parseFrame frame = .fragment f) : push now r frame =
      some ((finish r now f.target f.total (stored r frame f)).1.bytes frame,
        (finish r now f.target f.total (stored r frame f)).2) := by
  obtain ⟨out, r', hpush⟩ := pushWith_returns (not_swollen hframe) now fun f' hf' => by
    obtain rfl := Parsed.fragment.inj (hparse.symm.trans hf')
    have hlt : 0 < f.total := by
      obtain ⟨host, p0, p1, l0, l1, idx, total, part, -, -, hidx, -, hf⟩ :=
        layout_of_fragment hparse
      rw [hf]
      exact Nat.lt_of_le_of_lt (Nat.zero_le _) hidx
    obtain ⟨hcounted, htotal⟩ := h.groupFor hlt
    exact hcounted.length.trans htotal
  rcases pushWith_cases hpush with ⟨hnone, -⟩ | ⟨f', hparse', -, hfinish⟩
  · exact absurd hparse (hnone f)
  · obtain rfl := Parsed.fragment.inj (hparse.symm.trans hparse')
    rw [push, hpush, ReassemblyInvariant.stored, hfinish]
    rfl

theorem Wellformed.push (h : Wellformed r) (now : Nat) (hframe : HostValid frame) :
    ∃ out r', push now r frame = some (out, r') ∧ Wellformed r' := by
  cases hparse : parseFrame frame with
  | invalid => exact ⟨none, r, by rw [Reassembly.push, pushWith, hparse]; rfl, h⟩
  | whole => exact ⟨some frame, r, by rw [Reassembly.push, pushWith, hparse]; rfl, h⟩
  | fragment f =>
      obtain ⟨hcounted, htotal⟩ := h.stored hparse
      refine ⟨_, _, push_fragment_eq h now hframe hparse, ?_⟩
      rw [← htotal]
      exact h.finish hcounted now

/-- A push that completes a group returns the datagram and removes the group. -/
def Completes (now : Nat) (r : UdpReassembler Bytes) (frame : Bytes) (f : Fragment Bytes) : Prop :=
  ∃ (parts : List Bytes) (r' : UdpReassembler Bytes), (stored r frame f).parts = parts.map some ∧
    push now r frame = some (some ((stored r frame f).addrHeader ++ parts.flatten), r') ∧
    find r'.pending f.target = none ∧ find r'.createdAt f.target = none

theorem Wellformed.completes (h : Wellformed r) (now : Nat) (hframe : HostValid frame)
    (hparse : parseFrame frame = .fragment f)
    (hall : (ReassemblyInvariant.stored r frame f).received = f.total) :
    Completes now r frame f := by
  obtain ⟨hcounted, htotal⟩ := h.stored hparse
  obtain ⟨parts, hparts⟩ := hcounted.complete (hall.trans htotal.symm)
  refine ⟨parts, ⟨r.pending.erase f.target,
    (ReassemblyInvariant.started r now f.target).erase f.target⟩, hparts, ?_, ?_, ?_⟩
  · rw [push_fragment_eq h now hframe hparse, finish_complete r now f.target hall hparts]
    rfl
  · exact find_erase_self _ _
  · exact find_erase_self _ _

end Push

inductive Input
  | push (now : Nat) (frame : Bytes)
  | cleanup (now : Nat)
  deriving DecidableEq

def react (r : UdpReassembler Bytes) : Input → Option (Option Bytes × UdpReassembler Bytes)
  | .push now frame => push now r frame
  | .cleanup now => some (none, cleanupExpired now r)

def runAll (r : UdpReassembler Bytes) :
    List Input → Option (List (Input × Option Bytes) × UdpReassembler Bytes)
  | [] => some ([], r)
  | i :: is => do
      let reacted ← react r i
      let rest ← runAll reacted.2 is
      return ((i, reacted.1) :: rest.1, rest.2)

def Input.HostValid : Input → Prop
  | .push _ frame => ReassemblyInvariant.HostValid frame
  | .cleanup _ => True

def keyOf (frame : Bytes) : Option Target := (parseUdpAddrHeader frame).map fun p => (p.1, p.2.1)

def concerns (key : Target) : Input → Bool
  | .push _ frame => keyOf frame = some key
  | .cleanup _ => true

section Run

variable {r r' r₁ : UdpReassembler Bytes} {i : Input} {is : List Input} {out : Option Bytes}
  {trace : List (Input × Option Bytes)} {key : Target}

theorem runAll_cons {reacted : Option Bytes × UdpReassembler Bytes}
    {rest : List (Input × Option Bytes) × UdpReassembler Bytes} (hreact : react r i = some reacted)
    (hrest : runAll reacted.2 is = some rest) :
    runAll r (i :: is) = some ((i, reacted.1) :: rest.1, rest.2) := by
  rw [runAll, hreact]
  simp only [Option.bind_eq_bind, Option.bind_some, hrest]
  rfl

theorem wellformed_new : Wellformed (UdpReassembler.new : UdpReassembler β) := by
  constructor
  · intro key
    rfl
  · intro key st h
    simp [UdpReassembler.new] at h

theorem Wellformed.react (h : Wellformed r) (hi : i.HostValid) :
    ∃ out r', react r i = some (out, r') ∧ Wellformed r' := by
  cases i with
  | push now frame => exact h.push now hi
  | cleanup now => exact ⟨none, _, rfl, h.cleanup now⟩

theorem Wellformed.runAll (h : Wellformed r) (hvalid : ∀ i ∈ is, i.HostValid) :
    ∃ trace r', runAll r is = some (trace, r') ∧ Wellformed r' := by
  induction is generalizing r with
  | nil => exact ⟨[], r, rfl, h⟩
  | cons i is ih =>
      rw [List.forall_mem_cons] at hvalid
      obtain ⟨out, r₁, hreact, h₁⟩ := h.react hvalid.1
      obtain ⟨trace, r', hrest, h'⟩ := ih h₁ hvalid.2
      exact ⟨_, r', runAll_cons hreact hrest, h'⟩

structure Agree (key : Target) (r r' : UdpReassembler Bytes) : Prop where
  pending : find r.pending key = find r'.pending key
  createdAt : find r.createdAt key = find r'.createdAt key

theorem Agree.finish (h : Agree key r r') (now total : Nat) (st : ReasmState Bytes) :
    (finish r now key total st).1 = (finish r' now key total st).1 ∧
      Agree key (finish r now key total st).2 (finish r' now key total st).2 := by
  have hstarted : find (started r now key) key = find (started r' now key) key := by
    rw [started, started, h.pending]
    split
    · rw [find_insert_self, find_insert_self]
    · exact h.createdAt
  by_cases hall : st.received = total
  · cases hparts : st.parts.mapM id with
    | none =>
        simp only [Reassembly.finish, if_pos hall, hparts]
        refine ⟨trivial, ?_, hstarted⟩
        simp only [find_insert_self]
    | some parts =>
        simp only [Reassembly.finish, if_pos hall, hparts]
        exact ⟨trivial, by simp only [find_erase_self], by simp only [find_erase_self]⟩
  · rw [finish_incomplete r now key hall, finish_incomplete r' now key hall]
    exact ⟨rfl, by rw [find_insert_self, find_insert_self], hstarted⟩

theorem keyOf_fragment {frame : Bytes} {f : Fragment Bytes} (h : parseFrame frame = .fragment f) :
    keyOf frame = some f.target := by
  obtain ⟨host, p0, p1, l0, l1, idx, total, part, hlen, rfl, -, -, rfl⟩ := layout_of_fragment h
  rw [keyOf, layout, parseUdpAddrHeader_raw hlen]
  rfl

theorem Agree.push (h : Agree key r r') {now : Nat} {frame : Bytes} (hkey : keyOf frame = some key)
    (hpush : push now r frame = some (out, r₁)) :
    ∃ r₁', push now r' frame = some (out, r₁') ∧ Agree key r₁ r₁' := by
  rw [Reassembly.push, pushWith] at hpush
  rw [Reassembly.push, pushWith]
  cases hparse : parseFrame frame with
  | invalid =>
      rw [hparse] at hpush
      obtain ⟨rfl, rfl⟩ := Prod.mk.inj (Option.some.inj hpush)
      exact ⟨r', rfl, h⟩
  | whole =>
      rw [hparse] at hpush
      obtain ⟨rfl, rfl⟩ := Prod.mk.inj (Option.some.inj hpush)
      exact ⟨r', rfl, h⟩
  | fragment f =>
      obtain rfl : f.target = key := Option.some.inj ((keyOf_fragment hparse).symm.trans hkey)
      have hgroup : groupFor r'.pending f = groupFor r.pending f := by
        rw [groupFor, groupFor, h.pending]
      rw [hparse] at hpush
      simp only [hgroup] at hpush ⊢
      split at hpush
      · cases hpush
      next hok =>
        rw [if_neg hok]
        generalize storePart (groupFor r.pending f) { f with part := id f.part }
          (frame.take (1 + f.target.1.length + 2)) = st at hpush ⊢
        obtain ⟨hout, hstate⟩ := h.finish now f.total st
        obtain ⟨rfl, rfl⟩ := Prod.mk.inj (Option.some.inj hpush)
        exact ⟨_, by rw [hout]; rfl, hstate⟩

def expired (now : Nat) (r : UdpReassembler Bytes) (key : Target) : Bool :=
  (find r.createdAt key).any (reasmExpiry < now - ·)

theorem find_cleanup (r : UdpReassembler Bytes) (now : Nat) (key : Target) :
    find (cleanupExpired now r).pending key =
      (if expired now r key then none else find r.pending key) ∧
      find (cleanupExpired now r).createdAt key =
        (if expired now r key then none else find r.createdAt key) := by
  have hmem : key ∈ r.createdAt.keys.filter (expired now r) ↔ expired now r key = true := by
    rw [List.mem_filter, mem_keys_iff]
    refine ⟨fun h => h.2, fun h => ⟨?_, h⟩⟩
    cases hfind : find r.createdAt key with
    | none => simp [expired, hfind] at h
    | some t => exact ⟨t, rfl⟩
  have hpending : find (cleanupExpired now r).pending key = _ :=
    find_foldl_erase (r.createdAt.keys.filter (expired now r)) r.pending key
  have hcreated : find (cleanupExpired now r).createdAt key = _ :=
    find_foldl_erase (r.createdAt.keys.filter (expired now r)) r.createdAt key
  by_cases hexpired : expired now r key = true
  · rw [hpending, hcreated, if_pos (hmem.mpr hexpired), if_pos (hmem.mpr hexpired), if_pos hexpired,
      if_pos hexpired]
    exact ⟨rfl, rfl⟩
  · rw [hpending, hcreated, if_neg (mt hmem.mp hexpired), if_neg (mt hmem.mp hexpired),
      if_neg hexpired, if_neg hexpired]
    exact ⟨rfl, rfl⟩

theorem Agree.cleanup (h : Agree key r r') (now : Nat) :
    Agree key (cleanupExpired now r) (cleanupExpired now r') := by
  have hexpired : expired now r key = expired now r' key := by rw [expired, expired, h.createdAt]
  obtain ⟨hpending, hcreated⟩ := find_cleanup r now key
  obtain ⟨hpending', hcreated'⟩ := find_cleanup r' now key
  constructor
  · rw [hpending, hpending', hexpired, h.pending]
  · rw [hcreated, hcreated', hexpired, h.createdAt]

theorem Agree.react (h : Agree key r r') (hi : concerns key i = true)
    (hreact : ReassemblyInvariant.react r i = some (out, r₁)) :
    ∃ r₁', ReassemblyInvariant.react r' i = some (out, r₁') ∧ Agree key r₁ r₁' := by
  cases i with
  | push now frame => exact h.push (of_decide_eq_true hi) hreact
  | cleanup now =>
      obtain ⟨rfl, rfl⟩ := Prod.mk.inj (Option.some.inj hreact)
      exact ⟨_, rfl, h.cleanup now⟩

theorem Agree.foreign (h : Agree key r r') (hi : concerns key i = false)
    (hreact : ReassemblyInvariant.react r i = some (out, r₁)) : Agree key r₁ r' := by
  cases i with
  | push now frame =>
      have hkey : keyOf frame ≠ some key := of_decide_eq_false hi
      have hown : isOwn key frame = false := by
        rw [isOwn]
        split
        next f hparse =>
          rw [keyOf_fragment hparse] at hkey
          exact decide_eq_false fun heq => hkey (congrArg some heq)
        next => rfl
      obtain ⟨hpending, hcreated⟩ := push_foreign hown hreact
      exact ⟨hpending.trans h.pending, hcreated.trans h.createdAt⟩
  | cleanup now => cases hi

theorem Agree.runAll (h : Agree key r r')
    (hrun : ReassemblyInvariant.runAll r is = some (trace, r₁)) :
    ∃ r₁', ReassemblyInvariant.runAll r' (is.filter (concerns key)) =
      some (trace.filter (fun t => concerns key t.1), r₁') ∧ Agree key r₁ r₁' := by
  induction is generalizing r r' trace with
  | nil =>
      obtain ⟨rfl, rfl⟩ := Prod.mk.inj (Option.some.inj hrun)
      exact ⟨r', rfl, h⟩
  | cons i is ih =>
      rw [ReassemblyInvariant.runAll] at hrun
      simp only [Option.bind_eq_bind] at hrun
      obtain ⟨⟨out, r₂⟩, hreact, hrun⟩ := Option.bind_eq_some_iff.mp hrun
      obtain ⟨⟨rest, r₃⟩, hrest, hrun⟩ := Option.bind_eq_some_iff.mp hrun
      obtain ⟨rfl, rfl⟩ := Prod.mk.inj (Option.some.inj hrun)
      rw [List.filter_cons, List.filter_cons]
      by_cases hi : concerns key i = true
      · obtain ⟨r₂', hreact', h₂⟩ := h.react hi hreact
        obtain ⟨r₁', hrest', h₁⟩ := ih h₂ hrest
        rw [if_pos hi, if_pos hi]
        exact ⟨r₁', runAll_cons hreact' hrest', h₁⟩
      · rw [if_neg hi, if_neg hi]
        rw [Bool.not_eq_true] at hi
        exact ih (h.foreign hi hreact) hrest

/-- In every run on frames with valid hosts the tables are well formed, a push that completes a
group returns it and removes it, and for each key the trace is that of a run on the frames for that
key alone. -/
theorem reassembler_wellformed (inputs : List Input) (hvalid : ∀ i ∈ inputs, i.HostValid) :
    ∃ trace r, runAll .new inputs = some (trace, r) ∧ Wellformed r ∧
      (∀ now frame f, HostValid frame → parseFrame frame = .fragment f →
        (stored r frame f).received = f.total →
        Completes now r frame f) ∧
      ∀ key, ∃ r', runAll .new (inputs.filter (concerns key)) =
        some (trace.filter (fun t => concerns key t.1), r') := by
  obtain ⟨trace, r, hrun, h⟩ := wellformed_new.runAll hvalid
  refine ⟨trace, r, hrun, h, ?_, ?_⟩
  · intro now frame f hframe hparse hall
    exact h.completes now hframe hparse hall
  · intro key
    have hagree : Agree key (UdpReassembler.new : UdpReassembler Bytes) .new := ⟨rfl, rfl⟩
    obtain ⟨r', hrun', -⟩ := hagree.runAll hrun
    exact ⟨r', hrun'⟩

/-- A datagram in two fragments, with a fragment for another target between them. -/
theorem reassembler_wellformed_interleaved :
    ∃ trace r, runAll .new [.push 0 (layout [97] 0 53 0 2 0 2 [1]),
      .push 1 (layout [98] 0 53 0 2 0 2 [3]),
        .push 2 (layout [97] 0 53 0 2 1 2 [2]), .cleanup 3] = some (trace, r) ∧ Wellformed r := by
  obtain ⟨trace, r, hrun, h, -⟩ := reassembler_wellformed [.push 0 (layout [97] 0 53 0 2 0 2 [1]),
    .push 1 (layout [98] 0 53 0 2 0 2 [3]), .push 2 (layout [97] 0 53 0 2 1 2 [2]), .cleanup 3] (by
      simp only [List.forall_mem_cons]
      exact ⟨fun _ =>
        by decide, fun _ => by decide, fun _ => by decide, trivial, fun i hi => by cases hi⟩)
  exact ⟨trace, r, hrun, h⟩

end Run

end SrtVpn.ReassemblyInvariant
