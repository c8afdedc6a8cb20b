import Mathlib.Algebra.Group.Int.Defs
import Mathlib.Algebra.GroupWithZero.Nat
import Mathlib.Data.List.Nodup
import SrtVpn.Dispatch

namespace SrtVpn.Allocation

open Tables Dispatch SessionRegistry

variable {α : Type}

def idOf (raw : UInt32) : UInt16 := (raw % UInt32.ofNat maxSessions).toUInt16

theorem toNat_idOf (raw : UInt32) : (idOf raw).toNat = raw.toNat % 256 := by
  have hmod : (raw % UInt32.ofNat maxSessions).toNat = raw.toNat % 256 := UInt32.toNat_mod raw _
  rw [idOf, UInt32.toNat_toUInt16, hmod]
  omega

theorem toNat_idOf_add (raw : UInt32) (k : Nat) :
    (idOf (raw + UInt32.ofNat k)).toNat = (raw.toNat + k) % 256 := by
  rw [toNat_idOf, UInt32.toNat_add, UInt32.toNat_ofNat']
  omega

section Search

variable {sessions : Table UInt16 Nat} {fuel : Nat} {raw : UInt32}

theorem freeId_succ : freeId sessions (fuel + 1) raw =
    if idOf raw = 0 ∨ (find sessions (idOf raw)).isSome then freeId sessions fuel (raw + 1)
    else (some (idOf raw), raw + 1) := by
  change (if idOf raw = 0 then _ else if (find sessions (idOf raw)).isNone then _ else _) = _
  by_cases hzero : idOf raw = 0
  · rw [if_pos hzero, if_pos (Or.inl hzero)]
  · rw [if_neg hzero]
    cases hfind : find sessions (idOf raw) with
    | none =>
        rw [if_pos Option.isNone_none, if_neg (by simp [hzero])]
        rfl
    | some c => rw [if_neg (by simp), if_pos (Or.inr Option.isSome_some)]

theorem freeId_ne_zero {id : UInt16} {next : UInt32}
    (h : freeId sessions fuel raw = (some id, next)) : id ≠ 0 ∧ id.toNat < 256 := by
  induction fuel generalizing raw with
  | zero => simp [freeId] at h
  | succ fuel ih =>
      rw [freeId_succ] at h
      split at h
      · exact ih h
      next hfree =>
        obtain ⟨hid, -⟩ := Prod.mk.inj h
        rw [← Option.some.inj hid]
        refine ⟨fun hzero => hfree (Or.inl hzero), ?_⟩
        rw [toNat_idOf]
        exact Nat.mod_lt _ (by decide)

theorem freeId_eq_none (h : (freeId sessions fuel raw).1 = none) (k : Nat) (hk : k < fuel) :
    idOf (raw + UInt32.ofNat k) = 0 ∨ (find sessions (idOf (raw + UInt32.ofNat k))).isSome := by
  induction fuel generalizing raw k with
  | zero => exact absurd hk (Nat.not_lt_zero k)
  | succ fuel ih =>
      rw [freeId_succ] at h
      split at h
      next htaken =>
        cases k with
        | zero =>
            have hraw : raw + UInt32.ofNat 0 = raw := UInt32.add_zero raw
            rw [hraw]
            exact htaken
        | succ k =>
            have hraw : raw + UInt32.ofNat (k + 1) = raw + 1 + UInt32.ofNat k := by
              rw [UInt32.ofNat_add, UInt32.add_assoc, UInt32.add_comm (UInt32.ofNat k)]
              rfl
            rw [hraw]
            exact ih h k (Nat.lt_of_succ_lt_succ hk)
      · cases h

theorem exists_idOf_eq (raw : UInt32) {id : UInt16} (hid : id.toNat < 256) :
    ∃ k < maxSessions, idOf (raw + UInt32.ofNat k) = id := by
  refine ⟨(id.toNat + 256 - raw.toNat % 256) % 256, Nat.mod_lt _ (by decide), ?_⟩
  apply UInt16.toNat_inj.mp
  rw [toNat_idOf_add]
  omega

end Search

def sessionIds : List UInt16 := (List.range 255).map fun i => UInt16.ofNat (i + 1)

theorem mem_sessionIds {id : UInt16} (h : id ∈ sessionIds) : id ≠ 0 ∧ id.toNat < 256 := by
  obtain ⟨i, hi, rfl⟩ := List.mem_map.mp h
  have hlt := List.mem_range.mp hi
  have hid : (UInt16.ofNat (i + 1)).toNat = i + 1 :=
    UInt16.toNat_ofNat_of_lt (by simp [UInt16.size]; omega)
  refine ⟨?_, by omega⟩
  intro hzero
  rw [hzero] at hid
  exact absurd hid (by simp)

theorem nodup_sessionIds : sessionIds.Nodup := by
  apply List.Nodup.map_on ?_ List.nodup_range
  intro i hi j hj heq
  have hlt : ∀ n ∈ List.range 255, (UInt16.ofNat (n + 1)).toNat = n + 1 := by
    intro n hn
    have hn := List.mem_range.mp hn
    exact UInt16.toNat_ofNat_of_lt (by simp [UInt16.size]; omega)
  have hnat := congrArg UInt16.toNat heq
  rw [hlt i hi, hlt j hj] at hnat
  exact Nat.succ.inj hnat

/-- With fewer entries than ids the search ends at a free one. -/
theorem freeId_complete {sessions : Table UInt16 Nat} (raw : UInt32)
    (h : size sessions < maxSessions - 1) :
    ∃ id, (freeId sessions maxSessions raw).1 = some id := by
  apply Option.ne_none_iff_exists'.mp
  intro hnone
  have hsub : sessionIds ⊆ sessions.keys := by
    intro id hid
    obtain ⟨hne, hlt⟩ := mem_sessionIds hid
    obtain ⟨k, hk, rfl⟩ := exists_idOf_eq raw hlt
    have htaken := (freeId_eq_none hnone k hk).resolve_left hne
    exact (mem_keys_iff sessions _).mpr (Option.isSome_iff_exists.mp htaken)
  have hle := (List.subperm_of_subset nodup_sessionIds hsub).length_le
  rw [← size_eq_keys, sessionIds, List.length_map, List.length_range] at hle
  exact absurd h (Nat.not_lt.mpr hle)

/-- Whatever entries there are and wherever the counter stands, `allocate` gives an id exactly if
there are fewer than 255 entries. The id is one of 1 to 255 and was free, and it gets a new channel;
everything else is as before. -/
theorem allocate_complete_fresh (reg : SessionRegistry α) :
    (reg.allocate.1.isSome ↔ size reg.sessions < 255) ∧
    (∀ sid c, reg.allocate.1 = some (sid, c) →
      1 ≤ sid.toNat ∧ sid.toNat ≤ 255 ∧ find reg.sessions sid = none ∧
        find reg.allocate.2.sessions sid = some c ∧
        reg.allocate.2.channels = reg.channels ++ [Channel.new]) ∧
    (reg.allocate.1 = none → reg.allocate.2.channels = reg.channels) ∧
    ∀ sid, reg.allocate.1.map (·.1) ≠ some sid →
    find reg.allocate.2.sessions sid = find reg.sessions sid := by
  have hcases : (255 ≤ size reg.sessions ∧ reg.allocate = (none, reg)) ∨
      size reg.sessions < 255 ∧ ∃ id next,
      freeId reg.sessions maxSessions reg.nextId = (some id, next) ∧
        reg.allocate =
          (some (id, reg.channels.length), register { reg with nextId := next } id) := by
    by_cases hfull : maxSessions - 1 ≤ size reg.sessions
    · exact Or.inl ⟨hfull, if_pos hfull⟩
    · have hroom := Nat.lt_of_not_le hfull
      obtain ⟨id, hid⟩ := freeId_complete reg.nextId hroom
      have hsearch : freeId reg.sessions maxSessions reg.nextId =
          (some id, (freeId reg.sessions maxSessions reg.nextId).2) := Prod.ext hid rfl
      refine Or.inr ⟨hroom, id, _, hsearch, ?_⟩
      rw [allocate, if_neg hfull, hsearch]
  rcases hcases with ⟨hfull, heq⟩ | ⟨hroom, id, next, hsearch, heq⟩
  · rw [heq]
    refine ⟨by simp [hfull], by simp, fun _ => rfl, fun _ _ => rfl⟩
  · obtain ⟨hne, hlt⟩ := freeId_ne_zero hsearch
    have hfree := freeId_eq_some hsearch
    rw [heq]
    refine ⟨by simp [hroom], ?_, by simp, ?_⟩
    · intro sid c hsome
      obtain ⟨rfl, rfl⟩ := Prod.mk.inj (Option.some.inj hsome)
      refine ⟨?_, Nat.le_of_lt_succ hlt, hfree, find_insert_self _ _ _, rfl⟩
      exact Nat.pos_of_ne_zero fun hzero => hne (UInt16.toNat_inj.mp hzero)
    · intro sid hsid
      have hother : sid ≠ id := fun h => hsid (congrArg some h.symm)
      exact (find_insert _ _ _ _).trans (if_neg hother)

end SrtVpn.Allocation
