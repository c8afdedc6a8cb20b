import Mathlib.Data.List.AList

namespace SrtVpn.Tables

variable {K V : Type} [DecidableEq K]

/-- A finite map. Lookups go through `find`, whose type does not depend on the key, so that keys can
be rewritten. -/
abbrev Table (K V : Type) := AList fun _ : K => V

def find (t : Table K V) (k : K) : Option V := t.lookup k

def size (t : Table K V) : Nat := t.entries.length

@[simp] theorem find_empty (k : K) : find (∅ : Table K V) k = none := AList.lookup_empty k

theorem find_insert (t : Table K V) (k k' : K) (v : V) :
    find (t.insert k v) k' = if k' = k then some v else find t k' := by
  by_cases h : k' = k
  · subst h; simp [find]
  · simp [find, h, AList.lookup_insert_ne h]

theorem find_erase (t : Table K V) (k k' : K) :
    find (t.erase k) k' = if k' = k then none else find t k' := by
  by_cases h : k' = k
  · subst h; simp [find]
  · simp [find, h, AList.lookup_erase_ne h]

theorem find_foldl_erase (keys : List K) (t : Table K V) (k : K) :
    find (keys.foldl (fun t k => t.erase k) t) k = if k ∈ keys then none else find t k := by
  induction keys generalizing t with
  | nil => simp
  | cons k' keys ih =>
      rw [List.foldl_cons, ih, find_erase]
      by_cases hk : k = k'
      · simp [hk]
      · simp [hk]

@[simp] theorem find_insert_self (t : Table K V) (k : K) (v : V) :
    find (t.insert k v) k = some v := by
  simp [find_insert]

@[simp] theorem find_erase_self (t : Table K V) (k : K) : find (t.erase k) k = none := by
  simp [find_erase]

omit [DecidableEq K] in
theorem size_eq_keys (t : Table K V) : size t = t.keys.length := by
  simp [size, AList.keys, List.keys]

theorem mem_keys_iff (t : Table K V) (k : K) : k ∈ t.keys ↔ ∃ v, find t k = some v := by
  rw [← AList.mem_keys, ← AList.lookup_isSome, Option.isSome_iff_exists]
  rfl

theorem size_erase {t : Table K V} {k : K} {v : V} (h : find t k = some v) :
    size (t.erase k) + 1 = size t := by
  have hk : k ∈ t.keys := (mem_keys_iff t k).mpr ⟨v, h⟩
  rw [size_eq_keys, size_eq_keys, AList.keys_erase, List.length_erase_add_one hk]

theorem size_insert {t : Table K V} {k : K} (h : find t k = none) (v : V) :
    size (t.insert k v) = size t + 1 := by
  have hk : k ∉ t.keys := by
    rw [mem_keys_iff, h]
    simp
  rw [size_eq_keys, size_eq_keys, AList.keys_insert, List.erase_of_not_mem hk, List.length_cons]

theorem size_insert_le (t : Table K V) (k : K) (v : V) : size (t.insert k v) ≤ size t + 1 := by
  rw [size_eq_keys, size_eq_keys, AList.keys_insert, List.length_cons]
  exact Nat.succ_le_succ List.length_erase_le

end SrtVpn.Tables
