import Mathlib.Algebra.Group.Int.Defs
import Mathlib.Algebra.GroupWithZero.Nat
import SrtVpn.Tables

namespace SrtVpn.TableContents

open Tables

variable {K V W : Type} [DecidableEq K]

def contents (g : V → List W) (t : Table K V) : List W := t.entries.flatMap fun e => g e.2

def entry (g : V → List W) (t : Table K V) (k : K) : List W :=
  match find t k with
  | some v => g v
  | none => []

variable (g : V → List W)

omit [DecidableEq K] in
@[simp] theorem contents_empty : contents g (∅ : Table K V) = [] := rfl

theorem contents_insert (t : Table K V) (k : K) (v : V) :
    contents g (t.insert k v) = g v ++ contents g (t.erase k) := by
  rw [contents, AList.entries_insert, List.flatMap_cons]
  rfl

theorem contents_perm (t : Table K V) (k : K) :
    (contents g t).Perm (entry g t k ++ contents g (t.erase k)) := by
  have herase : contents g (t.erase k) = (List.kerase k t.entries).flatMap fun e => g e.2 := rfl
  rw [herase]
  cases hfind : find t k with
  | none =>
      have hkey : k ∉ t.entries.keys := fun hk => by
        obtain ⟨v, hv⟩ := (mem_keys_iff t k).mp hk
        rw [hfind] at hv
        cases hv
      rw [List.kerase_of_notMem_keys hkey, entry, hfind]
      exact List.Perm.refl _
  | some v =>
      have hkey : k ∈ t.entries.keys := (mem_keys_iff t k).mpr ⟨v, hfind⟩
      obtain ⟨v', l₁, l₂, -, hl, hkerase⟩ := List.exists_of_kerase hkey
      have hmem : (⟨k, v'⟩ : Sigma fun _ : K => V) ∈ t.entries := by rw [hl]; simp
      obtain rfl : v' = v := by
        have hlookup : find t k = some v' := AList.mem_lookup_iff.mpr hmem
        rw [hfind] at hlookup
        exact (Option.some.inj hlookup).symm
      rw [hkerase, contents, hl, entry, hfind, List.flatMap_append, List.flatMap_append,
        List.flatMap_cons]
      simp only [← List.append_assoc]
      exact List.Perm.append_right _ List.perm_append_comm

theorem contents_congr {t t' : Table K V} (h : ∀ k, find t k = find t' k) :
    (contents g t).Perm (contents g t') := by
  apply List.Perm.flatMap_right
  apply List.lookup_ext t.nodupKeys t'.nodupKeys
  intro k v
  have hk := h k
  simp only [find, AList.lookup] at hk
  rw [hk]

theorem contents_erase_congr {t t' : Table K V} {k : K}
    (h : ∀ k', k' ≠ k → find t k' = find t' k') :
    (contents g (t.erase k)).Perm (contents g (t'.erase k)) := by
  apply contents_congr
  intro k'
  rw [find_erase, find_erase]
  by_cases hk : k' = k
  · rw [if_pos hk, if_pos hk]
  · rw [if_neg hk, if_neg hk, h k' hk]

omit [DecidableEq K] in
theorem length_contents (t : Table K V) :
    (contents g t).length = (t.entries.map fun e => (g e.2).length).sum := by
  rw [contents, List.length_flatMap]

end SrtVpn.TableContents
