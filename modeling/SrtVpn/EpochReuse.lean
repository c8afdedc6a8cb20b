import SrtVpn.Generations
import SrtVpn.Transparency

namespace SrtVpn.EpochReuse

open BigEndian Tables Wire Encoder SeqNumbers Session Generations Transparency

variable {α : Type}

/-- After the calls `before`, the call `first` starts a generation of its session, and `second`
starts the next one of that session. -/
structure Successive (enc : MuxEncoder) (before : List (Call α)) (first : Call α)
    (between : List (Call α)) (second : Call α) : Prop where
  same : second.sessionId = first.sessionId
  starts : allocates (stampAll enc before).2 first = true
  next : allocates (stampAll enc (before ++ first :: between)).2 second = true
  none : ∀ mid c, mid ++ [c] <+: between → c.sessionId = first.sessionId →
    allocates (stampAll enc (before ++ first :: mid)).2 c = false

/-- The generations number `m` and `n` of an encoder have the same epoch: the counter is a byte, and
its values 0 and 255 give the same one. -/
def SameEpoch (m n : Nat) : Prop :=
  m % 256 = n % 256 ∨ (m % 256 = 0 ∧ n % 256 = 255) ∨ (m % 256 = 255 ∧ n % 256 = 0)

theorem sameEpoch_iff (m n : Nat) : SameEpoch m n ↔ epochAfter m = epochAfter n := by
  rw [SameEpoch, epochAfter, epochAfter]
  omega

theorem generation_of_allocates {enc : MuxEncoder} {c : Call α} (h : allocates enc c = true) :
    (generation enc c.ftype c.sessionId).1 = ⟨(allocEpoch enc).1, 0⟩ := by
  obtain ⟨-, h⟩ := Bool.and_eq_true_iff.mp h
  rcases generation_cases enc c.ftype c.sessionId with ⟨hgen, -⟩ | ⟨-, he, ho, hroom⟩
  · exact hgen
  · simp [he, ho, Nat.not_le.mpr hroom] at h

theorem epoch_of_allocates {enc : MuxEncoder} {c : Call α} (h : allocates enc c = true) :
    (stamp enc c).1.epoch = (allocEpoch enc).1 := by
  obtain ⟨hu, -⟩ := Bool.and_eq_true_iff.mp h
  rw [epoch_stamp enc c hu, generation_of_allocates h]

theorem epochCtr_newEncoder (acceptor reliable : Bool) :
    (newEncoder acceptor reliable).epochCtr = 0 := by
  cases acceptor <;> rfl

theorem same_epoch_iff (acceptor reliable : Bool) {before between : List (Call α)}
    {first second : Call α}
    (h : Successive (newEncoder acceptor reliable) before first between second) :
    (stamp (stampAll (newEncoder acceptor reliable) (before ++ first :: between)).2
      second).1.epoch =
        (stamp (stampAll (newEncoder acceptor reliable) before).2 first).1.epoch ↔
      SameEpoch (allocations (newEncoder acceptor reliable) before)
        (allocations (newEncoder acceptor reliable) (before ++ first :: between)) := by
  have hctr := epochCtr_newEncoder acceptor reliable
  rw [epoch_of_allocates h.starts, epoch_of_allocates h.next, ← UInt8.toNat_inj,
    toNat_allocEpoch hctr, toNat_allocEpoch hctr, sameEpoch_iff]
  exact eq_comm

/-- In every run, successive generations of a session have different epochs exactly if no two of
them are a number of generations apart after which the epochs repeat. -/
theorem successive_epochs_differ_iff (acceptor reliable : Bool) (calls : List (Call α)) :
    (∀ before first between second, before ++ first :: (between ++ [second]) <+: calls →
      Successive (newEncoder acceptor reliable) before first between second →
      (stamp (stampAll (newEncoder acceptor reliable) (before ++ first :: between)).2
        second).1.epoch ≠
        (stamp (stampAll (newEncoder acceptor reliable) before).2 first).1.epoch) ↔
    ∀ before first between second, before ++ first :: (between ++ [second]) <+: calls →
      Successive (newEncoder acceptor reliable) before first between second →
      ¬ SameEpoch (allocations (newEncoder acceptor reliable) before)
        (allocations (newEncoder acceptor reliable) (before ++ first :: between)) := by
  constructor
  · intro hdiffer before first between second hpre h
    rw [← same_epoch_iff acceptor reliable h]
    exact hdiffer before first between second hpre h
  · intro hapart before first between second hpre h
    rw [Ne, same_epoch_iff acceptor reliable h]
    exact hapart before first between second hpre h

/-- A session opened as number 255 and again as number 256 has epoch 1 both times. -/
theorem reopened_with_same_epoch :
    let before := List.replicate 255 (sendOpen 2 1 [97] 80)
    let enc := newEncoder false true
    Successive enc before (sendOpen 1 1 [97] 80) [] (sendOpen 1 1 [97] 80) ∧
      (stamp (stampAll enc (before ++ [sendOpen 1 1 [97] 80])).2 (sendOpen 1 1 [97] 80)).1.epoch =
        1 ∧
      (stamp (stampAll enc before).2 (sendOpen 1 1 [97] 80)).1.epoch = 1 := by
  intro before enc
  refine ⟨⟨rfl, by decide +kernel, by decide +kernel, ?_⟩, by decide +kernel, by decide +kernel⟩
  intro mid c hpre
  simp at hpre

end SrtVpn.EpochReuse
