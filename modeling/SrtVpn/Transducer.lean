import Mathlib.Data.List.Induction

namespace SrtVpn.Transducer

variable {S I O : Type}

def run (step : S → I → O × S) : S → List I → List O × S
  | s, [] => ([], s)
  | s, i :: is => ((step s i).1 :: (run step (step s i).2 is).1, (run step (step s i).2 is).2)

@[simp] theorem run_nil (step : S → I → O × S) (s : S) : run step s [] = ([], s) := rfl

@[simp] theorem run_cons (step : S → I → O × S) (s : S) (i : I) (is : List I) :
    run step s (i :: is) =
      ((step s i).1 :: (run step (step s i).2 is).1, (run step (step s i).2 is).2) := rfl

theorem run_append (step : S → I → O × S) (s : S) (is js : List I) :
    run step s (is ++ js) = ((run step s is).1 ++ (run step (run step s is).2 js).1,
      (run step (run step s is).2 js).2) := by
  induction is generalizing s with
  | nil => rfl
  | cons i is ih => simp [ih]

/-- A property kept by every step on the inputs of a run holds when the run ends. -/
theorem run_invariant {step : S → I → O × S} (Inv : S → Prop) (is : List I)
    (hstep : ∀ s, ∀ i ∈ is, Inv s → Inv (step s i).2) (s : S) (hs : Inv s) :
    Inv (run step s is).2 := by
  induction is generalizing s with
  | nil => exact hs
  | cons i is ih =>
      apply ih (fun s j hj => hstep s j (List.mem_cons_of_mem _ hj))
      exact hstep s i (by simp) hs

theorem run_output {step : S → I → O × S} (Inv : S → Prop) (is : List I)
    (hstep : ∀ s, ∀ i ∈ is, Inv s → Inv (step s i).2) (s : S) (hs : Inv s) (o : O)
    (ho : o ∈ (run step s is).1) : ∃ i ∈ is, ∃ t, Inv t ∧ o = (step t i).1 := by
  induction is generalizing s with
  | nil => simp at ho
  | cons i is ih =>
      rcases List.mem_cons.mp ho with rfl | ho
      · exact ⟨i, by simp, s, hs, rfl⟩
      · obtain ⟨j, hj, t, ht, rfl⟩ := ih (fun s j hj => hstep s j (List.mem_cons_of_mem _ hj))
          (step s i).2 (hstep s i (by simp) hs) ho
        exact ⟨j, List.mem_cons_of_mem _ hj, t, ht, rfl⟩

/-- An invariant that relates the state to the inputs consumed and the outputs returned so far. -/
theorem run_history {F : Type} {step : S → I → List F × S} (Inv : List I → List F → S → Prop)
    (is : List I) (hstep : ∀ past i out s, past ++ [i] <+: is → Inv past out s →
      Inv (past ++ [i]) (out ++ (step s i).1) (step s i).2)
    (s : S) (hs : Inv [] [] s) : Inv is (run step s is).1.flatten (run step s is).2 := by
  induction is using List.reverseRecOn with
  | nil => exact hs
  | append_singleton is i ih =>
      have hpre :=
        ih fun past j out s hp => hstep past j out s (hp.trans (List.prefix_append is [i]))
      have h := hstep is i _ _ (List.prefix_refl _) hpre
      simpa [run_append] using h

section Projection

variable {F σ : Type} (step : S → I → List F × S) (part : σ → I → List F × σ) (view : S → σ)
  (mine : I → Bool) (own : F → Bool) (Ok : I → Prop) (Inv : S → Prop)

/-- A machine whose `view` moves by a machine of its own on the inputs that are `mine`, and stays
put on all others, is seen through that view as the small machine fed with those inputs only. -/
theorem run_project (hinv : ∀ s i, Ok i → Inv s → Inv (step s i).2)
    (hmine : ∀ s i, Ok i → Inv s → mine i = true →
      (step s i).1.filter own = (part (view s) i).1 ∧ view (step s i).2 = (part (view s) i).2)
    (hother : ∀ s i, Ok i → Inv s → mine i = false →
      (step s i).1.filter own = [] ∧ view (step s i).2 = view s)
    (is : List I) (hok : ∀ i ∈ is, Ok i) (s : S) (hs : Inv s) :
    (run step s is).1.flatten.filter own =
        (run part (view s) (is.filter mine)).1.flatten ∧
      view (run step s is).2 = (run part (view s) (is.filter mine)).2 := by
  induction is generalizing s with
  | nil => exact ⟨rfl, rfl⟩
  | cons i is ih =>
      have hi : Ok i := hok i (by simp)
      obtain ⟨hout, hview⟩ := ih (fun j hj => hok j (List.mem_cons_of_mem _ hj)) (step s i).2
        (hinv s i hi hs)
      cases hm : mine i with
      | true =>
          obtain ⟨hf, hv⟩ := hmine s i hi hs hm
          rw [hv] at hout hview
          simp [hm, hf, hout, hview]
      | false =>
          obtain ⟨hf, hv⟩ := hother s i hi hs hm
          rw [hv] at hout hview
          simp [hm, hf, hout, hview]

end Projection

end SrtVpn.Transducer
