import Mathlib.Data.List.Induction

namespace SrtVpn.Runs

variable {S L : Type} (step : S → L → Option S)

def exec (s : S) (ls : List L) : Option S := ls.foldlM step s

/-- `P` holds in every state a run passes through. -/
def Throughout (P : S → Prop) (s : S) (ls : List L) : Prop :=
  ∀ past, past <+: ls → ∀ t, exec step s past = some t → P t

/-- `ok` holds of every step a run takes, in the state the step is taken from. -/
def EachStep (ok : S → L → Prop) (s : S) (ls : List L) : Prop :=
  ∀ past l t t', past ++ [l] <+: ls → exec step s past = some t → step t l = some t' → ok t l

theorem exec_cons (s : S) (l : L) (ls : List L) :
    exec step s (l :: ls) = (step s l).bind (exec step · ls) := rfl

theorem exec_append_singleton (s : S) (ls : List L) (l : L) :
    exec step s (ls ++ [l]) = (exec step s ls).bind (step · l) := by
  rw [exec, exec, List.foldlM_append]
  cases List.foldlM step s ls <;> simp

theorem exec_append (s : S) (ls ls' : List L) :
    exec step s (ls ++ ls') = (exec step s ls).bind (exec step · ls') := by
  rw [exec, exec, List.foldlM_append]
  rfl

variable {step} {P Q : S → Prop} {ok : S → L → Prop} {s : S} {ls : List L}

theorem concat_prefix_concat {past ls : List L} {l last : L} :
    past ++ [l] <+: ls ++ [last] ↔ (past = ls ∧ l = last) ∨ past ++ [l] <+: ls := by
  rw [List.prefix_concat_iff]
  apply or_congr_left
  constructor
  · intro heq
    obtain ⟨hpast, hlast⟩ := List.append_inj' heq rfl
    exact ⟨hpast, List.singleton_inj.mp hlast⟩
  · rintro ⟨rfl, rfl⟩
    rfl

/-- What holds at the start and is kept by every admissible step holds throughout. -/
theorem throughout_of_eachStep (hs : P s)
    (hstep : ∀ t l t', P t → ok t l → step t l = some t' → P t')
    (hok : EachStep step ok s ls) : Throughout step P s ls := by
  intro past
  induction past using List.reverseRecOn with
  | nil =>
      intro _ t ht
      obtain rfl := Option.some.inj ht
      exact hs
  | append_singleton past l ih =>
      intro hinit t ht
      rw [exec_append_singleton, Option.bind_eq_some_iff] at ht
      obtain ⟨u, hu, hl⟩ := ht
      exact hstep u l t (ih ((List.prefix_append past [l]).trans hinit) u hu)
        (hok past l u t hinit hu hl) hl

theorem throughout_of_step (hs : P s) (hstep : ∀ t l t', P t → step t l = some t' → P t') :
    Throughout step P s ls := by
  have hany : EachStep step (fun _ _ => True) s ls := fun _ _ _ _ _ _ _ => trivial
  exact throughout_of_eachStep hs (fun t l t' h _ hl => hstep t l t' h hl) hany

theorem Throughout.mono (h : Throughout step P s ls) (hPQ : ∀ t, P t → Q t) :
    Throughout step Q s ls :=
  fun past hp t ht => hPQ t (h past hp t ht)

theorem Throughout.and (hP : Throughout step P s ls) (hQ : Throughout step Q s ls) :
    Throughout step (fun t => P t ∧ Q t) s ls :=
  fun past hp t ht => ⟨hP past hp t ht, hQ past hp t ht⟩

theorem eachStep_of_throughout (hback : ∀ t l t', step t l = some t' → P t → P t' → ok t l)
    (h : Throughout step P s ls) : EachStep step ok s ls := by
  intro past l t t' hinit ht hl
  apply hback t l t' hl (h past ((List.prefix_append past [l]).trans hinit) t ht)
  apply h (past ++ [l]) hinit
  rw [exec_append_singleton, ht, Option.bind_some, hl]

theorem eachStep_cons_iff {l : L} :
    EachStep step ok s (l :: ls) ↔ ∀ t, step s l = some t → ok s l ∧ EachStep step ok t ls := by
  constructor
  · intro h t ht
    refine ⟨h [] l s t (by simp) rfl ht, fun past m u u' hinit hu hm => ?_⟩
    apply h (l :: past) m u u' (List.cons_prefix_cons.mpr ⟨rfl, hinit⟩) ?_ hm
    rw [exec_cons, ht]
    exact hu
  · intro h past m t t' hinit ht hm
    cases past with
    | nil =>
        obtain rfl := Option.some.inj ht
        obtain ⟨rfl, -⟩ := List.cons_prefix_cons.mp hinit
        exact (h t' hm).1
    | cons k past =>
        rw [List.cons_append] at hinit
        obtain ⟨rfl, hpast⟩ := List.cons_prefix_cons.mp hinit
        rw [exec_cons, Option.bind_eq_some_iff] at ht
        obtain ⟨u, hu, ht⟩ := ht
        exact (h u hu).2 past m t t' hpast ht hm

theorem eachStep_cons {l : L} (hl : ok s l) (h : ∀ t, step s l = some t → EachStep step ok t ls) :
    EachStep step ok s (l :: ls) :=
  eachStep_cons_iff.mpr fun t ht => ⟨hl, h t ht⟩

instance decidableEachStep [∀ s l, Decidable (ok s l)] :
    (s : S) → (ls : List L) → Decidable (EachStep step ok s ls)
  | _, [] => isTrue fun _ _ _ _ hinit => by simp at hinit
  | s, l :: ls =>
      match hl : step s l with
      | none => isTrue (eachStep_cons_iff.mpr fun t ht => by simp [hl] at ht)
      | some t =>
          have := decidableEachStep t ls
          decidable_of_iff (ok s l ∧ EachStep step ok t ls) (by simp [eachStep_cons_iff, hl])

theorem eachStep_append {ls' : List L} (h : EachStep step ok s ls)
    (h' : ∀ t, exec step s ls = some t → EachStep step ok t ls') :
    EachStep step ok s (ls ++ ls') := by
  induction ls generalizing s with
  | nil => exact h' s rfl
  | cons l ls ih =>
      rw [List.cons_append, eachStep_cons_iff] at *
      intro t ht
      refine ⟨(h t ht).1, ih (h t ht).2 fun u hu => h' u ?_⟩
      rw [exec_cons, ht]
      exact hu

def guarded (step : S → L → Option S) (ok : S → L → Prop) [∀ s l, Decidable (ok s l)] (s : S)
    (l : L) : Option S :=
  if ok s l then step s l else none

theorem eachStep_of_guarded [∀ s l, Decidable (ok s l)] {t : S}
    (h : exec (guarded step ok) s ls = some t) :
    EachStep step ok s ls ∧ exec step s ls = some t := by
  induction ls generalizing s with
  | nil => exact ⟨fun _ _ _ _ hinit => by simp at hinit, h⟩
  | cons l ls ih =>
      rw [exec_cons, Option.bind_eq_some_iff] at h
      obtain ⟨u, hu, hrest⟩ := h
      obtain ⟨hok, hstep⟩ := Option.ite_none_right_eq_some.mp hu
      obtain ⟨heach, hexec⟩ := ih hrest
      refine ⟨eachStep_cons hok fun t ht => ?_, ?_⟩
      · obtain rfl := Option.some.inj (hstep.symm.trans ht)
        exact heach
      · rw [exec_cons, hstep]
        exact hexec

theorem EachStep.mono {ok' : S → L → Prop} (h : EachStep step ok s ls)
    (hok : ∀ t l, ok t l → ok' t l) : EachStep step ok' s ls :=
  fun past l t t' hinit ht hl => hok t l (h past l t t' hinit ht hl)

theorem eachStep_of_forall (h : ∀ l ∈ ls, ∀ t, ok t l) : EachStep step ok s ls := by
  intro past l t t' hinit ht hl
  exact h l (hinit.subset (List.mem_append_right past List.mem_cons_self)) t

end SrtVpn.Runs
