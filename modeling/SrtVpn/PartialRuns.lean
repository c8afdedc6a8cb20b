import SrtVpn.Runs

namespace SrtVpn.PartialRuns

variable {S L O : Type} (act : S → L → Option (O × S))

/-- Take the steps of a list, keeping what every step returned. -/
def run (s : S) : List L → Option (List O × S)
  | [] => some ([], s)
  | l :: ls => (act s l).bind fun p => (run p.2 ls).map fun q => (p.1 :: q.1, q.2)

variable {act} {s s' : S} {l : L} {ls ls' : List L} {outs : List O}

theorem run_nil_eq : run act s [] = some (outs, s') ↔ outs = [] ∧ s' = s := by
  rw [run, Option.some.injEq, Prod.mk.injEq]
  exact and_congr eq_comm eq_comm

theorem run_cons_eq : run act s (l :: ls) = some (outs, s') ↔
    ∃ o u rest, act s l = some (o, u) ∧ run act u ls = some (rest, s') ∧ outs = o :: rest := by
  rw [run, Option.bind_eq_some_iff]
  constructor
  · rintro ⟨⟨o, u⟩, hact, hrest⟩
    obtain ⟨⟨rest, t⟩, hrun, heq⟩ := Option.map_eq_some_iff.mp hrest
    obtain ⟨rfl, rfl⟩ := Prod.mk.inj heq
    exact ⟨o, u, rest, hact, hrun, rfl⟩
  · rintro ⟨o, u, rest, hact, hrun, rfl⟩
    exact ⟨(o, u), hact, Option.map_eq_some_iff.mpr ⟨(rest, s'), hrun, rfl⟩⟩

theorem run_append_eq : run act s (ls ++ ls') = some (outs, s') ↔
    ∃ first u rest, run act s ls = some (first, u) ∧ run act u ls' = some (rest, s') ∧
    outs = first ++ rest := by
  induction ls generalizing s outs with
  | nil =>
      constructor
      · intro h
        exact ⟨[], s, outs, rfl, h, rfl⟩
      · rintro ⟨first, u, rest, hfirst, hrest, rfl⟩
        obtain ⟨rfl, rfl⟩ := run_nil_eq.mp hfirst
        exact hrest
  | cons l ls ih =>
      rw [List.cons_append, run_cons_eq]
      constructor
      · rintro ⟨o, u, rest, hact, hrun, rfl⟩
        obtain ⟨first, v, last, hfirst, hlast, rfl⟩ := ih.mp hrun
        exact ⟨o :: first, v, last, run_cons_eq.mpr ⟨o, u, first, hact, hfirst, rfl⟩, hlast, rfl⟩
      · rintro ⟨first, v, last, hfirst, hlast, rfl⟩
        obtain ⟨o, u, first, hact, hrun, rfl⟩ := run_cons_eq.mp hfirst
        exact ⟨o, u, first ++ last, hact, ih.mpr ⟨first, v, last, hrun, hlast, rfl⟩, rfl⟩

theorem run_snoc_eq : run act s (ls ++ [l]) = some (outs, s') ↔
    ∃ past u o, run act s ls = some (past, u) ∧ act u l = some (o, s') ∧ outs = past ++ [o] := by
  rw [run_append_eq]
  constructor
  · rintro ⟨past, u, rest, hpast, hrest, rfl⟩
    obtain ⟨o, v, last, hact, hlast, rfl⟩ := run_cons_eq.mp hrest
    obtain ⟨rfl, rfl⟩ := run_nil_eq.mp hlast
    exact ⟨past, u, o, hpast, hact, rfl⟩
  · rintro ⟨past, u, o, hpast, hact, rfl⟩
    exact ⟨past, u, [o], hpast, run_cons_eq.mpr ⟨o, s', [], hact, rfl, rfl⟩, rfl⟩

/-- `ok` holds of every step of a run, in the state the step is taken from. -/
def EachStep (act : S → L → Option (O × S)) (ok : S → L → Prop) (s : S) (ls : List L) : Prop :=
  ∀ past l outs t, past ++ [l] <+: ls → run act s past = some (outs, t) → ok t l

theorem run_history_of_eachStep {ok : S → L → Prop} (Inv : List L → List O → S → Prop)
    (hstep : ∀ past outs t l o t', Inv past outs t → ok t l → act t l = some (o, t') →
      Inv (past ++ [l]) (outs ++ [o]) t')
    (hs : Inv [] [] s) (hok : EachStep act ok s ls) (h : run act s ls = some (outs, s')) :
    Inv ls outs s' := by
  induction ls using List.reverseRecOn generalizing outs s' with
  | nil =>
      obtain ⟨rfl, rfl⟩ := run_nil_eq.mp h
      exact hs
  | append_singleton ls l ih =>
      obtain ⟨past, u, o, hpast, hact, rfl⟩ := run_snoc_eq.mp h
      have hbefore : EachStep act ok s ls :=
        fun p m outs t hp => hok p m outs t (hp.trans (List.prefix_append ls [l]))
      exact hstep ls past u l o s' (ih hbefore hpast) (hok ls l past u List.prefix_rfl hpast) hact

theorem run_history (Inv : List L → List O → S → Prop)
    (hstep : ∀ past outs t l o t', Inv past outs t → act t l = some (o, t') →
      Inv (past ++ [l]) (outs ++ [o]) t')
    (hs : Inv [] [] s) (h : run act s ls = some (outs, s')) : Inv ls outs s' :=
  have hany : EachStep act (fun _ _ => True) s ls := fun _ _ _ _ _ _ => trivial
  run_history_of_eachStep Inv
    (fun past outs t l o t' hinv _ => hstep past outs t l o t' hinv) hs hany h

end SrtVpn.PartialRuns
