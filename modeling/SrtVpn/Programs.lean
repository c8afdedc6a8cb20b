import Mathlib.Data.List.Basic

namespace SrtVpn.Programs

variable {σ τ ε α β : Type}

/-- Programs that work on a state and may stop with an error, keeping what they did to the state. -/
abbrev Prog (σ ε α : Type) := ExceptT ε (StateM σ) α

def exec (m : Prog σ ε α) (s : σ) : Except ε α × σ := (ExceptT.run m).run s

def Prog.of (f : σ → Except ε α × σ) : Prog σ ε α := ExceptT.mk fun s => f s

@[simp] theorem exec_of (f : σ → Except ε α × σ) (s : σ) : exec (Prog.of f) s = f s := rfl

theorem exec_bind (m : Prog σ ε α) (f : α → Prog σ ε β) (s : σ) :
    exec (m >>= f) s =
      match exec m s with
      | (.ok a, t) => exec (f a) t
      | (.error e, t) => (.error e, t) := by
  change StateT.run (ExceptT.run m >>= ExceptT.bindCont f) s = _
  rw [StateT.run_bind]
  change (match exec m s with | (a, t) => StateT.run (ExceptT.bindCont f a) t) = _
  cases hm : exec m s with
  | mk r t => cases r <;> rfl

@[simp] theorem exec_pure (a : α) (s : σ) : exec (pure a : Prog σ ε α) s = (.ok a, s) := rfl

@[simp] theorem exec_throw (e : ε) (s : σ) : exec (throw e : Prog σ ε α) s = (.error e, s) := rfl

theorem exec_bind_ok {m : Prog σ ε α} {f : α → Prog σ ε β} {s t : σ} {a : α}
    (h : exec m s = (.ok a, t)) : exec (m >>= f) s = exec (f a) t := by
  rw [exec_bind, h]

theorem exec_bind_eq_ok {m : Prog σ ε α} {f : α → Prog σ ε β} {s t : σ} {b : β}
    (h : exec (m >>= f) s = (.ok b, t)) :
    ∃ a u, exec m s = (.ok a, u) ∧ exec (f a) u = (.ok b, t) := by
  rw [exec_bind] at h
  split at h
  next a u hm => exact ⟨a, u, hm, h⟩
  next => simp at h

def Keeps (view : σ → τ) (m : Prog σ ε α) : Prop := ∀ s, view (exec m s).2 = view s

section Keeps

variable {view : σ → τ} {m : Prog σ ε α} {f : α → Prog σ ε β}

theorem Keeps.pure (a : α) : Keeps view (pure a : Prog σ ε α) := fun _ => rfl


theorem Keeps.bind (hm : Keeps view m) (hf : ∀ a, Keeps view (f a)) : Keeps view (m >>= f) := by
  intro s
  have hms := hm s
  rw [exec_bind]
  cases h : exec m s with
  | mk r t =>
      rw [h] at hms
      cases r with
      | ok a => exact (hf a t).trans hms
      | error e => exact hms

theorem Keeps.ite {c : Prop} [Decidable c] {n : Prog σ ε α} (hm : Keeps view m)
    (hn : Keeps view n) : Keeps view (if c then m else n) := by
  split
  · exact hm
  · exact hn

theorem Keeps.passes {P : τ → Prop} (hm : Keeps view m) {s : σ} (hs : ¬ P (view s))
    (h : P (view (exec (m >>= f) s).2)) :
    ∃ a t, exec m s = (.ok a, t) ∧ view t = view s ∧ P (view (exec (f a) t).2) := by
  have hms := hm s
  rw [exec_bind] at h
  cases hr : exec m s with
  | mk r t =>
      rw [hr] at h hms
      cases r with
      | ok a => exact ⟨a, t, rfl, hms, h⟩
      | error e =>
          have hview : view t = view s := hms
          exact absurd (hview ▸ h) hs

end Keeps

/-- If the program stops with an error, then in a state in `P`. -/
def OnError (P : σ → Prop) (m : Prog σ ε α) (s : σ) : Prop := ∀ e t, exec m s = (.error e, t) → P t

section OnError

variable {P : σ → Prop} {m : Prog σ ε α} {f : α → Prog σ ε β} {s t : σ}

theorem onError_of_ok {a : α} (h : exec m s = (.ok a, t)) : OnError P m s ↔ True := by
  refine iff_true_intro fun e u hu => ?_
  rw [h] at hu
  cases hu

theorem onError_of_error {e : ε} (h : exec m s = (.error e, t)) : OnError P m s ↔ P t := by
  constructor
  · intro hm
    exact hm e t h
  · intro ht e' u hu
    rw [h] at hu
    obtain ⟨-, rfl⟩ := Prod.mk.inj hu
    exact ht

theorem onError_bind_ok {a : α} (h : exec m s = (.ok a, t)) :
    OnError P (m >>= f) s ↔ OnError P (f a) t := by
  rw [OnError, OnError, exec_bind_ok h]

theorem onError_bind_error {e : ε} (h : exec m s = (.error e, t)) :
    OnError P (m >>= f) s ↔ P t := by
  apply onError_of_error (e := e)
  rw [exec_bind, h]

end OnError

end SrtVpn.Programs
