import Cs564.Lib.Run

/-!
# Code whose state does not matter

Stateful code that does what pure code does, whatever its state: it returns the same value or throws the same exception.
-/

namespace Cs564

variable {ε σ α β γ : Type}

/-- Without its state, `x` is `r`. -/
def Erases (x : EStateM ε σ α) (r : Except ε α) : Prop :=
  ∀ s, match x s with
    | .ok a _ => r = .ok a
    | .error e _ => r = .error e

namespace Erases

variable {x : EStateM ε σ α} {r : Except ε α}

theorem pure (a : α) : Erases (pure a : EStateM ε σ α) (pure a) := fun _ => rfl

theorem throw (e : ε) : Erases (throw e : EStateM ε σ α) (throw e) := fun _ => rfl

theorem ofExcept (r : Except ε α) : Erases (MonadExcept.ofExcept r : EStateM ε σ α) r := by
  cases r with
  | ok a => exact Erases.pure a
  | error e => exact Erases.throw e

/-- A change of the state, and what comes behind it. -/
theorem after_modify {f : σ → σ} (h : Erases x r) : Erases (modify f >>= fun _ => x) r := by
  intro s
  rw [run_bind, run_modify]
  exact h (f s)

theorem bind {f : α → EStateM ε σ β} {g : α → Except ε β} (h : Erases x r) (hf : ∀ a, Erases (f a) (g a)) :
    Erases (x >>= f) (r >>= g) := by
  intro s
  have hx := h s
  rw [run_bind]
  cases hrun : x s with
  | ok a s' =>
    rw [hrun] at hx
    obtain rfl : r = .ok a := hx
    exact hf a s'
  | error e s' =>
    rw [hrun] at hx
    obtain rfl : r = .error e := hx
    rfl

theorem foldlM {f : β → γ → EStateM ε σ β} {g : β → γ → Except ε β} (h : ∀ b c, Erases (f b c) (g b c)) (l : List γ)
    (b : β) : Erases (l.foldlM f b) (l.foldlM g b) := by
  induction l generalizing b with
  | nil => exact Erases.pure b
  | cons c l ih =>
    rw [List.foldlM_cons, List.foldlM_cons]
    exact (h b c).bind ih

end Erases

end Cs564
