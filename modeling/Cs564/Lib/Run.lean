/-!
# Runs of stateful code that may throw

Equations for running `EStateM` code on a state.  A state is not rolled back when code throws.
-/

namespace Cs564

variable {ε σ α β : Type}

@[simp] theorem run_bind (x : EStateM ε σ α) (f : α → EStateM ε σ β) (s : σ) :
    (x >>= f) s = match x s with
      | .ok a s' => f a s'
      | .error e s' => .error e s' := by
  show EStateM.bind x f s = _
  unfold EStateM.bind
  cases x s <;> rfl

@[simp] theorem run_pure (a : α) (s : σ) : (pure a : EStateM ε σ α) s = .ok a s := rfl

@[simp] theorem run_throw (e : ε) (s : σ) : (throw e : EStateM ε σ α) s = .error e s := rfl

@[simp] theorem run_get (s : σ) : (get : EStateM ε σ σ) s = .ok s s := rfl

@[simp] theorem run_modify (f : σ → σ) (s : σ) : (modify f : EStateM ε σ Unit) s = .ok () (f s) := rfl

/-- A first step that returns. -/
theorem run_bind_ok {x : EStateM ε σ α} {f : α → EStateM ε σ β} {s s' : σ} {a : α} (h : x s = .ok a s') :
    (x >>= f) s = f a s' := by
  rw [run_bind, h]

/-- A first step that throws. -/
theorem run_bind_error {x : EStateM ε σ α} {f : α → EStateM ε σ β} {s s' : σ} {e : ε} (h : x s = .error e s') :
    (x >>= f) s = .error e s' := by
  rw [run_bind, h]

section FoldUntil

/-- A loop over a list that may be left before its end: `body` gives the new value, and whether the loop is left. -/
def foldUntil (body : α → β → α × Bool) : α → List β → α
  | acc, [] => acc
  | acc, x :: l => if (body acc x).2 then (body acc x).1 else foldUntil body (body acc x).1 l

/-- A loop that is left at `x` with a value that does not depend on the rounds before. -/
theorem foldUntil_stop {body : α → β → α × Bool} {l₁ l₂ : List β} {x : β} {r : α}
    (hgo : ∀ y ∈ l₁, ∀ acc, (body acc y).2 = false) (hstop : ∀ acc, body acc x = (r, true)) (acc : α) :
    foldUntil body acc (l₁ ++ x :: l₂) = r := by
  induction l₁ generalizing acc with
  | nil => simp [foldUntil, hstop]
  | cons y l₁ ih =>
    rw [List.cons_append, foldUntil, hgo y (List.mem_cons_self ..)]
    exact ih (fun w hw => hgo w (List.mem_cons_of_mem _ hw)) _

end FoldUntil

end Cs564
