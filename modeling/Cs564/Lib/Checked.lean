/-!
# Pure code that may throw

What is known of `Except` code that returned: each of its steps did.
-/

namespace Cs564

variable {ε α β : Type}

/-- Steps in a row return when each of them does. -/
theorem bind_eq_ok {x : Except ε α} {f : α → Except ε β} {b : β} :
    (x >>= f) = .ok b ↔ ∃ a, x = .ok a ∧ f a = .ok b := by
  cases x with
  | error e => exact iff_of_false nofun fun ⟨_, h, _⟩ => nomatch h
  | ok a => exact ⟨fun h => ⟨a, rfl, h⟩, fun ⟨_, h, hf⟩ => by cases h; exact hf⟩

theorem ok_bind (a : α) (f : α → Except ε β) : (Except.ok a >>= f) = f a := rfl

theorem pure_eq_ok {a b : α} : (pure a : Except ε α) = .ok b ↔ a = b := by
  show Except.ok a = Except.ok b ↔ a = b
  exact Except.ok.injEq a b ▸ Iff.rfl

/-- A check in front of a step. -/
theorem guard_eq_ok {p : Prop} [Decidable p] {e : ε} {f : PUnit → Except ε β} {b : β} :
    (if p then throw e >>= f else f PUnit.unit) = .ok b ↔ ¬ p ∧ f PUnit.unit = .ok b := by
  by_cases h : p
  · rw [if_pos h]
    exact iff_of_false nofun fun hnot => hnot.1 h
  · rw [if_neg h]
    exact (and_iff_right h).symm

/-- What every round of a loop keeps, the loop keeps. -/
theorem foldlM_keeps {f : α → β → Except ε α} {P : α → Prop} {l : List β}
    (hstep : ∀ a x a', x ∈ l → P a → f a x = .ok a' → P a') {a a' : α} (ha : P a) (h : l.foldlM f a = .ok a') : P a' := by
  induction l generalizing a with
  | nil => exact pure_eq_ok.mp h ▸ ha
  | cons x l ih =>
    rw [List.foldlM_cons, bind_eq_ok] at h
    obtain ⟨mid, hfirst, hrest⟩ := h
    have hmid : P mid := hstep a x mid List.mem_cons_self ha hfirst
    exact ih (fun b y b' hy => hstep b y b' (List.mem_cons_of_mem _ hy)) hmid hrest

end Cs564
