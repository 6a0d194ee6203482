import Mathlib.Data.List.Lex
import Mathlib.Order.Lattice

/-!
# Orders by position

Texts of one shape are ordered by the first of their fields that differs (`append_lt_append_iff`), and so are numbers that
count units through periods of given lengths (`position_lt_iff`).
-/

namespace Cs564

section Texts

variable {α : Type} [LinearOrder α]

/-- Texts that start with fields of the same length. -/
theorem append_lt_append_iff {s t x y : List α} (h : s.length = t.length) : s ++ x < t ++ y ↔ s < t ∨ s = t ∧ x < y := by
  induction s generalizing t with
  | nil =>
    obtain rfl := List.length_eq_zero_iff.mp h.symm
    simp
  | cons a s ih =>
    cases t with
    | nil => cases h
    | cons b t =>
      rw [List.cons_append, List.cons_append, List.cons_lt_cons_iff, List.cons_lt_cons_iff, ih (Nat.succ.inj h),
        List.cons.injEq]
      tauto

end Texts

section Periods

variable {len : Nat → Nat} {i i' r r' : Nat}

/-- The units before a period, if each period has so many of them. -/
def unitsBefore (len : Nat → Nat) : Nat → Nat
  | 0 => 0
  | i + 1 => unitsBefore len i + len i

theorem unitsBefore_mono (h : i ≤ i') : unitsBefore len i ≤ unitsBefore len i' := by
  induction h with
  | refl => exact Nat.le_refl _
  | step _ ih => exact Nat.le_trans ih (Nat.le_add_right _ _)

/-- A unit comes before the later periods. -/
theorem position_lt (hr : r < len i) (h : i < i') : unitsBefore len i + r < unitsBefore len i' := by
  have hnext : unitsBefore len (i + 1) ≤ unitsBefore len i' := unitsBefore_mono h
  rw [unitsBefore] at hnext
  omega

/-- Units are counted period by period. -/
theorem position_lt_iff (len : Nat → Nat) (hr : r < len i) (hr' : r' < len i') :
    unitsBefore len i + r < unitsBefore len i' + r' ↔ i < i' ∨ i = i' ∧ r < r' := by
  rcases Nat.lt_trichotomy i i' with h | rfl | h
  · have := position_lt hr h
    omega
  · omega
  · have := position_lt hr' h
    omega

end Periods

end Cs564
