import Mathlib.Logic.Function.Iterate

/-!
# Loops that test behind their body

A `do … while` loop on a state.  It takes `n` rounds exactly if the state after `n` rounds is the first one that the loop
does not go on from (`doWhile_sound`, `doWhile_complete`).
-/

namespace Cs564

variable {σ : Type} {body : σ → σ} {again : σ → Bool} {s t : σ} {n : Nat}

/-- `do body while again`, in at most the given number of rounds: how many it takes, and the state behind the loop. -/
def doWhile (body : σ → σ) (again : σ → Bool) : Nat → σ → Option (Nat × σ)
  | 0, _ => none
  | fuel + 1, s =>
    if again (body s) then (doWhile body again fuel (body s)).map fun r => (r.1 + 1, r.2) else some (1, body s)

/-- The loop goes on behind each round before the `n`-th, and not behind this one. -/
def StopsAfter (body : σ → σ) (again : σ → Bool) (s : σ) (n : Nat) : Prop :=
  1 ≤ n ∧ again (body^[n] s) = false ∧ ∀ m, 1 ≤ m → m < n → again (body^[m] s) = true

theorem StopsAfter.succ (h : again (body s) = true) :
    StopsAfter body again s (n + 1) ↔ StopsAfter body again (body s) n := by
  constructor
  · rintro ⟨-, hstop, hgo⟩
    refine ⟨?_, hstop, fun m hm hlt => hgo (m + 1) (by omega) (by omega)⟩
    by_contra hzero
    obtain rfl : n = 0 := by omega
    rw [Function.iterate_one, h] at hstop
    cases hstop
  · rintro ⟨hn, hstop, hgo⟩
    refine ⟨by omega, hstop, ?_⟩
    intro m hm hlt
    obtain ⟨m, rfl⟩ := Nat.exists_eq_add_of_le' hm
    cases m with
    | zero => exact h
    | succ m => exact hgo (m + 1) (by omega) (by omega)

theorem doWhile_sound {fuel : Nat} (h : doWhile body again fuel s = some (n, t)) :
    StopsAfter body again s n ∧ t = body^[n] s := by
  induction fuel generalizing s n with
  | zero => cases h
  | succ fuel ih =>
    rw [doWhile] at h
    by_cases hagain : again (body s) = true
    · rw [if_pos hagain, Option.map_eq_some_iff] at h
      obtain ⟨⟨m, u⟩, hrest, hpair⟩ := h
      obtain ⟨rfl, rfl⟩ := Prod.mk.inj hpair
      obtain ⟨hstops, rfl⟩ := ih hrest
      exact ⟨(StopsAfter.succ hagain).mpr hstops, rfl⟩
    · rw [if_neg hagain] at h
      obtain ⟨rfl, rfl⟩ := Prod.mk.inj (Option.some.inj h)
      exact ⟨⟨Nat.le_refl 1, by simpa using hagain, fun m hm hlt => absurd hlt (by omega)⟩, rfl⟩

theorem doWhile_complete (h : StopsAfter body again s n) : doWhile body again n s = some (n, body^[n] s) := by
  induction n generalizing s with
  | zero => exact absurd h.1 (by decide)
  | succ n ih =>
    rw [doWhile]
    by_cases hagain : again (body s) = true
    · rw [if_pos hagain, ih ((StopsAfter.succ hagain).mp h)]
      rfl
    · have hzero : n = 0 := by
        by_contra hpos
        exact hagain (h.2.2 1 (Nat.le_refl 1) (by omega))
      rw [if_neg hagain, hzero]
      rfl

end Cs564
