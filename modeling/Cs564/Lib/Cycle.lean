import Mathlib.Data.Nat.Find
import Mathlib.Data.Nat.ModEq
import Mathlib.Algebra.Order.Ring.Int

/-!
# Going round

The numbers below `n` in the order in which a hand that stands at `hand` comes to them (`turn`): each of them once in a
round of `n` steps, and in the same order in the next round.
-/

namespace Cs564

variable {n hand : Nat}

/-- Where the hand stands after `k + 1` steps. -/
def turn (n hand k : Nat) : Nat := (hand + 1 + k) % n

/-- Where it has been before. -/
def turns (n hand k : Nat) : List Nat := (List.range k).map (turn n hand)

theorem turn_zero (n hand : Nat) : turn n hand 0 = (hand + 1) % n := rfl

theorem turn_lt (hn : 0 < n) (k : Nat) : turn n hand k < n := Nat.mod_lt _ hn

/-- One step. -/
theorem turn_succ (k : Nat) : (turn n hand k + 1) % n = turn n hand (k + 1) := by
  unfold turn
  rw [Nat.mod_add_mod, Nat.add_assoc]

/-- The next round. -/
theorem turn_add (k : Nat) : turn n hand (k + n) = turn n hand k := by
  unfold turn
  rw [← Nat.add_assoc, Nat.add_mod_right]

/-- Two steps that lead to the same place are whole rounds apart. -/
private theorem turn_eq_iff {j k : Nat} : turn n hand j = turn n hand k ↔ j % n = k % n := by
  unfold turn
  exact ⟨fun h => Nat.ModEq.add_left_cancel' (hand + 1) h, fun h => Nat.ModEq.add_left (hand + 1) h⟩

/-- No place twice in one round. -/
theorem turn_inj {j k : Nat} (hj : j < n) (hk : k < n) (h : turn n hand j = turn n hand k) : j = k := by
  rw [turn_eq_iff, Nat.mod_eq_of_lt hj, Nat.mod_eq_of_lt hk] at h
  exact h

/-- The first place comes again after whole rounds. -/
theorem turn_eq_first_iff {k : Nat} : (hand + 1) % n = turn n hand k ↔ k % n = 0 := by
  rw [← turn_zero, turn_eq_iff, Nat.zero_mod]
  exact eq_comm

/-- Every place is there. -/
theorem exists_turn {i : Nat} (hi : i < n) : ∃ k < n, turn n hand k = i := by
  refine ⟨(i + (n - (hand + 1) % n)) % n, Nat.mod_lt _ (Nat.zero_lt_of_lt hi), ?_⟩
  have hlt : (hand + 1) % n < n := Nat.mod_lt _ (Nat.zero_lt_of_lt hi)
  have hsum : (hand + 1) % n + (i + (n - (hand + 1) % n)) = i + n := by omega
  unfold turn
  rw [Nat.add_mod_mod, ← Nat.mod_add_mod, hsum, Nat.add_mod_right, Nat.mod_eq_of_lt hi]

theorem turns_zero (n hand : Nat) : turns n hand 0 = [] := rfl

theorem turns_succ (k : Nat) : turns n hand (k + 1) = turns n hand k ++ [turn n hand k] := by
  unfold turns
  rw [List.range_succ, List.map_append, List.map_singleton]

theorem mem_turns {i k : Nat} : i ∈ turns n hand k ↔ ∃ j < k, turn n hand j = i := by
  unfold turns
  simp only [List.mem_map, List.mem_range]

/-- In the first round the hand has not been at its place. -/
theorem turn_notMem_turns {k : Nat} (hk : k < n) : turn n hand k ∉ turns n hand k := by
  rw [mem_turns]
  rintro ⟨j, hj, heq⟩
  exact Nat.ne_of_lt hj (turn_inj (Nat.lt_trans hj hk) hk heq)

/-- After a round it has been everywhere. -/
theorem mem_turns_of_le {i k : Nat} (hk : n ≤ k) (hi : i < n) : i ∈ turns n hand k := by
  have hturn : ∃ j < n, turn n hand j = i := exists_turn hi
  obtain ⟨j, hj, heq⟩ := hturn
  exact mem_turns.mpr ⟨j, Nat.lt_of_lt_of_le hj hk, heq⟩

/-- The rounds that have begun before step `k`, and with it. -/
theorem rounds_begun (hn : 0 < n) (k : Nat) :
    (if k % n = 0 then (k + (n - 1)) / n + 1 else (k + (n - 1)) / n) = (k + 1 + (n - 1)) / n := by
  have hsplit := Nat.div_add_mod k n
  have hlt := Nat.mod_lt k hn
  obtain ⟨q, hq⟩ : ∃ q, q = k / n := ⟨_, rfl⟩
  obtain ⟨r, hr⟩ : ∃ r, r = k % n := ⟨_, rfl⟩
  rw [← hq, ← hr] at hsplit
  rw [← hr] at hlt ⊢
  have hnext : k + 1 + (n - 1) = r + n * (q + 1) := by
    rw [Nat.mul_succ]
    omega
  rw [hnext, Nat.add_mul_div_left _ _ hn, Nat.div_eq_of_lt hlt, Nat.zero_add]
  by_cases hzero : r = 0
  · have hbefore : k + (n - 1) = (n - 1) + n * q := by omega
    rw [if_pos hzero, hbefore, Nat.add_mul_div_left _ _ hn, Nat.div_eq_of_lt (by omega), Nat.zero_add]
  · have hbefore : k + (n - 1) = (r - 1) + n * (q + 1) := by
      rw [Nat.mul_succ]
      omega
    rw [if_neg hzero, hbefore, Nat.add_mul_div_left _ _ hn, Nat.div_eq_of_lt (by omega), Nat.zero_add]

/-- Three rounds have begun only after two whole ones. -/
theorem rounds_begun_lt (hn : 0 < n) {k : Nat} (hk : k ≤ 2 * n) : (k + (n - 1)) / n < 3 := by
  rw [Nat.div_lt_iff_lt_mul hn]
  omega

theorem rounds_begun_eq (hn : 0 < n) : (2 * n + 1 + (n - 1)) / n = 3 := by
  have hthree : 2 * n + 1 + (n - 1) = n * 3 := by omega
  rw [hthree, Nat.mul_div_cancel_left _ hn]

/-- The first of the numbers below `m` with a property, if there is one. -/
theorem first_or_none (p : Nat → Prop) [DecidablePred p] (m : Nat) :
    (∀ k < m, ¬ p k) ∨ ∃ k < m, p k ∧ ∀ j < k, ¬ p j := by
  by_cases h : ∃ k, p k ∧ k < m
  · right
    have hspec := Nat.find_spec h
    refine ⟨Nat.find h, hspec.2, hspec.1, fun j hj hp => Nat.find_min h hj ⟨hp, Nat.lt_trans hj hspec.2⟩⟩
  · left
    exact fun k hk hp => h ⟨k, hp, hk⟩

end Cs564
