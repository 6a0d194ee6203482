import Mathlib.Data.List.InsertIdx
import Mathlib.Data.List.TakeDrop
import Mathlib.Data.List.TakeWhile
import Mathlib.Logic.Function.Basic

/-!
# Arrays and search loops

A fixed array of the source is a function from indices; only the part in front of some end mark holds data.
`Holds a l` says that the array `a` starts with the elements of the list `l`, and the lemmas carry that through
the three operations the node code is made of: writing one slot, shifting a tail to make room, and copying a
block to another array.  `firstIndex` is the loop that stops at the first index with a property.
-/

namespace Cs564

variable {α β : Type}

/-! ### Search loops -/

/-- The index after `for (i = 0; i < n; i++) if (p i) break;`. -/
def firstIndex (p : Nat → Bool) (n : Nat) : Nat := (List.range n).findIdx p

theorem firstIndex_eq {p : Nat → Bool} {n k : Nat} (hk : k ≤ n) (before : ∀ i < k, p i = false)
    (stop : k < n → p k = true) : firstIndex p n = k := by
  rcases Nat.lt_or_eq_of_le hk with h | rfl
  · rw [firstIndex, List.findIdx_eq (by simpa using h)]
    exact ⟨by simpa using stop h, fun j hj => by simpa using before j hj⟩
  · rw [firstIndex, List.findIdx_eq_length.2, List.length_range]
    intro i hi
    exact before i (List.mem_range.1 hi)

/-- In front of the end of `takeWhile` the test holds. -/
theorem getElem_of_lt_takeWhile {l : List α} {p : α → Bool} {i : Nat} (hl : i < l.length)
    (hi : i < (l.takeWhile p).length) : p l[i] = true := by
  have h := List.mem_takeWhile_imp (List.getElem_mem hi)
  rwa [List.IsPrefix.getElem (l.takeWhile_prefix p) hi] at h

/-- There it fails. -/
theorem getElem_length_takeWhile {l : List α} {p : α → Bool} (h : (l.takeWhile p).length < l.length) :
    p l[(l.takeWhile p).length] = false := by
  induction l with
  | nil => simp at h
  | cons a l ih =>
    by_cases ha : p a = true
    · simp only [List.takeWhile_cons, ha, if_true, List.length_cons] at h ⊢
      simpa using ih (by omega)
    · simp [ha]

/-! ### Arrays that start with a list -/

/-- The array `a` starts with the elements of `l`. -/
def Holds (a : Nat → α) (l : List α) : Prop := ∀ i (h : i < l.length), a i = l[i]

/-- The block `src[i], …, src[i + len - 1]` copied to `dst[j], …`. The source copies through a buffer, so the two
blocks may overlap. -/
def copyArray (src : Nat → α) (i : Nat) (dst : Nat → α) (j : Nat) (len : Int) : Nat → α :=
  fun k => if j ≤ k ∧ (k : Int) < j + len then src (i + (k - j)) else dst k

theorem Holds.nil (a : Nat → α) : Holds a [] := fun _ h => absurd h (Nat.not_lt_zero _)

theorem Holds.take {a : Nat → α} {l : List α} (h : Holds a l) (n : Nat) : Holds a (l.take n) := by
  intro i hi
  rw [List.getElem_take]
  exact h i (by simp at hi; omega)

theorem Holds.set_of_le {a : Nat → α} {l : List α} (h : Holds a l) {i : Nat} (hi : l.length ≤ i) (x : α) :
    Holds (Function.update a i x) l := by
  intro k hk
  rw [Function.update_of_ne (by omega)]
  exact h k hk

/-- Shifting the tail one slot up and writing `x` at `pos` inserts `x`. -/
theorem Holds.insert {a : Nat → α} {l : List α} (h : Holds a l) {pos : Nat} (hpos : pos ≤ l.length) (x : α) :
    Holds (Function.update (copyArray a pos a (pos + 1) ((l.length : Int) - pos)) pos x) (l.insertIdx pos x) := by
  intro k hk
  rw [List.length_insertIdx_of_le_length hpos] at hk
  rcases Nat.lt_trichotomy k pos with hlt | rfl | hgt
  · rw [Function.update_of_ne (by omega), List.getElem_insertIdx_of_lt hlt, copyArray, if_neg (by omega)]
    exact h k (by omega)
  · rw [Function.update_self, List.getElem_insertIdx_self]
  · rw [Function.update_of_ne (by omega), List.getElem_insertIdx_of_gt hgt, copyArray, if_pos (by omega),
      show pos + (k - (pos + 1)) = k - 1 by omega]
    exact h (k - 1) (by omega)

/-- Copying the block from `i` on to the start of another array. -/
theorem Holds.copy {a b : Nat → α} {l : List α} (h : Holds a l) {i : Nat} {len : Int} (hlen : (l.length : Int) = i + len) :
    Holds (copyArray a i b 0 len) (l.drop i) := by
  intro k hk
  simp only [List.length_drop] at hk
  rw [copyArray, if_pos (by omega), List.getElem_drop, Nat.sub_zero]
  exact h (i + k) (by omega)

end Cs564
