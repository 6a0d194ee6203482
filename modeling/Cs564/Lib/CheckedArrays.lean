import Cs564.Lib.Arrays

/-!
# Arrays with their bounds

The same operations as in `Arrays`, on an array of a given size: an access outside of it has no result.  As long as
they stay inside, they do what the operations without bounds do.
-/

namespace Cs564

variable {α : Type}

/-- `a[i]` of an array with `size` elements. -/
def readAt (size : Nat) (a : Nat → α) (i : Nat) : Option α := if i < size then some (a i) else none

/-- `a[i] = x`. -/
def writeAt (size : Nat) (a : Nat → α) (i : Nat) (x : α) : Option (Nat → α) :=
  if i < size then some (Function.update a i x) else none

/-- `for (; i < n; i++) if (test i) break;`, `rounds` rounds before its end; no result if it is not left by the `break`. -/
def searchFrom (test : Nat → Option Bool) : Nat → Nat → Option Nat
  | 0, _ => none
  | rounds + 1, i => do if ← test i then return i else searchFrom test rounds (i + 1)

/-- `temp[0] = a[i]; temp[1] = a[i + 1]; …`. -/
def readBlock (size : Nat) (a : Nat → α) : Nat → Nat → Option (List α)
  | 0, _ => some []
  | len + 1, i => do
    let x ← readAt size a i
    let temp ← readBlock size a len (i + 1)
    return x :: temp

/-- `a[i] = temp[0]; a[i + 1] = temp[1]; …`. -/
def writeBlock (size : Nat) : List α → (Nat → α) → Nat → Option (Nat → α)
  | [], a, _ => some a
  | x :: temp, a, i => do
    let a ← writeAt size a i x
    writeBlock size temp a (i + 1)

/-- `copyArray` of the source, which goes through a buffer of the given length. -/
def copyBlock (srcSize : Nat) (src : Nat → α) (i : Nat) (dstSize : Nat) (dst : Nat → α) (j : Nat) (len : Int) :
    Option (Nat → α) :=
  if len < 0 then none else do
    let temp ← readBlock srcSize src len.toNat i
    writeBlock dstSize temp dst j

section Inside

variable {size srcSize dstSize i j : Nat} {a src dst : Nat → α}

theorem readAt_eq (hi : i < size) : readAt size a i = some (a i) := if_pos hi

theorem writeAt_eq (hi : i < size) (x : α) : writeAt size a i x = some (Function.update a i x) := if_pos hi

/-- The search, by induction on the rounds in front of the index where it stops. -/
theorem searchFrom_eq {test : Nat → Option Bool} {k rounds : Nat} (hk : i + k = j) (hrounds : k < rounds)
    (before : ∀ m, i ≤ m → m < j → test m = some false) (stop : test j = some true) :
    searchFrom test rounds i = some j := by
  induction k generalizing i rounds with
  | zero =>
    obtain ⟨rounds, rfl⟩ := Nat.exists_eq_add_of_lt hrounds
    obtain rfl : i = j := hk
    simp [searchFrom, stop]
  | succ k ih =>
    obtain ⟨rounds, rfl⟩ : ∃ r, rounds = r + 1 := ⟨rounds - 1, by omega⟩
    have hfirst := before i (Nat.le_refl i) (by omega)
    have hrest : searchFrom test rounds (i + 1) = some j :=
      ih (by omega) (by omega) fun m hm hmj => before m (by omega) hmj
    simp [searchFrom, hfirst, hrest]

/-- A loop that tests what `firstIndex` tests, and is left by its `break`. -/
theorem searchFrom_firstIndex {test : Nat → Option Bool} {p : Nat → Bool} {n : Nat}
    (htest : ∀ m < n, test m = some (p m)) (hlt : firstIndex p n < n) :
    searchFrom test n 0 = some (firstIndex p n) := by
  have hlen : (List.range n).findIdx p < (List.range n).length := by simpa [firstIndex] using hlt
  refine searchFrom_eq (Nat.zero_add _) hlt (fun m _ hm => ?_) ?_
  · have hfalse := List.not_of_lt_findIdx hm
    rw [List.getElem_range] at hfalse
    rw [htest m (Nat.lt_trans hm hlt), hfalse]
  · have htrue := List.findIdx_getElem (w := hlen)
    rw [List.getElem_range] at htrue
    rw [htest _ hlt]
    exact congrArg some htrue

theorem readBlock_eq {len : Nat} (hi : i + len ≤ size) :
    readBlock size a len i = some ((List.range len).map fun k => a (i + k)) := by
  induction len generalizing i with
  | zero => rfl
  | succ len ih =>
    have hrest := ih (i := i + 1) (by omega)
    rw [readBlock, readAt_eq (by omega), hrest, List.range_succ_eq_map, List.map_cons, List.map_map]
    simp [Function.comp_def, Nat.add_assoc, Nat.add_comm 1]

theorem writeBlock_eq {temp : List α} (hi : i + temp.length ≤ size) :
    writeBlock size temp a i = some fun k => if h : i ≤ k ∧ k < i + temp.length then temp[k - i] else a k := by
  induction temp generalizing a i with
  | nil =>
    refine congrArg some (funext fun k => ?_)
    rw [dif_neg]
    simp
  | cons x temp ih =>
    have hrest := fun b : Nat → α => ih (a := b) (i := i + 1) (by simp at hi; omega)
    rw [List.length_cons] at hi
    rw [writeBlock, writeAt_eq (by omega)]
    refine (hrest _).trans (congrArg some (funext fun k => ?_))
    by_cases hk : k = i
    · subst hk
      rw [dif_neg (by omega), dif_pos (by simp), Function.update_self]
      simp
    · rw [Function.update_of_ne hk]
      by_cases hin : i + 1 ≤ k ∧ k < i + 1 + temp.length
      · rw [dif_pos hin, dif_pos (by simp; omega)]
        obtain ⟨m, rfl⟩ : ∃ m, k = i + 1 + m := ⟨k - (i + 1), by omega⟩
        have h₁ : i + 1 + m - (i + 1) = m := by omega
        have h₂ : i + 1 + m - i = m + 1 := by omega
        simp [h₁, h₂]
      · rw [dif_neg hin, dif_neg (by simp; omega)]

/-- Inside of both arrays. -/
theorem copyBlock_eq {len : Int} (hlen : 0 ≤ len) (hi : i + len ≤ srcSize) (hj : j + len ≤ dstSize) :
    copyBlock srcSize src i dstSize dst j len = some (copyArray src i dst j len) := by
  obtain ⟨len, rfl⟩ := Int.eq_ofNat_of_zero_le hlen
  rw [copyBlock, if_neg (by omega), Int.toNat_natCast, readBlock_eq (by omega)]
  refine (writeBlock_eq (by simp; omega)).trans (congrArg some (funext fun k => ?_))
  rw [copyArray]
  by_cases hk : j ≤ k ∧ k < j + len
  · rw [dif_pos (by simpa using hk), if_pos (by omega)]
    simp
  · rw [dif_neg (by simpa using hk), if_neg (by omega)]

end Inside

end Cs564
