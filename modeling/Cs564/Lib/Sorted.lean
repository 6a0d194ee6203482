import Mathlib.Data.List.InsertIdx
import Mathlib.Data.List.TakeWhile
import Mathlib.Order.Lattice

/-!
# Sorted lists and separators

Lists that are sorted by a key, where equal keys are allowed.  `insertBehind` puts a new element behind all elements
whose key is not larger; it works inside any window that contains the place (`insertBehind_append`).

A sorted list that is cut into blocks is searched through separators: `keys` are the keys of the first elements of
all blocks but the first.  `separators_split` says that counting the separators `≤ k` finds the block where an element
with key `k` belongs.
-/

namespace Cs564

variable {α κ : Type} [LinearOrder κ] (key : α → κ)

/-- The list is sorted by `key`. -/
def KeySorted (l : List α) : Prop := l.Pairwise fun a b => key a ≤ key b

/-- The list with `e` behind all elements in front whose key is not larger. -/
def insertBehind (l : List α) (e : α) : List α :=
  l.takeWhile (fun x => decide (key x ≤ key e)) ++ e :: l.dropWhile (fun x => decide (key x ≤ key e))

theorem insertBehind_eq_insertIdx (l : List α) (e : α) :
    insertBehind key l e = l.insertIdx (l.takeWhile fun x => decide (key x ≤ key e)).length e := by
  unfold insertBehind
  induction l with
  | nil => simp
  | cons a l ih =>
    by_cases ha : key a ≤ key e
    · simpa [ha] using ih
    · simp [ha]

theorem insertBehind_perm (l : List α) (e : α) : (insertBehind key l e).Perm (e :: l) := by
  have h := List.takeWhile_append_dropWhile (p := fun x => decide (key x ≤ key e)) (l := l)
  refine List.perm_middle.trans ?_
  rw [h]

theorem mem_insertBehind {l : List α} {e x : α} : x ∈ insertBehind key l e ↔ x = e ∨ x ∈ l := by
  rw [(insertBehind_perm key l e).mem_iff, List.mem_cons]

theorem length_insertBehind (l : List α) (e : α) : (insertBehind key l e).length = l.length + 1 :=
  (insertBehind_perm key l e).length_eq

private theorem insertBehind_append_left {A L : List α} {e : α} (hA : ∀ a ∈ A, key a ≤ key e) :
    insertBehind key (A ++ L) e = A ++ insertBehind key L e := by
  have h : ∀ a ∈ A, decide (key a ≤ key e) = true := fun a ha => by simpa using hA a ha
  unfold insertBehind
  rw [List.takeWhile_append_of_pos h, List.dropWhile_append_of_pos h, List.append_assoc]

private theorem insertBehind_append_right {L B : List α} {e : α} (hB : ∀ b ∈ B, key e < key b) :
    insertBehind key (L ++ B) e = insertBehind key L e ++ B := by
  unfold insertBehind
  induction L with
  | nil =>
    cases B with
    | nil => rfl
    | cons b B => simp [not_le.2 (hB b (by simp))]
  | cons a L ih =>
    by_cases ha : key a ≤ key e
    · simpa [ha] using ih
    · simp [ha]

/-- An insertion happens in the window where the new key belongs. -/
theorem insertBehind_append {A L B : List α} {e : α} (hA : ∀ a ∈ A, key a ≤ key e) (hB : ∀ b ∈ B, key e < key b) :
    insertBehind key (A ++ L ++ B) e = A ++ insertBehind key L e ++ B := by
  rw [insertBehind_append_right key hB, insertBehind_append_left key hA]

/-- An element that belongs behind the first one leaves the first one in place. -/
theorem head?_insertBehind {l : List α} {e x : α} (hx : l.head? = some x) (hle : key x ≤ key e) :
    (insertBehind key l e).head? = some x := by
  cases l with
  | nil => simp at hx
  | cons a l =>
    obtain rfl : a = x := by simpa using hx
    simp [insertBehind, hle]

variable {key}

theorem KeySorted.insertBehind {l : List α} (h : KeySorted key l) (e : α) : KeySorted key (insertBehind key l e) := by
  induction l with
  | nil => simp [KeySorted, Cs564.insertBehind]
  | cons a l ih =>
    obtain ⟨h1, h2⟩ := List.pairwise_cons.1 h
    by_cases ha : key a ≤ key e
    · have hl : Cs564.insertBehind key (a :: l) e = a :: Cs564.insertBehind key l e := by
        simp [Cs564.insertBehind, ha]
      rw [hl, KeySorted, List.pairwise_cons]
      refine ⟨fun x hx => ?_, ih h2⟩
      rcases (mem_insertBehind key).1 hx with rfl | hx
      · exact ha
      · exact h1 x hx
    · have hl : Cs564.insertBehind key (a :: l) e = e :: a :: l := by simp [Cs564.insertBehind, ha]
      have hlt : key e ≤ key a := le_of_lt (not_le.1 ha)
      rw [hl, KeySorted, List.pairwise_cons]
      refine ⟨fun x hx => ?_, h⟩
      rcases List.mem_cons.1 hx with rfl | hx
      · exact hlt
      · exact le_trans hlt (h1 x hx)

theorem KeySorted.head_le {l : List α} (h : KeySorted key l) {x y : α} (hx : l.head? = some x) (hy : y ∈ l) :
    key x ≤ key y := by
  cases l with
  | nil => simp at hx
  | cons a l =>
    obtain rfl : a = x := by simpa using hx
    rcases List.mem_cons.1 hy with rfl | hy
    · exact le_refl _
    · exact (List.pairwise_cons.1 h).1 y hy

/-- Counting the separators that are not larger than `k` finds the block where `k` belongs. -/
theorem separators_split {blocks : List (List α)} {keys : List κ}
    (hk : blocks.tail.map (fun b => b.head?.map key) = keys.map some) (hne : blocks ≠ [])
    (hs : KeySorted key blocks.flatten) (k : κ) :
    ∃ A L B, blocks = A ++ L :: B ∧ A.length = (keys.takeWhile fun x => decide (x ≤ k)).length ∧
      (∀ x ∈ A.flatten, key x ≤ k) ∧ (∀ x ∈ B.flatten, k < key x) ∧
      (A ≠ [] → ∃ x, L.head? = some x ∧ key x ≤ k) := by
  induction blocks generalizing keys with
  | nil => exact absurd rfl hne
  | cons b blocks ih =>
    cases blocks with
    | nil =>
      obtain rfl : keys = [] := by simpa using hk.symm
      exact ⟨[], b, [], by simp, by simp, by simp, by simp, by simp⟩
    | cons b' rest =>
      obtain ⟨k₀, ks, rfl⟩ : ∃ k₀ ks, keys = k₀ :: ks := by
        cases keys with
        | nil => simp at hk
        | cons k₀ ks => exact ⟨k₀, ks, rfl⟩
      simp only [List.tail_cons, List.map_cons, List.cons.injEq, Option.map_eq_some_iff] at hk
      obtain ⟨⟨y, hy, rfl⟩, hk⟩ := hk
      obtain ⟨hs1, hs2, hs3⟩ := List.pairwise_append.1 (show KeySorted key (b ++ (b' :: rest).flatten) from hs)
      have hhead : (b' :: rest).flatten.head? = some y := by simp [hy]
      have hy' : y ∈ (b' :: rest).flatten := List.mem_of_mem_head? hhead
      by_cases hle : key y ≤ k
      · obtain ⟨A, L, B, heq, hlen, hA, hB, hL⟩ := ih hk (by simp) hs2
        refine ⟨b :: A, L, B, by rw [heq]; rfl, by simp [hle, hlen], ?_, hB, fun _ => ?_⟩
        · intro x hx
          rcases List.mem_append.1 (show x ∈ b ++ A.flatten from hx) with hx | hx
          · exact le_trans (hs3 x hx y hy') hle
          · exact hA x hx
        · by_cases hA0 : A = []
          · subst hA0
            obtain ⟨rfl, -⟩ : b' = L ∧ rest = B := by simpa using heq
            exact ⟨y, hy, hle⟩
          · exact hL hA0
      · refine ⟨[], b, b' :: rest, rfl, by simp [hle], by simp, fun x hx => ?_, by simp⟩
        exact lt_of_lt_of_le (not_le.1 hle) (KeySorted.head_le hs2 hhead hx)

/-- The first element with a property stands at one place only. -/
theorem first_split_unique {p : α → Prop} {A A' B B' : List α} {x x' : α} (h : A ++ x :: B = A' ++ x' :: B')
    (hx : p x) (hx' : p x') (hA : ∀ a ∈ A, ¬p a) (hA' : ∀ a ∈ A', ¬p a) : A = A' ∧ x = x' ∧ B = B' := by
  induction A generalizing A' with
  | nil =>
    cases A' with
    | nil => simpa using h
    | cons a A' =>
      obtain ⟨rfl, -⟩ : x = a ∧ B = A' ++ x' :: B' := by simpa using h
      exact absurd hx (hA' x (by simp))
  | cons a A ih =>
    cases A' with
    | nil =>
      obtain ⟨rfl, -⟩ : a = x' ∧ A ++ x :: B = B' := by simpa using h
      exact absurd hx' (hA a (by simp))
    | cons a' A' =>
      obtain ⟨rfl, htail⟩ : a = a' ∧ A ++ x :: B = A' ++ x' :: B' := by simpa using h
      obtain ⟨rfl, rfl, rfl⟩ := ih htail (fun b hb => hA b (by simp [hb])) fun b hb => hA' b (by simp [hb])
      exact ⟨rfl, rfl, rfl⟩

end Cs564
