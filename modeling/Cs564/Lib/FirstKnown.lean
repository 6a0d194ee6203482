import Mathlib.Data.List.Dedup
import Mathlib.Data.List.Induction

/-!
# First values

`firsts` lists what a list holds in the order of first appearance.  `firstKnown` is the first value of a list that is not
missing, and a marker if all are.  Both say what a table is that keeps one row for each key and fills the cells that are
missing as values come in: a further value changes the row of its key only (`set_map`).
-/

namespace Cs564

section Firsts

variable {α : Type} [DecidableEq α] {l : List α} {a : α}

/-- What a list holds, in the order of first appearance. -/
def firsts (l : List α) : List α := l.reverse.dedup.reverse

theorem mem_firsts : a ∈ firsts l ↔ a ∈ l := by
  rw [firsts, List.mem_reverse, List.mem_dedup, List.mem_reverse]

theorem nodup_firsts (l : List α) : (firsts l).Nodup := List.nodup_reverse.mpr (List.nodup_dedup _)

theorem firsts_append_of_mem (h : a ∈ l) : firsts (l ++ [a]) = firsts l := by
  rw [firsts, List.reverse_append, List.reverse_singleton, List.singleton_append,
    List.dedup_cons_of_mem (List.mem_reverse.mpr h), firsts]

theorem firsts_append_of_notMem (h : a ∉ l) : firsts (l ++ [a]) = firsts l ++ [a] := by
  rw [firsts, List.reverse_append, List.reverse_singleton, List.singleton_append,
    List.dedup_cons_of_notMem (mt List.mem_reverse.mp h), List.reverse_cons, firsts]

/-- A longer list goes on behind what came first. -/
theorem firsts_prefix (l m : List α) : firsts l <+: firsts (l ++ m) := by
  induction m using List.reverseRecOn with
  | nil => simp
  | append_singleton m a ih =>
    rw [← List.append_assoc]
    by_cases ha : a ∈ l ++ m
    · rw [firsts_append_of_mem ha]
      exact ih
    · rw [firsts_append_of_notMem ha]
      exact ih.trans (List.prefix_append ..)

end Firsts

section FirstKnown

variable {γ : Type} {missing : γ → Bool} {marker v : γ} {l : List γ}

/-- The first value that is not missing, the marker if there is none. -/
def firstKnown (missing : γ → Bool) (marker : γ) (l : List γ) : γ := (l.find? fun v => !missing v).getD marker

theorem firstKnown_of_missing (h : ∀ v ∈ l, missing v = true) : firstKnown missing marker l = marker := by
  rw [firstKnown, List.find?_eq_none.mpr (by simpa using h), Option.getD_none]

/-- The value is the marker, or the first one that is not missing. -/
theorem firstKnown_cases : ((∀ v ∈ l, missing v = true) ∧ firstKnown missing marker l = marker) ∨
    (firstKnown missing marker l ∈ l ∧ missing (firstKnown missing marker l) = false) := by
  cases hfind : l.find? fun v => !missing v with
  | none =>
    have hall : ∀ v ∈ l, missing v = true := by simpa using List.find?_eq_none.mp hfind
    exact Or.inl ⟨hall, firstKnown_of_missing hall⟩
  | some v =>
    right
    rw [firstKnown, hfind, Option.getD_some]
    exact ⟨List.mem_of_find?_eq_some hfind, by simpa using List.find?_some hfind⟩

theorem firstKnown_cons : firstKnown missing marker (v :: l) = if missing v then firstKnown missing marker l else v := by
  rw [firstKnown, List.find?_cons]
  cases missing v <;> rfl

/-- A value that comes in fills the cell if it is missing. -/
theorem firstKnown_append (hmarker : ∀ v, missing v = true ↔ v = marker) :
    firstKnown missing marker (l ++ [v]) =
      if missing (firstKnown missing marker l) then v else firstKnown missing marker l := by
  induction l with
  | nil =>
    rw [List.nil_append, firstKnown_cons, firstKnown_of_missing fun _ h => absurd h List.not_mem_nil,
      if_pos ((hmarker marker).mpr rfl)]
    by_cases hv : missing v = true
    · rw [if_pos hv, (hmarker v).mp hv]
    · rw [if_neg hv]
  | cons w l ih =>
    rw [List.cons_append, firstKnown_cons, firstKnown_cons]
    by_cases hw : missing w = true
    · rw [if_pos hw, if_pos hw, ih]
    · rw [if_neg hw, if_neg hw, if_neg hw]

/-- Values and their encodings have the same first known one. -/
theorem firstKnown_map {δ : Type} {missing' : δ → Bool} {f : γ → δ} (h : ∀ v ∈ l, missing' (f v) = missing v) :
    firstKnown missing' (f marker) (l.map f) = f (firstKnown missing marker l) := by
  induction l with
  | nil => rfl
  | cons w l ih =>
    rw [List.map_cons, firstKnown_cons, firstKnown_cons, h w List.mem_cons_self,
      ih fun v hv => h v (List.mem_cons_of_mem _ hv)]
    cases missing w <;> rfl

end FirstKnown

/-- A change of one cell of a column that is given by its keys. -/
theorem set_map {κ γ : Type} {keys : List κ} {f g : κ → γ} {i : Nat} {k : κ} (hkeys : keys.Nodup)
    (hk : keys[i]? = some k) (hother : ∀ k' ∈ keys, k' ≠ k → g k' = f k') : (keys.map f).set i (g k) = keys.map g := by
  apply List.ext_getElem?
  intro j
  rw [List.getElem?_set, List.getElem?_map, List.length_map]
  by_cases hij : i = j
  · subst hij
    obtain ⟨hlt, -⟩ := List.getElem?_eq_some_iff.mp hk
    rw [if_pos rfl, if_pos hlt, List.getElem?_map, hk, Option.map_some]
  · rw [if_neg hij, List.getElem?_map]
    cases hj : keys[j]? with
    | none => rfl
    | some k' =>
      have hne : k' ≠ k := by
        rintro rfl
        obtain ⟨hi, hki⟩ := List.getElem?_eq_some_iff.mp hk
        obtain ⟨hlt, hkj⟩ := List.getElem?_eq_some_iff.mp hj
        exact hij (hkeys.getElem_inj_iff.mp (hki.trans hkj.symm))
      rw [Option.map_some, Option.map_some, hother k' (List.mem_of_getElem? hj) hne]

end Cs564
