import Mathlib.Data.List.Basic
/-!
# Maximal runs of a list

`runs p l` lists the maximal non-empty blocks of elements of `l` that satisfy `p`.  An element outside `p` cuts the
runs (`runs_append_cons`), so a scanner may treat what stands before and behind it separately.  `IsRun` says what a
maximal run is by its positions, and `runs_spans` that `runs` lists all of them from left to right.
-/

namespace Cs564

section Runs

variable {α : Type} {p : α → Bool} {xs ys : List α} {c : α}

/-- The maximal runs of elements that satisfy `p`, in order. -/
def runs (p : α → Bool) (l : List α) : List (List α) :=
  (l.splitOnP fun a => !p a).filter fun run => !run.isEmpty

@[simp] theorem runs_nil : runs p [] = [] := by
  simp [runs]

/-- An element outside `p` cuts the runs. -/
theorem runs_append_cons (h : p c = false) : runs p (xs ++ c :: ys) = runs p xs ++ runs p ys := by
  unfold runs
  rw [List.splitOnP_append_cons xs ys (by simp [h]), List.filter_append]

/-- A non-empty list inside `p` is one run. -/
theorem runs_of_all (h : ∀ a ∈ xs, p a = true) (hne : xs ≠ []) : runs p xs = [xs] := by
  unfold runs
  rw [List.splitOnP_eq_singleton (by simpa using h)]
  simp [hne]

/-- A list outside `p` adds no run in front of another. -/
theorem runs_append_of_none (h : ∀ a ∈ xs, p a = false) : runs p (xs ++ ys) = runs p ys := by
  induction xs with
  | nil => rfl
  | cons x xs ih =>
    have hx : p x = false := h x (by simp)
    have hcut : runs p ([] ++ x :: (xs ++ ys)) = runs p [] ++ runs p (xs ++ ys) := runs_append_cons hx
    rw [List.cons_append, ← List.nil_append (x :: (xs ++ ys)), hcut, runs_nil, List.nil_append]
    exact ih fun a ha => h a (by simp [ha])

/-- What stands in the runs satisfies `p`, and no run is empty. -/
theorem mem_runs {l run : List α} (hrun : run ∈ runs p l) : run ≠ [] ∧ ∀ a ∈ run, p a = true := by
  induction hn : l.length using Nat.strongRecOn generalizing l with
  | ind n ih =>
    by_cases hall : ∀ a ∈ l, p a = true
    · by_cases hl : l = []
      · subst hl
        simp at hrun
      · rw [runs_of_all hall hl, List.mem_singleton] at hrun
        subst hrun
        exact ⟨hl, hall⟩
    · obtain ⟨c, hc, hpc⟩ : ∃ c ∈ l, p c = false := by simpa using hall
      obtain ⟨s, t, rfl⟩ := List.append_of_mem hc
      rw [runs_append_cons hpc, List.mem_append] at hrun
      rcases hrun with hrun | hrun
      · exact ih s.length (by simp at hn; omega) hrun rfl
      · exact ih t.length (by simp at hn; omega) hrun rfl

/-! ### Runs by their positions -/

/-- The element at this position, if there is one, satisfies `p`. -/
def hits (p : α → Bool) (l : List α) (j : Nat) : Bool := (l[j]?).any p

/-- From `s` on stand `n` elements that satisfy `p`, and none does right before or behind them. -/
structure IsRun (p : α → Bool) (l : List α) (s n : Nat) : Prop where
  pos : 0 < n
  all : ∀ j, s ≤ j → j < s + n → hits p l j = true
  left : s = 0 ∨ hits p l (s - 1) = false
  right : hits p l (s + n) = false

theorem hits_of_le {l : List α} {j : Nat} (h : l.length ≤ j) : hits p l j = false := by
  simp [hits, h]

theorem hits_lt {l : List α} {j : Nat} (h : hits p l j = true) : j < l.length := by
  by_contra hge
  rw [hits_of_le (Nat.le_of_not_lt hge)] at h
  exact absurd h (by simp)

theorem hits_left {j : Nat} (h : j < xs.length) : hits p (xs ++ c :: ys) j = hits p xs j := by
  simp [hits, List.getElem?_append_left h]

theorem hits_cut (h : p c = false) : hits p (xs ++ c :: ys) xs.length = false := by
  simp [hits, h]

theorem hits_right (j : Nat) : hits p (xs ++ c :: ys) (xs.length + 1 + j) = hits p ys j := by
  rw [hits, List.getElem?_append_right (by omega), hits]
  congr 1
  have hj : xs.length + 1 + j - xs.length = j + 1 := by omega
  rw [hj, List.getElem?_cons_succ]

theorem IsRun.le_length {l : List α} {s n : Nat} (h : IsRun p l s n) : s + n ≤ l.length := by
  have hpos := h.pos
  have hlast := hits_lt (h.all (s + n - 1) (by omega) (by omega))
  omega

/-- The runs around an element outside `p` are those before it and those behind it. -/
theorem isRun_append_cons (hc : p c = false) {s n : Nat} :
    IsRun p (xs ++ c :: ys) s n ↔ IsRun p xs s n ∨ ∃ s', s = xs.length + 1 + s' ∧ IsRun p ys s' n := by
  have hcut : hits p (xs ++ c :: ys) xs.length = false := hits_cut hc
  constructor
  · rintro ⟨hpos, hall, hleft, hright⟩
    by_cases hs : s ≤ xs.length
    · -- a run does not reach the cut
      have hend : s + n ≤ xs.length := by
        by_contra hlong
        rw [hall xs.length hs (by omega)] at hcut
        exact absurd hcut (by simp)
      refine .inl ⟨hpos, fun j hj hj' => ?_, ?_, ?_⟩
      · rw [← hits_left (show j < xs.length by omega), hall j hj hj']
      · rcases hleft with hzero | hleft
        · exact .inl hzero
        · right
          rw [← hleft, hits_left (show s - 1 < xs.length by omega)]
      · by_cases hlt : s + n < xs.length
        · rw [← hits_left hlt, hright]
        · exact hits_of_le (by omega)
    · obtain ⟨s', rfl⟩ := Nat.exists_eq_add_of_le (show xs.length + 1 ≤ s by omega)
      refine .inr ⟨s', rfl, hpos, fun j hj hj' => ?_, ?_, ?_⟩
      · rw [← hits_right j, hall _ (by omega) (by omega)]
      · by_cases hzero : s' = 0
        · exact .inl hzero
        · right
          rcases hleft with hleft | hleft
          · omega
          · rw [← hleft, ← hits_right (s' - 1)]
            congr 1
            omega
      · rw [← hits_right (s' + n), ← hright]
        congr 1
        omega
  · rintro (hrun | ⟨s', rfl, hrun⟩)
    · have hle := hrun.le_length
      have hpos := hrun.pos
      refine ⟨hpos, fun j hj hj' => ?_, ?_, ?_⟩
      · rw [hits_left (show j < xs.length by omega), hrun.all j hj hj']
      · rcases hrun.left with hzero | hleft
        · exact .inl hzero
        · right
          rw [← hleft, hits_left (show s - 1 < xs.length by omega)]
      · by_cases hlt : s + n < xs.length
        · rw [hits_left hlt, hrun.right]
        · rw [show s + n = xs.length by omega, hcut]
    · refine ⟨hrun.pos, fun j hj hj' => ?_, .inr ?_, ?_⟩
      · obtain ⟨j, rfl⟩ := Nat.exists_eq_add_of_le (show xs.length + 1 ≤ j by omega)
        rw [hits_right, hrun.all j (by omega) (by omega)]
      · by_cases hzero : s' = 0
        · rw [hzero, Nat.add_zero, Nat.add_sub_cancel, hcut]
        · have hleft := hrun.left.resolve_left hzero
          rw [← hleft, ← hits_right (s' - 1)]
          congr 1
          omega
      · rw [Nat.add_assoc, hits_right, hrun.right]

/-- A list inside `p` is its only run. -/
theorem isRun_of_all {l : List α} (h : ∀ a ∈ l, p a = true) {s n : Nat} :
    IsRun p l s n ↔ s = 0 ∧ n = l.length ∧ l ≠ [] := by
  have hin : ∀ j, j < l.length → hits p l j = true := by
    intro j hj
    simp [hits, List.getElem?_eq_getElem hj, h _ (List.getElem_mem hj)]
  constructor
  · intro hrun
    have hle := hrun.le_length
    have hpos := hrun.pos
    have hs : s = 0 := by
      rcases hrun.left with hzero | hleft
      · exact hzero
      · by_contra hne
        rw [hin (s - 1) (by omega)] at hleft
        exact absurd hleft (by simp)
    have hn : ¬ s + n < l.length := by
      intro hlt
      have hright := hrun.right
      rw [hin _ hlt] at hright
      exact absurd hright (by simp)
    exact ⟨hs, by omega, List.ne_nil_of_length_pos (by omega)⟩
  · rintro ⟨rfl, rfl, hne⟩
    exact ⟨List.length_pos_of_ne_nil hne, fun j _ hj => hin j (by omega), .inl rfl, hits_of_le (by omega)⟩

/-- `runs` lists the maximal runs from left to right, and nothing else. -/
theorem runs_spans (p : α → Bool) (l : List α) : ∃ spans : List (Nat × Nat),
    spans.Pairwise (fun a b => a.1 < b.1) ∧ (∀ s n, (s, n) ∈ spans ↔ IsRun p l s n) ∧
      runs p l = spans.map fun span => (l.drop span.1).take span.2 := by
  induction hlen : l.length using Nat.strongRecOn generalizing l with
  | ind m ih =>
    by_cases hall : ∀ a ∈ l, p a = true
    · by_cases hl : l = []
      · subst hl
        exact ⟨[], List.Pairwise.nil, fun s n => by simp [isRun_of_all hall], by simp⟩
      · refine ⟨[(0, l.length)], List.pairwise_singleton _ _, fun s n => ?_, ?_⟩
        · simp [isRun_of_all hall, hl]
        · simp [runs_of_all hall hl]
    · obtain ⟨c, hc, hpc⟩ : ∃ c ∈ l, p c = false := by simpa using hall
      obtain ⟨xs, ys, rfl⟩ := List.append_of_mem hc
      rw [List.length_append, List.length_cons] at hlen
      obtain ⟨left, hleft, hmemLeft, hrunsLeft⟩ := ih xs.length (by omega) xs rfl
      obtain ⟨right, hright, hmemRight, hrunsRight⟩ := ih ys.length (by omega) ys rfl
      refine ⟨left ++ right.map fun span => (xs.length + 1 + span.1, span.2), ?_, fun s n => ?_, ?_⟩
      · rw [List.pairwise_append]
        refine ⟨hleft, List.pairwise_map.mpr (hright.imp fun hlt => by simpa using hlt), ?_⟩
        rintro ⟨s, n⟩ hs b hb
        obtain ⟨span, -, rfl⟩ := List.mem_map.mp hb
        have hle := ((hmemLeft s n).mp hs).le_length
        simp only
        omega
      · rw [List.mem_append, hmemLeft, isRun_append_cons hpc]
        apply or_congr_right
        rw [List.mem_map]
        constructor
        · rintro ⟨⟨s', n'⟩, hspan, heq⟩
          rw [Prod.mk.injEq] at heq
          exact ⟨s', heq.1.symm, heq.2 ▸ (hmemRight s' n').mp hspan⟩
        · rintro ⟨s', rfl, hrun⟩
          exact ⟨(s', n), (hmemRight s' n).mpr hrun, rfl⟩
      · rw [runs_append_cons hpc, hrunsLeft, hrunsRight, List.map_append, List.map_map]
        congr 1
        · apply List.map_congr_left
          rintro ⟨s, n⟩ hs
          have hle := ((hmemLeft s n).mp hs).le_length
          rw [List.drop_append_of_le_length (by omega), List.take_append_of_le_length]
          rw [List.length_drop]
          omega
        · apply List.map_congr_left
          rintro ⟨s, n⟩ -
          simp only [Function.comp_apply]
          rw [Nat.add_assoc, ← List.drop_drop, List.drop_left, Nat.add_comm 1 s, List.drop_succ_cons]

end Runs

end Cs564
