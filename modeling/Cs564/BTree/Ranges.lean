import Cs564.BTree.StartScan

/-!
# Scans and ranges

What a scan returns, compared with the entries in its range.  `FirstAbove` cuts the entries of the leaves at the first
one that satisfies the lower bound; `startEntries_cases` says where `startScan` starts relative to that entry.  From
this follow exactly the bounds for which `startScan` reports an empty range wrongly (`StartFault`), and those for which
a started scan returns something else than its range (`ScanFault`).
-/

namespace Cs564.BTree

open PageStore

/-- The key satisfies the lower bound. -/
def Above (low : Int) (lowOp : Operator) (k : Int) : Prop := low < k ∨ (k = low ∧ lowOp = .GTE)

instance (low : Int) (lowOp : Operator) (k : Int) : Decidable (Above low lowOp k) := inferInstanceAs (Decidable (_ ∨ _))

/-- The key satisfies both bounds. -/
def InRange (low : Int) (lowOp : Operator) (high : Int) (highOp : Operator) (k : Int) : Prop :=
  Above low lowOp k ∧ UpTo high highOp k

instance (low : Int) (lowOp : Operator) (high : Int) (highOp : Operator) (k : Int) :
    Decidable (InRange low lowOp high highOp k) := inferInstanceAs (Decidable (_ ∧ _))

/-- The leaves, cut at the first entry `e` that satisfies the lower bound: the leaves `A` and the entries `X` of its
leaf in front of it, and the entries `Y` of its leaf and the leaves `B` behind it. -/
structure FirstAbove (blocks : List (List RIDKeyPair)) (low : Int) (lowOp : Operator) (A : List (List RIDKeyPair))
    (X : List RIDKeyPair) (e : RIDKeyPair) (Y : List RIDKeyPair) (B : List (List RIDKeyPair)) : Prop where
  eq : blocks = A ++ (X ++ e :: Y) :: B
  above : Above low lowOp e.key
  before : ∀ x ∈ A.flatten ++ X, ¬Above low lowOp x.key

/-- The entry is the last one of a full leaf with a right sibling. -/
def LastOfFull (X Y : List RIDKeyPair) (B : List (List RIDKeyPair)) : Prop :=
  Y = [] ∧ X.length + 1 = leafOccupancy ∧ B ≠ []

instance (X Y : List RIDKeyPair) (B : List (List RIDKeyPair)) : Decidable (LastOfFull X Y B) :=
  inferInstanceAs (Decidable (_ ∧ _))

/-- The search comes down in the leaf to the left of the entry and goes on to the right sibling. -/
def GoesOn (A : List (List RIDKeyPair)) (high : Int) : Prop :=
  A.getLast?.map List.length = some leafOccupancy ∨ high = INT_MAX

instance (A : List (List RIDKeyPair)) (high : Int) : Decidable (GoesOn A high) := inferInstanceAs (Decidable (_ ∨ _))

/-- The bounds for which `startScan` throws `NoSuchKeyFoundException` though the range is not empty, or does not
though it is empty.  With `e` the first entry that satisfies the lower bound: the bounds meet at its key, and the upper
one excludes it; or its key is the upper bound, which the first-entry test does not accept; or it is the first entry of
a leaf, and the search comes down one leaf to the left. -/
def StartFault (blocks : List (List RIDKeyPair)) (low : Int) (lowOp : Operator) (high : Int) (highOp : Operator) : Prop :=
  ∃ A X e Y B, FirstAbove blocks low lowOp A X e Y B ∧
    ((e.key = low ∧ low = high ∧ highOp = .LT) ∨
      (low < e.key ∧ e.key = high ∧ ¬(A ≠ [] ∧ X = []) ∧ (highOp = .LTE ↔ ¬LastOfFull X Y B)) ∨
      (low < e.key ∧ (A ≠ [] ∧ X = []) ∧ (UpTo high highOp e.key ↔ ¬GoesOn A high)))

/-- The bounds for which a scan that was started returns something else than its range.  With `e` the first entry that
satisfies the lower bound: the bounds meet at its key, and the upper one excludes it; or its key is the upper bound, and
the search skips it to the first entry of the right sibling; or the search goes on to it though it is above the range. -/
def ScanFault (blocks : List (List RIDKeyPair)) (low : Int) (lowOp : Operator) (high : Int) (highOp : Operator) : Prop :=
  ∃ A X e Y B, FirstAbove blocks low lowOp A X e Y B ∧
    ((e.key = low ∧ low = high ∧ highOp = .LT) ∨
      (low < e.key ∧ e.key = high ∧ ¬(A ≠ [] ∧ X = []) ∧ LastOfFull X Y B ∧
        ¬(highOp = .LTE ∧ B.flatten.head?.map (·.rid) = some e.rid)) ∨
      (low < e.key ∧ (A ≠ [] ∧ X = []) ∧ GoesOn A high ∧ ¬UpTo high highOp e.key))

/-! ### The first entry above the lower bound -/

section FirstAbove

variable {blocks A A' B B' : List (List RIDKeyPair)} {X X' Y Y' : List RIDKeyPair} {e e' : RIDKeyPair} {low high : Int}
  {lowOp highOp : Operator}

theorem FirstAbove.unique (h : FirstAbove blocks low lowOp A X e Y B) (h' : FirstAbove blocks low lowOp A' X' e' Y' B') :
    A = A' ∧ X = X' ∧ e = e' ∧ Y = Y' ∧ B = B' := by
  have hin : ∀ {A : List (List RIDKeyPair)} {X : List RIDKeyPair}, (∀ x ∈ A.flatten ++ X, ¬Above low lowOp x.key) →
      ∀ b ∈ A, ¬∃ x ∈ b, Above low lowOp x.key := by
    rintro A X hb b hbA ⟨x, hx, habove⟩
    exact hb x (List.mem_append_left _ (List.mem_flatten.2 ⟨b, hbA, hx⟩)) habove
  obtain ⟨rfl, hblock, rfl⟩ := first_split_unique (p := fun b => ∃ x ∈ b, Above low lowOp x.key)
    (h.eq.symm.trans h'.eq) ⟨e, by simp, h.above⟩ ⟨e', by simp, h'.above⟩ (hin h.before) (hin h'.before)
  obtain ⟨rfl, rfl, rfl⟩ := first_split_unique (p := fun x => Above low lowOp x.key) hblock h.above h'.above
    (fun x hx => h.before x (List.mem_append_right _ hx)) fun x hx => h'.before x (List.mem_append_right _ hx)
  exact ⟨rfl, rfl, rfl, rfl, rfl⟩

theorem FirstAbove.flatten_eq (h : FirstAbove blocks low lowOp A X e Y B) :
    blocks.flatten = (A.flatten ++ X) ++ (e :: (Y ++ B.flatten)) := by
  rw [h.eq]
  simp

/-- All later keys are larger. -/
theorem FirstAbove.lt_later (h : FirstAbove blocks low lowOp A X e Y B)
    (hs : blocks.flatten.Pairwise fun a b => a.key < b.key) {x : RIDKeyPair} (hx : x ∈ Y ++ B.flatten) : e.key < x.key := by
  rw [h.flatten_eq] at hs
  exact (List.pairwise_cons.1 (List.pairwise_append.1 hs).2.1).1 x hx

theorem FirstAbove.sorted (h : FirstAbove blocks low lowOp A X e Y B)
    (hs : blocks.flatten.Pairwise fun a b => a.key < b.key) :
    (e :: (Y ++ B.flatten)).Pairwise fun a b => a.key < b.key := by
  rw [h.flatten_eq] at hs
  exact (List.pairwise_append.1 hs).2.1

theorem Above.mono {k k' : Int} (h : Above low lowOp k) (hk : k < k') : Above low lowOp k' :=
  Or.inl (h.elim (fun hlt => Int.lt_trans hlt hk) fun heq => heq.1 ▸ hk)

theorem UpTo.anti {k k' : Int} (h : UpTo high highOp k') (hk : k < k') : UpTo high highOp k :=
  Or.inl (h.elim (fun hlt => Int.lt_trans hk hlt) fun heq => heq.1 ▸ hk)

/-- In a sorted list the keys up to the upper bound stand in front. -/
theorem filter_upTo {l : List RIDKeyPair} (hs : l.Pairwise fun a b => a.key < b.key) :
    l.filter (fun x => decide (UpTo high highOp x.key)) = l.takeWhile fun x => decide (UpTo high highOp x.key) := by
  induction l with
  | nil => rfl
  | cons a l ih =>
    obtain ⟨hlt, hl⟩ := List.pairwise_cons.1 hs
    by_cases ha : UpTo high highOp a.key
    · rw [List.filter_cons_of_pos (by simpa using ha), List.takeWhile_cons_of_pos (by simpa using ha), ih hl]
    · rw [List.filter_cons_of_neg (by simpa using ha), List.takeWhile_cons_of_neg (by simpa using ha),
        List.filter_eq_nil_iff]
      intro x hx hup
      exact ha (UpTo.anti (by simpa using hup) (hlt x hx))

/-- The range is what stands behind the cut, up to the upper bound. -/
theorem FirstAbove.filter_eq (h : FirstAbove blocks low lowOp A X e Y B)
    (hs : blocks.flatten.Pairwise fun a b => a.key < b.key) :
    blocks.flatten.filter (fun x => decide (InRange low lowOp high highOp x.key)) =
      (e :: (Y ++ B.flatten)).takeWhile fun x => decide (UpTo high highOp x.key) := by
  have hleft : (A.flatten ++ X).filter (fun x => decide (InRange low lowOp high highOp x.key)) = [] := by
    rw [List.filter_eq_nil_iff]
    intro x hx hin
    exact h.before x hx (of_decide_eq_true hin).1
  have hright : (e :: (Y ++ B.flatten)).filter (fun x => decide (InRange low lowOp high highOp x.key)) =
      (e :: (Y ++ B.flatten)).filter fun x => decide (UpTo high highOp x.key) := by
    refine List.filter_congr fun x hx => ?_
    have habove : Above low lowOp x.key := by
      rcases List.mem_cons.1 hx with rfl | hx
      · exact h.above
      · exact h.above.mono (h.lt_later hs hx)
    simp [InRange, habove]
  rw [h.flatten_eq, List.filter_append, hleft, hright, List.nil_append, filter_upTo (h.sorted hs)]

/-- The range is empty if its first entry is above it. -/
theorem FirstAbove.empty_iff (h : FirstAbove blocks low lowOp A X e Y B)
    (hs : blocks.flatten.Pairwise fun a b => a.key < b.key) :
    (∀ x ∈ blocks.flatten, ¬InRange low lowOp high highOp x.key) ↔ ¬UpTo high highOp e.key := by
  have hmem : e ∈ blocks.flatten := by
    rw [h.flatten_eq]
    simp
  constructor
  · exact fun hempty hup => hempty e hmem ⟨h.above, hup⟩
  · intro hup x hx hin
    rw [h.flatten_eq] at hx
    rcases List.mem_append.1 hx with hx | hx
    · exact h.before x hx hin.1
    · rcases List.mem_cons.1 hx with rfl | hx
      · exact hup hin.2
      · exact hup (hin.2.anti (h.lt_later hs hx))

end FirstAbove

/-! ### Where the scan starts -/

/-- What `startEntries` yields, in terms of the cut at the first entry that satisfies the lower bound. -/
def startAtCut (low high : Int) (A : List (List RIDKeyPair)) (X : List RIDKeyPair) (e : RIDKeyPair)
    (Y : List RIDKeyPair) (B : List (List RIDKeyPair)) : Option (List RIDKeyPair) :=
  if e.key = low then some (e :: (Y ++ B.flatten))
  else if A ≠ [] ∧ X = [] then if GoesOn A high then some (e :: (Y ++ B.flatten)) else none
  else if e.key < high then some (e :: (Y ++ B.flatten))
  else if e.key = high ∧ LastOfFull X Y B then some B.flatten
  else none

section Start

variable {A B : List (List RIDKeyPair)} {L : List RIDKeyPair} {low high : Int} {lowOp highOp : Operator}

/-- What is known about the leaf where the search comes down, and the leaves around it. -/
structure LowLeaf (blocks A : List (List RIDKeyPair)) (L : List RIDKeyPair) (B : List (List RIDKeyPair)) (low : Int) :
    Prop where
  eq : blocks = A ++ L :: B
  sorted : blocks.flatten.Pairwise fun a b => a.key < b.key
  int : ∀ x ∈ blocks.flatten, IsInt x.key
  left : ∀ x ∈ A.flatten, x.key ≤ low
  right : ∀ x ∈ B.flatten, low < x.key
  head : A ≠ [] → ∃ x, L.head? = some x ∧ x.key ≤ low
  nonempty : ∀ b ∈ B, b ≠ []
  size : L.length ≤ leafOccupancy

variable {blocks : List (List RIDKeyPair)}

/-- The entries of the leaves to the left do not satisfy the lower bound. -/
private theorem LowLeaf.left_not_above (h : LowLeaf blocks A L B low) : ∀ x ∈ A.flatten, ¬Above low lowOp x.key := by
  intro x hx
  have hA : A ≠ [] := by
    rintro rfl
    simp at hx
  obtain ⟨y, hy, hle⟩ := h.head hA
  have hs := h.sorted
  rw [h.eq, List.flatten_append, List.flatten_cons] at hs
  have hlt := (List.pairwise_append.1 hs).2.2 x hx y (List.mem_append_left _ (List.mem_of_mem_head? hy))
  rintro (hlow | ⟨heq, -⟩) <;> omega

private theorem passes_of_not_above (hle : low ≤ high) {x : RIDKeyPair} (hx : ¬Above low lowOp x.key) :
    passes low lowOp high x = true := by
  have hlow : ¬low < x.key := fun hlt => hx (Or.inl hlt)
  have hpick : ¬Picks low lowOp high x.key := fun hp => hx (hp.imp (fun h => h.1) id)
  simp only [passes, decide_eq_true_eq]
  exact ⟨by omega, hpick⟩

private theorem dropWhile_of_all {α : Type} {p : α → Bool} {l : List α} (h : ∀ x ∈ l, p x = true) :
    l.dropWhile p = [] := by
  have hdrop : (l ++ []).dropWhile p = ([] : List α).dropWhile p := List.dropWhile_append_of_pos h
  simpa using hdrop

/-- The first-entry test does not accept the upper bound itself: a scan with its first entry at that key starts behind
the last leaf slot or not at all. -/
private theorem startEntries_at_high {X Y : List RIDKeyPair} {e : RIDKeyPair}
    (h : LowLeaf blocks A (X ++ e :: Y) B low) (hhigh : high ≤ INT_MAX) (hlt : low < e.key) (hkey : e.key = high)
    (hX : ∀ x ∈ X, ¬Above low lowOp x.key) :
    startEntries low lowOp high (X ++ e :: Y) B = if LastOfFull X Y B then some B.flatten else none := by
  have hsize := h.size
  have hs := h.sorted
  have hp : passes low lowOp high e = true := by
    have hpick : ¬Picks low lowOp high e.key := by
      rintro (⟨-, hlt'⟩ | ⟨heq, -⟩) <;> omega
    simp only [passes, decide_eq_true_eq]
    exact ⟨by omega, hpick⟩
  have hdrop : (X ++ e :: Y).dropWhile (passes low lowOp high) = Y.dropWhile (passes low lowOp high) := by
    rw [List.dropWhile_append_of_pos fun x hx => passes_of_not_above (by omega) (hX x hx),
      List.dropWhile_cons_of_pos hp]
  rw [startEntries, hdrop]
  rw [h.eq, List.flatten_append, List.flatten_cons, List.append_assoc] at hs
  have hlater := (List.pairwise_cons.1 (List.pairwise_append.1 (List.pairwise_append.1 hs).2.1).2.1).1
  cases Y with
  | nil =>
    rw [List.dropWhile_nil]
    by_cases hB : B = []
    · subst hB
      have hnot : ¬LastOfFull X [] [] := fun hl => hl.2.2 rfl
      rw [if_neg hnot]
      simp
    · by_cases hfull : X.length + 1 = leafOccupancy
      · have hlen : ¬(X ++ [e]).length < leafOccupancy := by simp; simp at hfull; omega
        have hlast : LastOfFull X [] B := ⟨rfl, hfull, hB⟩
        rw [if_pos hlast]
        simp only [hlen, false_and, hB, or_self, if_false]
      · have hmax : high < INT_MAX := by
          obtain ⟨b, B', rfl⟩ := List.exists_cons_of_ne_nil hB
          obtain ⟨x, b', rfl⟩ := List.exists_cons_of_ne_nil (h.nonempty b (by simp))
          have hx := hlater x (by simp)
          have hint := h.int x (by rw [h.eq]; simp)
          have := hint.2
          omega
        have hlen : (X ++ [e]).length < leafOccupancy := by
          rw [List.length_append, List.length_singleton] at hsize ⊢
          omega
        have hnot : ¬LastOfFull X [] B := fun hl => hfull hl.2.1
        rw [if_neg hnot]
        simp only [hlen, hmax, and_self, true_or, if_true]
  | cons y Y =>
    have hy := hlater y (by simp)
    have hp' : passes low lowOp high y = false := by
      simp only [passes, decide_eq_false_iff_not]
      exact fun hle' => absurd hle'.1 (by omega)
    have hnot : ¬LastOfFull X (y :: Y) B := fun hl => absurd hl.1 (by simp)
    rw [List.dropWhile_cons_of_neg (by simp [hp']), if_neg hnot]
    simp only [if_pos (show high < y.key by omega)]

/-- The first entry above the lower bound is in the leaf where the search comes down. -/
private theorem startEntries_here {X Y : List RIDKeyPair} {e : RIDKeyPair} (h : LowLeaf blocks A (X ++ e :: Y) B low)
    (hle : low ≤ high) (hhigh : high ≤ INT_MAX) (habove : Above low lowOp e.key)
    (hX : ∀ x ∈ X, ¬Above low lowOp x.key) :
    startEntries low lowOp high (X ++ e :: Y) B = startAtCut low high A X e Y B := by
  have hdrop : (X ++ e :: Y).dropWhile (passes low lowOp high) = (e :: Y).dropWhile (passes low lowOp high) :=
    List.dropWhile_append_of_pos fun x hx => passes_of_not_above hle (hX x hx)
  rw [startAtCut]
  by_cases hlow : e.key = low
  · have hGTE : lowOp = .GTE := habove.elim (fun hlt => absurd hlt (by omega)) fun h => h.2
    have hp : passes low lowOp high e = false := by
      have hpick : Picks low lowOp high e.key := Or.inr ⟨hlow, hGTE⟩
      simp [passes, hpick]
    rw [startEntries, hdrop, List.dropWhile_cons_of_neg (by simp [hp]), if_pos hlow]
    simp only [if_neg (show ¬high < e.key by omega), List.cons_append]
  · have hlt : low < e.key := habove.elim id fun h => absurd h.1 hlow
    have hstart : ¬(A ≠ [] ∧ X = []) := by
      rintro ⟨hA, rfl⟩
      obtain ⟨x, hx, hxle⟩ := h.head hA
      obtain rfl : e = x := by simpa using hx
      omega
    rw [if_neg hlow, if_neg hstart]
    rcases Int.lt_trichotomy e.key high with hkey | hkey | hkey
    · have hp : passes low lowOp high e = false := by
        have hpick : Picks low lowOp high e.key := Or.inl ⟨hlt, hkey⟩
        simp [passes, hpick]
      rw [startEntries, hdrop, List.dropWhile_cons_of_neg (by simp [hp]), if_pos hkey]
      simp only [if_neg (show ¬high < e.key by omega), List.cons_append]
    · rw [if_neg (show ¬e.key < high by omega), startEntries_at_high h hhigh hlt hkey hX]
      simp only [hkey, true_and]
    · have hp : passes low lowOp high e = false := by
        simp only [passes, decide_eq_false_iff_not]
        exact fun hle' => absurd hle'.1 (by omega)
      have hnot : ¬(e.key = high ∧ LastOfFull X Y B) := fun hl => absurd hl.1 (by omega)
      rw [startEntries, hdrop, List.dropWhile_cons_of_neg (by simp [hp]), if_neg (show ¬e.key < high by omega),
        if_neg hnot]
      simp only [if_pos hkey]

/-- Where the scan starts: nowhere if no entry satisfies the lower bound, and else as the first such entry says. -/
theorem startEntries_cases (h : LowLeaf blocks A L B low) (hle : low ≤ high) (hhigh : high ≤ INT_MAX) :
    ((∀ x ∈ blocks.flatten, ¬Above low lowOp x.key) ∧ startEntries low lowOp high L B = none) ∨
    ∃ A' X e Y B', FirstAbove blocks low lowOp A' X e Y B' ∧
      startEntries low lowOp high L B = startAtCut low high A' X e Y B' := by
  have hleft : ∀ x ∈ A.flatten, ¬Above low lowOp x.key := h.left_not_above
  by_cases hex : ∃ x ∈ L, Above low lowOp x.key
  · right
    obtain ⟨e, he⟩ : ∃ e, L.find? (fun x => decide (Above low lowOp x.key)) = some e := by
      obtain ⟨x, hx, habove⟩ := hex
      exact Option.isSome_iff_exists.1 (List.find?_isSome.2 ⟨x, hx, by simpa using habove⟩)
    obtain ⟨habove, X, Y, rfl, hX⟩ := List.find?_eq_some_iff_append.1 he
    replace habove : Above low lowOp e.key := by simpa using habove
    replace hX : ∀ x ∈ X, ¬Above low lowOp x.key := fun x hx => by simpa using hX x hx
    refine ⟨A, X, e, Y, B, ⟨h.eq, habove, fun x hx => ?_⟩, startEntries_here h hle hhigh habove hX⟩
    exact (List.mem_append.1 hx).elim (hleft x) (hX x)
  · have hL : ∀ x ∈ L, ¬Above low lowOp x.key := fun x hx habove => hex ⟨x, hx, habove⟩
    have hdrop : L.dropWhile (passes low lowOp high) = [] :=
      dropWhile_of_all fun x hx => passes_of_not_above hle (hL x hx)
    rw [startEntries, hdrop]
    cases B with
    | nil =>
      left
      refine ⟨fun x hx => ?_, by simp⟩
      rw [h.eq] at hx
      simp only [List.flatten_append, List.flatten_cons, List.flatten_nil, List.append_nil, List.mem_append] at hx
      exact hx.elim (hleft x) (hL x)
    | cons b B' =>
      right
      obtain ⟨e, Y, rfl⟩ := List.exists_cons_of_ne_nil (h.nonempty b (by simp))
      have hlt : low < e.key := h.right e (by simp)
      have hsize := h.size
      refine ⟨A ++ [L], [], e, Y, B', ⟨?_, Or.inl hlt, fun x hx => ?_⟩, ?_⟩
      · rw [h.eq]
        simp
      · simp only [List.flatten_append, List.flatten_cons, List.flatten_nil, List.append_nil, List.mem_append] at hx
        exact hx.elim (hleft x) (hL x)
      · have hgo : GoesOn (A ++ [L]) high ↔ ¬(L.length < leafOccupancy ∧ high < INT_MAX) := by
          rw [GoesOn, List.getLast?_concat, Option.map_some, Option.some.injEq]
          omega
        have hne : ((e :: Y) :: B') ≠ [] := by simp
        have hkey : e.key ≠ low := by omega
        have hstart : A ++ [L] ≠ [] ∧ ([] : List RIDKeyPair) = [] := ⟨by simp, rfl⟩
        rw [startAtCut, if_neg hkey, if_pos hstart]
        by_cases hmark : L.length < leafOccupancy ∧ high < INT_MAX
        · rw [if_neg fun hg => hgo.1 hg hmark]
          simp only [hmark, and_self, true_or, if_true]
        · rw [if_pos (hgo.2 hmark)]
          simp only [hmark, hne, or_self, if_false, List.flatten_cons, List.cons_append]

end Start

end Cs564.BTree
