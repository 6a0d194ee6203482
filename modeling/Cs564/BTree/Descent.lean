import Cs564.BTree.Scan
import Mathlib.Data.Nat.Find

/-!
# The way down to a leaf

`startScan` goes down to the leaf where the lower bound would be inserted (`Subtree.descend`).  The exception is a root
that is still as `insertEntry` made it: behind its one key stand the zero bytes of a fresh page where every other
non-leaf has the end mark `INT_MAX`.  For a lower bound above that key and above 0 the search runs over all slots and
ends at page number 0 (`NonLeafNodeInt.Stray`).
-/

namespace Cs564.BTree

open PageStore

/-- The keys do not stop a search for `low`: the node has two children, and neither its one key nor the slot behind it
reaches `low`. -/
def NonLeafNodeInt.Stray (n : NonLeafNodeInt) (low : Int) : Prop :=
  n.entryNum = 2 ∧ n.keyArray 0 < low ∧ n.keyArray 1 < low

instance (n : NonLeafNodeInt) (low : Int) : Decidable (n.Stray low) := inferInstanceAs (Decidable (_ ∧ _))

/-- The search for `low` leaves the tree at its root. -/
def StrayRoot (w : World PageStore PageId) (low : Int) : Prop :=
  match w.pages.pages w.index.rootPageNum with
  | .nonLeaf n => n.Stray low
  | _ => False

instance (w : World PageStore PageId) (low : Int) : Decidable (StrayRoot w low) :=
  match h : w.pages.pages w.index.rootPageNum with
  | .nonLeaf n => decidable_of_iff (n.Stray low) (by rw [StrayRoot, h])
  | .fresh => isFalse fun hstray => by rw [StrayRoot, h] at hstray; exact hstray
  | .metaInfo _ => isFalse fun hstray => by rw [StrayRoot, h] at hstray; exact hstray
  | .leaf _ => isFalse fun hstray => by rw [StrayRoot, h] at hstray; exact hstray

/-! ### One node -/

theorem NodeHolds.childPos_eq_of {n : NonLeafNodeInt} {keys : List Int} {kids : List PageId} (h : NodeHolds n keys kids)
    {k : Int} {m : Nat} (hm : m ≤ keys.length) (before : ∀ i < m, n.keyArray i ≤ k)
    (stop : m < keys.length → k < n.keyArray m) : n.childPos k = m := by
  have hlen := h.len
  have hsize := h.size
  refine firstIndex_eq (by omega) (fun i hi => ?_) fun _ => ?_
  · have hv := h.kid_valid (i := i + 1) (by omega)
    have hk := before i hi
    simpa using ⟨hk, hv⟩
  · rcases Nat.lt_or_eq_of_le hm with hlt | rfl
    · simp [stop hlt]
    · simp [← hlen, h.endPage]

/-- The slot at which the loop over the keys stops. -/
theorem scanChild_stop {n : NonLeafNodeInt} {low : Int} {j : Nat} (hj : j < 1022)
    (before : ∀ i < j, n.keyArray i < low) (stop : low ≤ n.keyArray j ∨ j = 1021) :
    scanChild n low =
      if n.pageNoArray (if low < n.keyArray j then j else j + 1) = INVALID_NUMBER then n.pageNoArray j
      else n.pageNoArray (if low < n.keyArray j then j else j + 1) := by
  have hfirst : firstIndex (fun i => decide (low ≤ n.keyArray i) || i == nodeOccupancy - 1) nodeOccupancy = j := by
    refine firstIndex_eq (by simpa using Nat.le_of_lt hj) (fun i hi => ?_) fun _ => ?_
    · have hlt := before i hi
      have hne : i ≠ 1021 := by omega
      simpa using ⟨hlt, hne⟩
    · simpa using stop
  simp only [scanChild, hfirst]

section Node

variable {s : PageStore} {root aboveLeaves : Bool} {t : Branch} {n : NonLeafNodeInt} {keys : List Int}
  {subs : List Branch} {low : Int}

private theorem IsNode.keys_length (hn : IsNode s root aboveLeaves t n keys subs) : subs.length = keys.length + 1 := by
  have := hn.holds.len
  simpa using this

private theorem IsNode.keys_lt (hn : IsNode s root aboveLeaves t n keys subs)
    (hd : t.entries.Pairwise fun a b => a.key < b.key) {i : Nat} (hi : i + 1 < keys.length) :
    n.keyArray i < n.keyArray (i + 1) := by
  have hlen := hn.keys_length
  obtain ⟨x, hx, hkey⟩ := hn.firstKey_eq (show i + 1 < subs.length by omega)
  rw [← hkey]
  exact hn.key_above hd (show i + 1 + 1 < subs.length by omega) (List.mem_of_mem_head? hx)

/-- The search stops at the first key that is not below `low`, or goes to the last child. -/
private theorem IsNode.scanChild_cases (hn : IsNode s root aboveLeaves t n keys subs) (hlow : low ≤ INT_MAX)
    (hstray : ¬n.Stray low) :
    (∃ j < keys.length, (∀ i < j, n.keyArray i < low) ∧ low ≤ n.keyArray j ∧
      scanChild n low = n.pageNoArray (if low < n.keyArray j then j else j + 1)) ∨
    ((∀ i < keys.length, n.keyArray i < low) ∧ scanChild n low = n.pageNoArray keys.length) := by
  have hlen := hn.keys_length
  have hsize := hn.holds.size
  simp only [List.length_map, nodeOccupancy_eq] at hsize
  have hkid : ∀ i, i ≤ keys.length → n.pageNoArray i ≠ INVALID_NUMBER := fun i hi =>
    hn.holds.kid_valid (by simp [hlen]; omega)
  have hend : n.pageNoArray (keys.length + 1) = INVALID_NUMBER := by
    have := hn.holds.endPage
    rwa [List.length_map, hlen] at this
  by_cases hex : ∃ j, j < keys.length ∧ low ≤ n.keyArray j
  · -- the first key that is not below `low`
    obtain ⟨j, ⟨hj, hle⟩, hmin⟩ : ∃ j, (j < keys.length ∧ low ≤ n.keyArray j) ∧
        ∀ i < j, ¬(i < keys.length ∧ low ≤ n.keyArray i) := ⟨_, Nat.find_spec hex, fun i hi => Nat.find_min hex hi⟩
    have before : ∀ i < j, n.keyArray i < low := fun i hi => by
      have := hmin i hi
      rw [not_and] at this
      exact Int.not_le.1 (this (by omega))
    refine .inl ⟨j, hj, before, hle, ?_⟩
    rw [scanChild_stop (by omega) before (Or.inl hle)]
    refine if_neg (hkid _ ?_)
    split <;> omega
  · -- all keys are below `low`, which belongs under the last child
    have hall : ∀ i < keys.length, n.keyArray i < low := fun i hi => by
      by_contra hle
      exact hex ⟨i, hi, Int.not_lt.1 hle⟩
    refine .inr ⟨hall, ?_⟩
    by_cases hfull : keys.length = 1022
    · have hlast := hall 1021 (by omega)
      rw [scanChild_stop (j := 1021) (by omega) (fun i hi => hall i (by omega)) (Or.inr rfl),
        if_neg (show ¬low < n.keyArray 1021 by omega), if_neg (hkid 1022 (by omega)), hfull]
    · have hmark : low ≤ n.keyArray keys.length := by
        rcases hn.closed with hclosed | ⟨-, htwo, hzero, -⟩
        · rw [Closed, List.length_map, hlen, Nat.add_sub_cancel] at hclosed
          omega
        · rw [List.length_map] at htwo
          have hone : keys.length = 1 := by omega
          have hcount : n.entryNum = 2 := by rw [hn.entryNum_eq, htwo]
          have h0 := hall 0 (by omega)
          rw [hone]
          exact Int.not_lt.1 fun hlt => hstray ⟨hcount, h0, hlt⟩
      rw [scanChild_stop (by omega) hall (Or.inl hmark)]
      by_cases hlt : low < n.keyArray keys.length
      · rw [if_pos hlt, if_neg (hkid _ (Nat.le_refl _))]
      · rw [if_neg hlt, if_pos hend]

/-- The search stops at a key, or at the end mark, and goes to the child where `low` would be inserted. -/
theorem IsNode.scanChild_eq (hn : IsNode s root aboveLeaves t n keys subs)
    (hd : t.entries.Pairwise fun a b => a.key < b.key) (hlow : low ≤ INT_MAX) (hstray : ¬n.Stray low) :
    scanChild n low = n.pageNoArray (n.childPos low) := by
  rcases hn.scanChild_cases hlow hstray with ⟨j, hj, before, hle, hchild⟩ | ⟨hall, hchild⟩
  · rw [hchild]
    by_cases hlt : low < n.keyArray j
    · have hpos : n.childPos low = j :=
        hn.holds.childPos_eq_of (by omega) (fun i hi => Int.le_of_lt (before i hi)) fun _ => hlt
      rw [if_pos hlt, hpos]
    · have heq : n.keyArray j = low := by omega
      have hpos : n.childPos low = j + 1 := by
        refine hn.holds.childPos_eq_of hj (fun i hi => ?_) fun hlt' => ?_
        · rcases Nat.lt_or_eq_of_le (Nat.le_of_lt_succ hi) with hi | rfl
          · exact Int.le_of_lt (before i hi)
          · omega
        · have := hn.keys_lt hd hlt'
          omega
      rw [if_neg hlt, hpos]
  · have hpos : n.childPos low = keys.length :=
      hn.holds.childPos_eq_of (Nat.le_refl _) (fun i hi => Int.le_of_lt (hall i hi)) fun hlt => absurd hlt (by omega)
    rw [hchild, hpos]

/-- Whatever keys there are, the search goes to a child. -/
theorem IsNode.scanChild_kid (hn : IsNode s root aboveLeaves t n keys subs) (hlow : low ≤ INT_MAX)
    (hstray : ¬n.Stray low) : ∃ u ∈ subs, scanChild n low = u.page := by
  have hlen := hn.keys_length
  have hkid : ∀ i, i ≤ keys.length → ∃ u ∈ subs, n.pageNoArray i = u.page := fun i hi => by
    have hlt : i < subs.length := by omega
    exact ⟨subs[i], List.getElem_mem hlt, hn.kid_eq hlt⟩
  rcases hn.scanChild_cases hlow hstray with ⟨j, hj, -, -, hchild⟩ | ⟨-, hchild⟩
  · rw [hchild]
    refine hkid _ ?_
    split <;> omega
  · rw [hchild]
    exact hkid _ (Nat.le_refl _)

/-- A stray search goes to page number 0. -/
theorem IsNode.scanChild_stray (hn : IsNode s root aboveLeaves t n keys subs) (hlow : low ≤ INT_MAX)
    (hstray : n.Stray low) : scanChild n low = INVALID_NUMBER ∧ 0 < low ∧ root = true := by
  obtain ⟨hcount, h0, h1⟩ := hstray
  rw [hn.entryNum_eq] at hcount
  rcases hn.closed with hclosed | ⟨hroot, -, hzero, hpages⟩
  · rw [Closed, List.length_map, hcount] at hclosed
    replace hclosed : n.keyArray 1 = INT_MAX := hclosed
    omega
  · simp only [nodeOccupancy_eq] at hzero hpages
    have hpos : 0 < low := by
      have := hzero 1 (Nat.le_refl _) (by omega)
      omega
    refine ⟨?_, hpos, hroot⟩
    have hlast : n.keyArray 1021 = 0 := hzero 1021 (by omega) (by omega)
    rw [scanChild_stop (j := 1021) (by omega) (fun i hi => ?_) (Or.inr rfl), hlast,
      if_neg (show ¬low < 0 by omega), hpages 1022 (by omega) (by omega), if_pos rfl, hpages 1021 (by omega) (by omega)]
    rcases Nat.eq_zero_or_pos i with rfl | hi0
    · exact h0
    · rw [hzero i hi0 (by omega)]
      exact hpos

end Node

/-! ### The loop over the levels -/

/-- The scan has gone on to the page `p`. -/
def World.movedTo (w : World PageStore PageId) (p : PageId) : World PageStore PageId :=
  { w with index := { w.index with currentPageNum := p, currentPageData := p } }

/-- One round of the loop over the levels. -/
theorem scanDescend_eq (fuel : Nat) (p : PageId) (w : World PageStore PageId) {n : NonLeafNodeInt}
    (hp : (w.pages.pages p).asNonLeaf = n) :
    scanDescend layer (fuel + 1) p w =
      if n.level = 1 then .ok () (w.movedTo (scanChild n w.index.lowValInt))
      else scanDescend layer fuel (scanChild n w.index.lowValInt) (w.movedTo (scanChild n w.index.lowValInt)) := by
  simp only [scanDescend, run_bind, run_get, onPages, deref_layer, hp, layer_unPinPage, run_setIndex, layer_readPage]
  by_cases hl : n.level = 1
  · rw [if_pos hl, if_pos hl]
    rfl
  · rw [if_neg hl, if_neg hl]
    rfl

/-- The leaves to the left, the leaf where `low` would be inserted, and the leaves to the right. -/
structure LeafSplit (leaves : List (Nat × List RIDKeyPair)) (low : Int) (A : List (Nat × List RIDKeyPair)) (q : Nat)
    (L : List RIDKeyPair) (B : List (Nat × List RIDKeyPair)) : Prop where
  eq : leaves = A ++ (q, L) :: B
  left : ∀ x ∈ A.flatMap (·.2), x.key ≤ low
  right : ∀ x ∈ B.flatMap (·.2), low < x.key
  head : A ≠ [] → ∃ x, L.head? = some x ∧ x.key ≤ low

section Descend

variable {s : PageStore} {h : Nat} {root : Bool} {t : Branch} {low : Int}

theorem Branch.leaves_entries (t : Branch) : t.leaves.flatMap (·.2) = t.entries := rfl

/-- The leaf under a child, with the leaves under the other children. -/
private theorem leafSplit_node {n : NonLeafNodeInt} {keys : List Int} {A' B' : List Branch} {u : Branch}
    {aboveLeaves : Bool} (hn : IsNode s root aboveLeaves t n keys (A' ++ u :: B')) (hu : Subtree s h false u)
    (hA : ∀ x ∈ A'.flatMap Branch.entries, x.key ≤ low) (hB : ∀ x ∈ B'.flatMap Branch.entries, low < x.key)
    (hhead : A' ≠ [] → ∃ x, u.entries.head? = some x ∧ x.key ≤ low) {A B : List (Nat × List RIDKeyPair)} {q : Nat}
    {L : List RIDKeyPair} (hs : LeafSplit u.leaves low A q L B) :
    LeafSplit t.leaves low (A'.flatMap (·.leaves) ++ A) q L (B ++ B'.flatMap (·.leaves)) := by
  obtain ⟨heq, hleft, hright, hfront⟩ := hs
  refine ⟨?_, fun x hx => ?_, fun x hx => ?_, fun hne => ?_⟩
  · rw [hn.leaves, List.flatMap_append, List.flatMap_cons, heq]
    simp
  · rw [List.flatMap_append, List.flatMap_assoc, List.mem_append] at hx
    exact hx.elim (hA x) (hleft x)
  · rw [List.flatMap_append, List.flatMap_assoc, List.mem_append] at hx
    exact hx.elim (hright x) (hB x)
  · by_cases hA0 : A = []
    · subst hA0
      have hne' : A' ≠ [] := by
        rintro rfl
        exact hne rfl
      obtain ⟨x, hx, hle⟩ := hhead hne'
      have hL : L ≠ [] := hu.leaf_ne_nil (q, L) (by simp [heq])
      refine ⟨x, ?_, hle⟩
      rw [← Branch.leaves_entries, heq, List.nil_append, List.flatMap_cons, List.head?_append_of_ne_nil _ hL] at hx
      exact hx
    · exact hfront hA0

/-- No search strays below the root. -/
theorem Subtree.not_stray (ht : Subtree s (h + 1) false t) {n : NonLeafNodeInt} (hp : s.pages t.page = .nonLeaf n) :
    ¬n.Stray low := by
  rintro ⟨hcount, -⟩
  obtain ⟨m, keys, subs, hm, -⟩ := ht
  obtain rfl : m = n := Page.nonLeaf.inj (hm.page.symm.trans hp)
  have hhalf := hm.half rfl
  rw [hm.entryNum_eq] at hcount
  omega

/-- The loop over the levels ends at the leaf where the lower bound would be inserted, after `h + 1` rounds. -/
theorem Subtree.descend (ht : Subtree s (h + 1) root t) (hsorted : t.entries.Pairwise fun a b => a.key < b.key)
    (hlow : low ≤ INT_MAX) (hstray : ∀ n, s.pages t.page = .nonLeaf n → ¬n.Stray low) :
    ∃ A q L B, LeafSplit t.leaves low A q L B ∧ ∀ w, w.pages = s → w.index.lowValInt = low → ∀ fuel,
      (h < fuel → scanDescend layer fuel t.page w = .ok () (w.movedTo q)) ∧
      (fuel ≤ h → ∃ w', scanDescend layer fuel t.page w = .error .outOfFuel w') := by
  induction h generalizing root t with
  | zero =>
    obtain ⟨n, keys, subs, hn, hsubs⟩ := ht
    obtain ⟨A', u, B', rfl, -, hpage, hA, hB, hhead⟩ := hn.childPos_split (hsorted.imp Int.le_of_lt) low
    have hu := hsubs u (by simp)
    have hleaf : ∃ m es, IsLeaf s false u m es := hu
    obtain ⟨m, es, hl⟩ := hleaf
    have hsplit : LeafSplit u.leaves low [] u.page es [] := ⟨hl.leaves, by simp, by simp, fun hne => absurd rfl hne⟩
    refine ⟨_, _, _, _, leafSplit_node hn hu hA hB hhead hsplit, fun w hw hwlow fuel => ⟨fun hf => ?_, fun hf => ?_⟩⟩
    · obtain ⟨fuel, rfl⟩ : ∃ f, fuel = f + 1 := ⟨fuel - 1, by omega⟩
      have hnode : (w.pages.pages t.page).asNonLeaf = n := by rw [hw, hn.page, asNonLeaf_nonLeaf]
      have hlevel : n.level = 1 := hn.level
      rw [scanDescend_eq fuel t.page w hnode, if_pos hlevel, hwlow,
        hn.scanChild_eq hsorted hlow (hstray n hn.page), hpage]
    · obtain rfl : fuel = 0 := by omega
      exact ⟨w, rfl⟩
  | succ h ih =>
    obtain ⟨n, keys, subs, hn, hsubs⟩ := ht
    obtain ⟨A', u, B', rfl, -, hpage, hA, hB, hhead⟩ := hn.childPos_split (hsorted.imp Int.le_of_lt) low
    have hu := hsubs u (by simp)
    have hustray : ∀ m, s.pages u.page = .nonLeaf m → ¬m.Stray low := fun m hm => hu.not_stray hm
    obtain ⟨A, q, L, B, hsplit, hrun⟩ := ih hu (hn.sub_pairwise hsorted (by simp)) hustray
    refine ⟨_, _, _, _, leafSplit_node hn hu hA hB hhead hsplit, fun w hw hwlow fuel => ?_⟩
    rcases Nat.eq_zero_or_pos fuel with rfl | hf
    · exact ⟨fun hf => absurd hf (by omega), fun _ => ⟨w, rfl⟩⟩
    · obtain ⟨fuel, rfl⟩ : ∃ f, fuel = f + 1 := ⟨fuel - 1, by omega⟩
      have hnode : (w.pages.pages t.page).asNonLeaf = n := by rw [hw, hn.page, asNonLeaf_nonLeaf]
      have hlevel : n.level ≠ 1 := by
        rw [hn.level]
        exact Int.zero_ne_one
      rw [scanDescend_eq fuel t.page w hnode, if_neg hlevel, hwlow,
        hn.scanChild_eq hsorted hlow (hstray n hn.page), hpage]
      obtain ⟨hok, hout⟩ := hrun (w.movedTo u.page) hw hwlow fuel
      exact ⟨fun hf => hok (by omega), fun hf => hout (by omega)⟩

end Descend

/-! ### The stray search -/

private theorem fresh_word {k : Nat} (hk : k ≠ 0) : Page.fresh.word k = 0 := by
  simp only [Page.word, freshWord, if_neg hk]

/-- From a fresh page the search goes to page number 0 again. -/
private theorem scanChild_fresh {low : Int} (hlow : 0 < low) : scanChild Page.fresh.asNonLeaf low = INVALID_NUMBER := by
  have hkey : ∀ i, Page.fresh.asNonLeaf.keyArray i = 0 := fun i => fresh_word (by omega)
  have hpage : ∀ i, Page.fresh.asNonLeaf.pageNoArray i = INVALID_NUMBER := fun i => by
    show asUInt (Page.fresh.word _) = 0
    rw [fresh_word (by omega)]
    rfl
  rw [scanChild_stop (j := 1021) (by omega) (fun i _ => by rw [hkey]; exact hlow) (Or.inr rfl), hpage, if_pos rfl, hpage]

private theorem fresh_level : Page.fresh.asNonLeaf.level ≠ 1 := by decide

/-- On page number 0 the loop over the levels does not end. -/
theorem scanDescend_fresh {low : Int} (hlow : 0 < low) (fuel : Nat) (w : World PageStore PageId)
    (hw : w.pages.pages INVALID_NUMBER = .fresh) (hwlow : w.index.lowValInt = low) :
    ∃ w', scanDescend layer fuel INVALID_NUMBER w = .error .outOfFuel w' := by
  induction fuel generalizing w with
  | zero => exact ⟨w, rfl⟩
  | succ fuel ih =>
    have hnode : (w.pages.pages INVALID_NUMBER).asNonLeaf = Page.fresh.asNonLeaf := by rw [hw]
    rw [scanDescend_eq fuel _ w hnode, if_neg fresh_level, hwlow, scanChild_fresh hlow]
    exact ih (w.movedTo INVALID_NUMBER) hw hwlow

end Cs564.BTree
