import Cs564.BTree.Descent

/-!
# Where a scan starts

`startEntries` says, for the entries of a leaf and of the leaves to its right, where the rest of `startScan` puts the
scan once it has come down to that leaf.  `Tree.startScan` puts the way down, this start and the calls of `scanNext`
together: on an index that is a tree, the three parts of the code do what these functions on lists do.
-/

namespace Cs564.BTree

open PageStore

/-- The test with which `startScan` picks its first entry. -/
def Picks (low : Int) (lowOp : Operator) (high : Int) (k : Int) : Prop :=
  (low < k ∧ k < high) ∨ (k = low ∧ lowOp = .GTE)

instance (low : Int) (lowOp : Operator) (high k : Int) : Decidable (Picks low lowOp high k) :=
  inferInstanceAs (Decidable (_ ∨ _))

/-- The test with which `scanNext` goes on. -/
def UpTo (high : Int) (highOp : Operator) (k : Int) : Prop := k < high ∨ (k = high ∧ highOp = .LTE)

instance (high : Int) (highOp : Operator) (k : Int) : Decidable (UpTo high highOp k) :=
  inferInstanceAs (Decidable (_ ∨ _))

/-- The loop over the entries of a leaf goes on behind such a key. -/
def passes (low : Int) (lowOp : Operator) (high : Int) (x : RIDKeyPair) : Bool :=
  decide (x.key ≤ high ∧ ¬Picks low lowOp high x.key)

/-- The entries in front of which the scan starts in the leaf `L` with the leaves `B` to its right; `none` if the code
reports that there are none.  In a leaf that is not full the end mark `INT_MAX` is compared with the upper bound. -/
def startEntries (low : Int) (lowOp : Operator) (high : Int) (L : List RIDKeyPair) (B : List (List RIDKeyPair)) :
    Option (List RIDKeyPair) :=
  match L.dropWhile (passes low lowOp high) with
  | x :: Y => if high < x.key then none else some (x :: Y ++ B.flatten)
  | [] => if (L.length < leafOccupancy ∧ high < INT_MAX) ∨ B = [] then none else some B.flatten

/-- The record ids that a scan returns which starts in front of `es`. -/
def scannedRids (high : Int) (highOp : Operator) (es : List RIDKeyPair) : List RecordId :=
  match es with
  | [] => []
  | x :: rest => x.rid :: (rest.takeWhile fun y => decide (UpTo high highOp y.key)).map (·.rid)

/-! ### The loop over the entries of a leaf -/

section FirstEntry

variable {n : LeafNodeInt} {L : List RIDKeyPair} {low high : Int} {lowOp : Operator}

/-- The loop from the entries `Z` on, by induction on `Z`. -/
private theorem firstEntry_from (hn : LeafHolds n L) (X Z : List RIDKeyPair) (hL : L = X ++ Z) {rounds : Nat}
    (hrounds : X.length + rounds = leafOccupancy) :
    firstEntry n low high lowOp rounds X.length =
      match Z.dropWhile (passes low lowOp high) with
      | x :: Y => if high < x.key then .keyAboveRange else .found (L.length - (x :: Y).length)
      | [] => if L.length < leafOccupancy ∧ high < INT_MAX then .keyAboveRange else .notHere := by
  have hsize := hn.size
  induction Z generalizing X rounds with
  | nil =>
    rw [List.append_nil] at hL
    subst hL
    rw [List.dropWhile_nil]
    cases rounds with
    | zero =>
      have hfull : ¬(L.length < leafOccupancy ∧ high < INT_MAX) := by omega
      simp only [firstEntry, if_neg hfull]
    | succ rounds =>
      have hlt : L.length < leafOccupancy := by omega
      simp only [firstEntry, hn.endKey, hn.endRid, if_true, hlt, true_and]
  | cons x Z ih =>
    have hlen : L.length = X.length + (Z.length + 1) := by rw [hL, List.length_append, List.length_cons]
    have hx : X.length < L.length := by omega
    have hgetx : L[X.length] = x := by simp [hL]
    obtain ⟨rounds, rfl⟩ : ∃ r, rounds = r + 1 := ⟨rounds - 1, by omega⟩
    have hkey : n.keyArray X.length = x.key := by rw [hn.key_eq hx, hgetx]
    have hrid : (n.ridArray X.length).page_number ≠ INVALID_NUMBER := hn.rid_valid hx
    simp only [firstEntry, hkey, if_neg hrid]
    by_cases hhigh : high < x.key
    · have hp : passes low lowOp high x = false := by
        simp only [passes, decide_eq_false_iff_not]
        exact fun hle => absurd hle.1 (Int.not_le.2 hhigh)
      rw [List.dropWhile_cons_of_neg (by simp [hp])]
      simp only [if_pos hhigh]
    · by_cases hpick : Picks low lowOp high x.key
      · have hp : passes low lowOp high x = false := by simp [passes, hpick]
        have hpos : L.length - (x :: Z).length = X.length := by rw [hlen, List.length_cons]; omega
        rw [List.dropWhile_cons_of_neg (by simp [hp])]
        simp only [if_neg hhigh, if_pos (show _ ∨ _ from hpick), hpos]
      · have hp : passes low lowOp high x = true := by
          simp only [passes, decide_eq_true_eq]
          exact ⟨Int.not_lt.1 hhigh, hpick⟩
        rw [List.dropWhile_cons_of_pos hp, if_neg hhigh, if_neg (show ¬(_ ∨ _) from hpick)]
        have hnext : (X ++ [x]).length = X.length + 1 := List.length_append
        rw [← hnext]
        exact ih (X ++ [x]) (by rw [hL, List.append_assoc]; rfl) (by omega)

theorem firstEntry_eq (hn : LeafHolds n L) :
    firstEntry n low high lowOp leafOccupancy 0 =
      match L.dropWhile (passes low lowOp high) with
      | x :: Y => if high < x.key then .keyAboveRange else .found (L.length - (x :: Y).length)
      | [] => if L.length < leafOccupancy ∧ high < INT_MAX then .keyAboveRange else .notHere :=
  firstEntry_from hn [] L rfl (Nat.zero_add _)

end FirstEntry

/-! ### The rest of `startScan` in a leaf -/

section ScanLeaf

variable {w : World PageStore PageId} {low high : Int} {lowOp highOp : Operator}

theorem scanLeaf_eq {n : LeafNodeInt} (hn : w.pages.pages w.index.currentPageData = .leaf n) :
    scanLeaf layer w =
      match firstEntry n w.index.lowValInt w.index.highValInt w.index.lowOp leafOccupancy 0 with
      | .keyAboveRange => .error .noSuchKeyFound { w with index := { w.index with nextEntry := -1 } }
      | .found i => .ok () { w with index := { w.index with nextEntry := i } }
      | .notHere =>
        if n.rightSibPageNo = INVALID_NUMBER then
          .error .noSuchKeyFound { w with index := { w.index with nextEntry := -1 } }
        else
          .ok ()
            { w with
              index :=
                { w.index with
                  currentPageNum := n.rightSibPageNo
                  currentPageData := n.rightSibPageNo
                  nextEntry := 0 } } := by
  have hleaf : (w.pages.pages w.index.currentPageData).asLeaf = n := by rw [hn, asLeaf_leaf]
  simp only [scanLeaf, run_bind, run_get, onPages, deref_layer, hleaf, run_setIndex]
  cases firstEntry n w.index.lowValInt w.index.highValInt w.index.lowOp leafOccupancy 0 with
  | keyAboveRange => rfl
  | found i => rfl
  | notHere =>
    by_cases hsib : n.rightSibPageNo = INVALID_NUMBER
    · simp only [if_pos hsib]
      rfl
    · simp only [if_neg hsib, run_bind, onPages, layer_unPinPage, deref_layer, hleaf, run_setIndex, layer_readPage]

/-- The code reaches a leaf and puts the scan where `startEntries` says. -/
private theorem scanLeaf_spec (hexec : w.index.scanExecuting = true) (hlow : w.index.lowValInt = low)
    (hhigh : w.index.highValInt = high) (hlowOp : w.index.lowOp = lowOp) (hhighOp : w.index.highOp = highOp) {q : Nat}
    (hq : w.index.currentPageData = q) {L : List RIDKeyPair} {B : List (Nat × List RIDKeyPair)}
    (hlinked : Linked w.pages ((q, L) :: B)) (hvalid : ∀ l ∈ B, l.1 ≠ INVALID_NUMBER) (hne : ∀ l ∈ B, l.2 ≠ []) :
    match startEntries low lowOp high L (B.map (·.2)) with
    | none => ∃ w', scanLeaf layer w = .error .noSuchKeyFound w'
    | some es => ∃ w', scanLeaf layer w = .ok () w' ∧ ScanReturns layer w' (scannedRids high highOp es) := by
  subst hlow hhigh hlowOp hhighOp hq
  obtain ⟨⟨n, hpage, hn, hsib⟩, hB⟩ := hlinked
  have hrun := scanLeaf_eq hpage
  rw [firstEntry_eq hn] at hrun
  unfold startEntries
  dsimp only at hn
  cases hd : L.dropWhile (passes w.index.lowValInt w.index.lowOp w.index.highValInt) with
  | nil =>
    simp only [hd] at hrun ⊢
    by_cases hmark : L.length < leafOccupancy ∧ w.index.highValInt < INT_MAX
    · simp only [if_pos hmark] at hrun
      rw [if_pos (Or.inl hmark)]
      exact ⟨_, hrun⟩
    · simp only [if_neg hmark] at hrun
      cases B with
      | nil =>
        replace hsib : n.rightSibPageNo = INVALID_NUMBER := hsib
        rw [if_pos hsib] at hrun
        rw [List.map_nil, if_pos (Or.inr rfl)]
        exact ⟨_, hrun⟩
      | cons l B =>
        obtain ⟨e, rest, hes⟩ : ∃ e rest, l.2 = e :: rest := List.exists_cons_of_ne_nil (hne l (by simp))
        replace hsib : n.rightSibPageNo = l.1 := hsib
        have hor : ¬((L.length < leafOccupancy ∧ w.index.highValInt < INT_MAX) ∨ (l :: B).map (·.2) = []) := by
          simp only [List.map_cons, reduceCtorEq, or_false]
          exact hmark
        rw [hsib, if_neg (hvalid l (by simp))] at hrun
        rw [if_neg hor]
        rw [List.map_cons, List.flatten_cons, hes, ← List.flatMap_def]
        refine ⟨_, hrun, ScanAt.returns (p := l.1) (X := []) (Y := rest) ⟨hexec, rfl, rfl, ?_, ?_, ?_⟩⟩
        · rw [List.nil_append, ← hes]
          exact hB
        · exact fun l' hl' => hvalid l' (by simp [hl'])
        · exact fun l' hl' => hne l' (by simp [hl'])
  | cons x Y =>
    simp only [hd] at hrun ⊢
    by_cases hx : w.index.highValInt < x.key
    · simp only [if_pos hx] at hrun ⊢
      exact ⟨_, hrun⟩
    · simp only [if_neg hx] at hrun ⊢
      obtain ⟨X, rfl⟩ : ∃ X, L = X ++ x :: Y :=
        ⟨L.takeWhile (passes w.index.lowValInt w.index.lowOp w.index.highValInt), by
          rw [← hd, List.takeWhile_append_dropWhile]⟩
      have hpos : (X ++ x :: Y).length - (x :: Y).length = X.length := by simp
      rw [hpos] at hrun
      rw [← List.flatMap_def]
      exact ⟨_, hrun, ScanAt.returns (X := X) ⟨hexec, rfl, rfl, ⟨⟨n, hpage, hn, hsib⟩, hB⟩, hvalid, hne⟩⟩

end ScanLeaf

/-! ### The whole of `startScan` -/

/-- The operators and bounds for which `startScan` starts a scan at all. -/
structure ScanArgs (low : Int) (lowOp : Operator) (high : Int) (highOp : Operator) : Prop where
  lowInt : IsInt low
  highInt : IsInt high
  le : low ≤ high
  lowOp : lowOp = .GT ∨ lowOp = .GTE
  highOp : highOp = .LT ∨ highOp = .LTE

/-- The index in front of the root, with the bounds of the scan. -/
def World.atRoot (w : World PageStore PageId) (low : Int) (lowOp : Operator) (high : Int) (highOp : Operator) :
    World PageStore PageId :=
  { w with
    index :=
      { w.index with
        lowOp := lowOp
        highOp := highOp
        lowValInt := low
        highValInt := high
        scanExecuting := true
        currentPageNum := w.index.rootPageNum
        currentPageData := w.index.rootPageNum } }

section StartScan

variable {w : World PageStore PageId} {low high : Int} {lowOp highOp : Operator}

theorem startScan_eq (fuel : Nat) (ha : ScanArgs low lowOp high highOp) :
    startScan layer fuel low lowOp high highOp w =
      (do
        if decide ((w.pages.pages w.index.headerPageNum).asMetaInfo.height = 1) = false then
          scanDescend layer fuel w.index.rootPageNum
        scanLeaf layer) (w.atRoot low lowOp high highOp) := by
  have hlow : ¬(lowOp ≠ .GT ∧ lowOp ≠ .GTE) := by
    rcases ha.lowOp with rfl | rfl <;> simp
  have hhigh : ¬(highOp ≠ .LT ∧ highOp ≠ .LTE) := by
    rcases ha.highOp with rfl | rfl <;> simp
  have hle : ¬high < low := Int.not_lt.2 ha.le
  by_cases hexec : w.index.scanExecuting = true
  · simp only [startScan, run_bind, if_neg hlow, if_neg hhigh, if_neg hle, run_setIndex, run_get, hexec, if_true, endScan,
      Bool.true_eq_false, if_false, onPages, layer_unPinPage, layer_readPage, deref_layer]
    rfl
  · simp only [startScan, run_bind, if_neg hlow, if_neg hhigh, if_neg hle, run_setIndex, run_get, if_neg hexec, onPages,
      layer_unPinPage, layer_readPage, deref_layer]
    rfl

theorem Linked.suffix {s : PageStore} {A B : List (Nat × List RIDKeyPair)} (h : Linked s (A ++ B)) :
    Linked s B := by
  induction A with
  | nil => exact h
  | cons l A ih => exact ih h.2

variable {h : Nat} {t : Branch}

/-- A leaf, and those to its right, stand ready for a scan. -/
theorem Tree.leaves_ready (ht : Tree w h t) {A B : List (Nat × List RIDKeyPair)} {l : Nat × List RIDKeyPair}
    (hs : t.leaves = A ++ l :: B) :
    Linked w.pages (l :: B) ∧ (∀ l ∈ B, l.1 ≠ INVALID_NUMBER) ∧ ∀ l ∈ B, l.2 ≠ [] := by
  have hlinked := ht.linked
  rw [hs] at hlinked
  have hmem : ∀ l ∈ B, l ∈ t.leaves := fun l hl => by simp [hs, hl]
  refine ⟨hlinked.suffix, fun l hl => ?_, fun l hl => ?_⟩
  · exact ht.pages_valid _ (ht.subtree.leafPages_subset _ (List.mem_map_of_mem (hmem l hl)))
  · refine (ht.leaf_ne_nil (hmem l hl)).resolve_right fun hsingle => ?_
    have hlen := congrArg List.length (hs.symm.trans hsingle)
    have hpos := List.length_pos_of_mem hl
    simp at hlen
    omega

/-- `startScan` goes down to the leaf where the lower bound would be inserted, and starts where `startEntries` says. -/
theorem Tree.startScan (ht : Tree w h t) (hd : t.entries.Pairwise fun a b => a.key < b.key)
    (ha : ScanArgs low lowOp high highOp) (hstray : ¬StrayRoot w low) :
    ∃ A q L B, LeafSplit t.leaves low A q L B ∧ ∀ fuel,
      (fuel < h → ∃ w', BTree.startScan layer fuel low lowOp high highOp w = .error .outOfFuel w') ∧
      (h ≤ fuel →
        match startEntries low lowOp high L (B.map (·.2)) with
        | none => ∃ w', BTree.startScan layer fuel low lowOp high highOp w = .error .noSuchKeyFound w'
        | some es => ∃ w', BTree.startScan layer fuel low lowOp high highOp w = .ok () w' ∧
            ScanReturns layer w' (scannedRids high highOp es)) := by
  have hrun := fun fuel => startScan_eq (w := w) fuel ha
  simp only [ht.isRootLeaf_eq, ht.rootPageNum] at hrun
  cases h with
  | zero =>
    have hsub : ∃ n es, IsLeaf w.pages true t n es := ht.subtree
    obtain ⟨n, es, hl⟩ := hsub
    have hsplit : LeafSplit t.leaves low [] t.page es [] := ⟨hl.leaves, by simp, by simp, fun hne => absurd rfl hne⟩
    obtain ⟨hlinked, hvalid, hne⟩ := ht.leaves_ready hsplit.eq
    refine ⟨_, _, _, _, hsplit, fun fuel => ⟨fun hf => absurd hf (Nat.not_lt_zero _), fun _ => ?_⟩⟩
    rw [hrun fuel]
    exact scanLeaf_spec (w := w.atRoot low lowOp high highOp) rfl rfl rfl rfl rfl ht.rootPageNum hlinked hvalid hne
  | succ h =>
    have hroot : ∀ n, w.pages.pages t.page = .nonLeaf n → ¬n.Stray low := fun n hn hs => by
      refine hstray ?_
      rw [StrayRoot, ht.rootPageNum, hn]
      exact hs
    obtain ⟨A, q, L, B, hsplit, hdown⟩ := ht.subtree.descend hd ha.lowInt.2 hroot
    obtain ⟨hlinked, hvalid, hne⟩ := ht.leaves_ready hsplit.eq
    refine ⟨A, q, L, B, hsplit, fun fuel => ?_⟩
    obtain ⟨hok, hout⟩ := hdown (w.atRoot low lowOp high highOp) rfl rfl fuel
    have hcond : ((h + 1 == 0) = false) = True := by simp
    rw [hrun fuel]
    simp only [hcond, if_true, run_bind]
    refine ⟨fun hf => ?_, fun hf => ?_⟩
    · obtain ⟨w', hw'⟩ := hout (by omega)
      rw [hw']
      exact ⟨w', rfl⟩
    · rw [hok (by omega)]
      exact scanLeaf_spec (w := (w.atRoot low lowOp high highOp).movedTo q) rfl rfl rfl rfl rfl rfl hlinked hvalid hne

/-- At page number 0 no leaf has an entry. -/
private theorem scanLeaf_fresh (hw : w.pages.pages w.index.currentPageData = .fresh) :
    ∃ w', scanLeaf layer w = .error .noSuchKeyFound w' := by
  have hrid : (Page.fresh.asLeaf.ridArray 0).page_number = INVALID_NUMBER := by decide
  have hsib : Page.fresh.asLeaf.rightSibPageNo = INVALID_NUMBER := by decide
  have hfirst : firstEntry Page.fresh.asLeaf w.index.lowValInt w.index.highValInt w.index.lowOp leafOccupancy 0 =
      if w.index.highValInt < Page.fresh.asLeaf.keyArray 0 then .keyAboveRange else .notHere := by
    rw [show leafOccupancy = 680 + 1 from rfl, firstEntry, if_pos hrid]
  simp only [scanLeaf, run_bind, run_get, onPages, deref_layer, hw, run_setIndex, hfirst]
  by_cases hkey : w.index.highValInt < Page.fresh.asLeaf.keyArray 0
  · simp only [if_pos hkey]
    exact ⟨_, rfl⟩
  · simp only [if_neg hkey, if_pos hsib]
    exact ⟨_, rfl⟩

/-- A stray search ends at page number 0 if the root stands above the leaves, and else not at all. -/
theorem Tree.startScan_stray (ht : Tree w h t) (ha : ScanArgs low lowOp high highOp) (hstray : StrayRoot w low) :
    1 ≤ h ∧ ∀ fuel, ∃ w', BTree.startScan layer fuel low lowOp high highOp w =
      .error (if h = 1 ∧ 0 < fuel then .noSuchKeyFound else .outOfFuel) w' := by
  have hrun := fun fuel => startScan_eq (w := w) fuel ha
  simp only [ht.isRootLeaf_eq, ht.rootPageNum] at hrun
  rw [StrayRoot, ht.rootPageNum] at hstray
  cases h with
  | zero =>
    have hsub : ∃ n es, IsLeaf w.pages true t n es := ht.subtree
    obtain ⟨n, es, hl⟩ := hsub
    rw [hl.page] at hstray
    exact hstray.elim
  | succ h =>
    obtain ⟨n, keys, subs, hn, hsubs⟩ : ∃ n keys subs, IsNode w.pages true (h == 0) t n keys subs ∧
        ∀ u ∈ subs, Subtree w.pages h false u := ht.subtree
    rw [hn.page] at hstray
    obtain ⟨hchild, hpos, -⟩ := hn.scanChild_stray ha.lowInt.2 hstray
    have hcond : ((h + 1 == 0) = false) = True := by simp
    refine ⟨by omega, fun fuel => ?_⟩
    rw [hrun fuel]
    simp only [hcond, if_true, run_bind]
    cases fuel with
    | zero =>
      rw [if_neg (by omega)]
      exact ⟨_, rfl⟩
    | succ fuel =>
      have hnode : ((w.atRoot low lowOp high highOp).pages.pages t.page).asNonLeaf = n := by
        rw [World.atRoot, hn.page, asNonLeaf_nonLeaf]
      have hlowVal : (w.atRoot low lowOp high highOp).index.lowValInt = low := rfl
      have hzero : (w.atRoot low lowOp high highOp).pages.pages INVALID_NUMBER = .fresh := ht.unallocated
      rw [scanDescend_eq fuel t.page _ hnode, hlowVal, hchild]
      by_cases hh : h = 0
      · have hlevel : n.level = 1 := by
          rw [hn.level, hh]
          rfl
        rw [if_pos hlevel, if_pos ⟨by omega, Nat.succ_pos _⟩]
        exact scanLeaf_fresh (w := (w.atRoot low lowOp high highOp).movedTo INVALID_NUMBER) hzero
      · have hlevel : n.level ≠ 1 := by
          rw [hn.level, if_neg (by simpa using hh)]
          exact Int.zero_ne_one
        obtain ⟨w', hw'⟩ := scanDescend_fresh hpos fuel ((w.atRoot low lowOp high highOp).movedTo INVALID_NUMBER) hzero rfl
        rw [if_neg hlevel, if_neg (by omega), hw']
        exact ⟨w', rfl⟩

end StartScan

end Cs564.BTree
