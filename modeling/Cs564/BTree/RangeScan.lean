import Cs564.BTree.Ranges

/-!
# When a scan returns its range

The two results about whole scans: `startScan` throws `NoSuchKeyFoundException` exactly for the empty ranges if and
only if the bounds are no `StartFault` (`startScan_noSuchKey_iff`), and a started scan returns exactly its range if and
only if they are no `ScanFault` (`startScan_range_iff`).  A root without its end mark adds the searches of `StrayRoot`.
-/

namespace Cs564.BTree

open PageStore

/-! ### The lists -/

section Lists

variable {blocks A B : List (List RIDKeyPair)} {L X Y : List RIDKeyPair} {e : RIDKeyPair} {low high : Int}
  {lowOp highOp : Operator}

theorem FirstAbove.startFault_iff (hf : FirstAbove blocks low lowOp A X e Y B) :
    StartFault blocks low lowOp high highOp ↔
      ((e.key = low ∧ low = high ∧ highOp = .LT) ∨
        (low < e.key ∧ e.key = high ∧ ¬(A ≠ [] ∧ X = []) ∧ (highOp = .LTE ↔ ¬LastOfFull X Y B)) ∨
        (low < e.key ∧ (A ≠ [] ∧ X = []) ∧ (UpTo high highOp e.key ↔ ¬GoesOn A high))) := by
  constructor
  · rintro ⟨A', X', e', Y', B', hf', hfault⟩
    obtain ⟨rfl, rfl, rfl, rfl, rfl⟩ := hf.unique hf'
    exact hfault
  · exact fun hfault => ⟨A, X, e, Y, B, hf, hfault⟩

theorem FirstAbove.scanFault_iff (hf : FirstAbove blocks low lowOp A X e Y B) :
    ScanFault blocks low lowOp high highOp ↔
      ((e.key = low ∧ low = high ∧ highOp = .LT) ∨
        (low < e.key ∧ e.key = high ∧ ¬(A ≠ [] ∧ X = []) ∧ LastOfFull X Y B ∧
          ¬(highOp = .LTE ∧ B.flatten.head?.map (·.rid) = some e.rid)) ∨
        (low < e.key ∧ (A ≠ [] ∧ X = []) ∧ GoesOn A high ∧ ¬UpTo high highOp e.key)) := by
  constructor
  · rintro ⟨A', X', e', Y', B', hf', hfault⟩
    obtain ⟨rfl, rfl, rfl, rfl, rfl⟩ := hf.unique hf'
    exact hfault
  · exact fun hfault => ⟨A, X, e, Y, B, hf, hfault⟩

/-- At the upper bound the operator decides. -/
private theorem upTo_self {k : Int} (hk : k = high) : UpTo high highOp k ↔ highOp = .LTE := by
  subst hk
  simp [UpTo]

private theorem not_LT_iff (hop : highOp = .LT ∨ highOp = .LTE) : ¬highOp = .LT ↔ highOp = .LTE := by
  rcases hop with rfl | rfl <;> simp

/-- The key the bounds meet at, if the search starts there. -/
private theorem upTo_low (hle : low ≤ high) (hop : highOp = .LT ∨ highOp = .LTE) (hk : e.key = low) :
    UpTo high highOp e.key ↔ ¬(low = high ∧ highOp = .LT) := by
  rcases Int.lt_or_eq_of_le hle with hlt | heq
  · have hup : UpTo high highOp e.key := Or.inl (by omega)
    have hne : ¬low = high := by omega
    simp [hup, hne]
  · rw [upTo_self (hk.trans heq), ← not_LT_iff hop]
    simp [heq]

/-- `startScan` starts nowhere exactly for the empty ranges, apart from its faults. -/
theorem startAtCut_none_iff (hf : FirstAbove blocks low lowOp A X e Y B) (hle : low ≤ high)
    (hop : highOp = .LT ∨ highOp = .LTE) :
    (startAtCut low high A X e Y B = none ↔ ¬UpTo high highOp e.key) ↔ ¬StartFault blocks low lowOp high highOp := by
  rw [hf.startFault_iff, startAtCut]
  by_cases hlow : e.key = low
  · have hnlt : ¬low < e.key := by omega
    have hup := upTo_low hle hop hlow
    have hkey : (e.key = low) = True := eq_true hlow
    simp [hkey, hnlt, hup]
  · have hlt : low < e.key := hf.above.elim id fun h => absurd h.1 hlow
    by_cases hstart : A ≠ [] ∧ X = []
    · by_cases hgo : GoesOn A high
      · simp [hlow, hlt, hstart, hgo]
      · simp [hlow, hlt, hstart, hgo]
    · rcases Int.lt_trichotomy e.key high with hkey | hkey | hkey
      · have hup : UpTo high highOp e.key := Or.inl hkey
        have hne : e.key ≠ high := by omega
        simp [hlow, hlt, hstart, hkey, hup, hne]
      · have hup : UpTo high highOp e.key ↔ highOp = .LTE := upTo_self hkey
        have heq : (e.key = high) = True := eq_true hkey
        have hnlt : ¬e.key < high := by omega
        by_cases hlast : LastOfFull X Y B
        · simp [hlow, hlt, hstart, heq, hnlt, hup, hlast]
        · simp [hlow, hlt, hstart, heq, hnlt, hup, hlast]
      · have hup : ¬UpTo high highOp e.key := by
          rintro (h | ⟨h, -⟩) <;> omega
        have hne : e.key ≠ high := by omega
        have hnlt : ¬e.key < high := by omega
        simp [hlow, hlt, hstart, hup, hne, hnlt]

/-- A scan looks at its first entry only in `startScan`. -/
private theorem scannedRids_eq_iff (Z : List RIDKeyPair) :
    scannedRids high highOp (e :: Z) = ((e :: Z).takeWhile fun y => decide (UpTo high highOp y.key)).map (·.rid) ↔
      UpTo high highOp e.key := by
  by_cases hup : UpTo high highOp e.key
  · simp [scannedRids, hup]
  · simp [scannedRids, hup]

/-- Behind the upper bound nothing is returned after the first entry. -/
private theorem scannedRids_of_above {f : RIDKeyPair} {Z : List RIDKeyPair} (hZ : ∀ x ∈ Z, high < x.key) :
    scannedRids high highOp (f :: Z) = [f.rid] := by
  cases Z with
  | nil => rfl
  | cons z Z =>
    have hz : ¬UpTo high highOp z.key := by
      have := hZ z (by simp)
      rintro (h | ⟨h, -⟩) <;> omega
    simp [scannedRids, hz]

/-- What a scan returns is its range, apart from its faults. -/
theorem startAtCut_scanned_iff (hf : FirstAbove blocks low lowOp A X e Y B)
    (hs : blocks.flatten.Pairwise fun a b => a.key < b.key) (hne : ∀ b ∈ B, b ≠ []) (hle : low ≤ high)
    (hop : highOp = .LT ∨ highOp = .LTE) :
    (∀ es, startAtCut low high A X e Y B = some es →
      scannedRids high highOp es =
        ((e :: (Y ++ B.flatten)).takeWhile fun y => decide (UpTo high highOp y.key)).map (·.rid)) ↔
      ¬ScanFault blocks low lowOp high highOp := by
  have hat : scannedRids high highOp (e :: (Y ++ B.flatten)) =
      ((e :: (Y ++ B.flatten)).takeWhile fun y => decide (UpTo high highOp y.key)).map (·.rid) ↔
        UpTo high highOp e.key := scannedRids_eq_iff _
  rw [hf.scanFault_iff, startAtCut]
  by_cases hlow : e.key = low
  · have hnlt : ¬low < e.key := by omega
    have hup := upTo_low hle hop hlow
    have hkey : (e.key = low) = True := eq_true hlow
    simp [hkey, hnlt, hat, hup]
  · have hlt : low < e.key := hf.above.elim id fun h => absurd h.1 hlow
    by_cases hstart : A ≠ [] ∧ X = []
    · by_cases hgo : GoesOn A high
      · simp [hlow, hlt, hstart, hgo, hat]
      · simp [hlow, hlt, hstart, hgo]
    · rcases Int.lt_trichotomy e.key high with hkey | hkey | hkey
      · have hup : UpTo high highOp e.key := Or.inl hkey
        have hne : e.key ≠ high := by omega
        simp [hlow, hlt, hstart, hkey, scannedRids, hup, hne]
      · have hup : UpTo high highOp e.key ↔ highOp = .LTE := upTo_self hkey
        have heq : (e.key = high) = True := eq_true hkey
        have hnlt : ¬e.key < high := by omega
        by_cases hlast : LastOfFull X Y B
        · -- the scan starts at the first entry of the right sibling
          obtain ⟨rfl, -, hB⟩ := id hlast
          obtain ⟨b, B', rfl⟩ := List.exists_cons_of_ne_nil hB
          obtain ⟨f, b', rfl⟩ := List.exists_cons_of_ne_nil (hne b (by simp))
          have habove : ∀ x ∈ f :: (b' ++ B'.flatten), high < x.key := fun x hx => by
            have := hf.lt_later hs (x := x) (by simpa using hx)
            omega
          have hscan : scannedRids high highOp (f :: (b' ++ B'.flatten)) = [f.rid] :=
            scannedRids_of_above fun x hx => habove x (List.mem_cons_of_mem _ hx)
          have hf' : ¬UpTo high highOp f.key := by
            have := habove f (by simp)
            rintro (h | ⟨h, -⟩) <;> omega
          by_cases hLTE : highOp = .LTE
          · have hup' : UpTo high highOp e.key := hup.2 hLTE
            have hop' : (highOp = .LTE) = True := eq_true hLTE
            simp [hlow, hlt, hstart, heq, hnlt, hlast, hscan, hup', hf', hop']
          · have hup' : ¬UpTo high highOp e.key := fun h => hLTE (hup.1 h)
            simp [hlow, hlt, hstart, heq, hnlt, hlast, hscan, hup', hLTE]
        · simp [hlow, hlt, hstart, heq, hnlt, hlast]
      · have hup : ¬UpTo high highOp e.key := by
          rintro (h | ⟨h, -⟩) <;> omega
        have hne : e.key ≠ high := by omega
        have hnlt : ¬e.key < high := by omega
        simp [hlow, hlt, hstart, hup, hne, hnlt]

end Lists

/-! ### The index -/

section Index

variable {w : World PageStore PageId} {h : Nat} {t : Branch} {low high : Int} {lowOp highOp : Operator}

private theorem Tree.blocks_flatten (t : Branch) : (t.leaves.map (·.2)).flatten = t.entries := by
  rw [Branch.entries, List.flatMap_def]

private theorem LeafSplit.lowLeaf (ht : Tree w h t) (hd : t.entries.Pairwise fun a b => a.key < b.key)
    (hint : ∀ x ∈ t.entries, IsInt x.key) {A B : List (Nat × List RIDKeyPair)} {q : Nat} {L : List RIDKeyPair}
    (hs : LeafSplit t.leaves low A q L B) :
    LowLeaf (t.leaves.map (·.2)) (A.map (·.2)) L (B.map (·.2)) low := by
  obtain ⟨n, -, hn⟩ := ht.subtree.leaf_holds (q, L) (by simp [hs.eq])
  refine ⟨by simp [hs.eq], ?_, ?_, ?_, ?_, fun hne => hs.head (by simpa using hne), fun b hb => ?_, hn.size⟩
  · rwa [Tree.blocks_flatten]
  · rwa [Tree.blocks_flatten]
  · rw [← List.flatMap_def]
    exact hs.left
  · rw [← List.flatMap_def]
    exact hs.right
  · obtain ⟨l, hl, rfl⟩ := List.mem_map.1 hb
    exact (ht.leaves_ready hs.eq).2.2 l hl

/-- Without a stray search, `startScan` throws exactly for the empty ranges if and only if the bounds are no fault. -/
theorem Tree.throws_iff (ht : Tree w h t) (hd : t.entries.Pairwise fun a b => a.key < b.key)
    (hint : ∀ x ∈ t.entries, IsInt x.key) (ha : ScanArgs low lowOp high highOp) (hstray : ¬StrayRoot w low) :
    ((∃ fuel w', BTree.startScan layer fuel low lowOp high highOp w = .error .noSuchKeyFound w') ↔
      ∀ x ∈ t.entries, ¬InRange low lowOp high highOp x.key) ↔
    ¬StartFault (t.leaves.map (·.2)) low lowOp high highOp := by
  obtain ⟨A, q, L, B, hsplit, hrun⟩ := ht.startScan hd ha hstray
  have hleaf := hsplit.lowLeaf ht hd hint
  have hsorted := hleaf.sorted
  have hthrows : (∃ fuel w', BTree.startScan layer fuel low lowOp high highOp w = .error .noSuchKeyFound w') ↔
      startEntries low lowOp high L (B.map (·.2)) = none := by
    constructor
    · rintro ⟨fuel, w', hthrow⟩
      obtain ⟨hout, hok⟩ := hrun fuel
      rcases Nat.lt_or_ge fuel h with hf | hf
      · obtain ⟨w'', hw''⟩ := hout hf
        rw [hw''] at hthrow
        cases hthrow
      · have hok := hok hf
        cases hes : startEntries low lowOp high L (B.map (·.2)) with
        | none => rfl
        | some es =>
          simp only [hes] at hok
          obtain ⟨w'', hw'', -⟩ := hok
          rw [hw''] at hthrow
          cases hthrow
    · intro hnone
      have hok := (hrun h).2 (Nat.le_refl h)
      simp only [hnone] at hok
      exact ⟨h, hok⟩
  rw [hthrows, ← Tree.blocks_flatten]
  rcases startEntries_cases hleaf ha.le ha.highInt.2 with ⟨hnone, hstart⟩ | ⟨A', X, e, Y, B', hf, hstart⟩
  · have hempty : ∀ x ∈ (t.leaves.map (·.2)).flatten, ¬InRange low lowOp high highOp x.key := fun x hx hin =>
      hnone x hx hin.1
    have hno : ¬StartFault (t.leaves.map (·.2)) low lowOp high highOp := by
      rintro ⟨A', X, e, Y, B', hf, -⟩
      exact hnone e (by rw [hf.flatten_eq]; simp) hf.above
    exact iff_of_true (iff_of_true hstart hempty) hno
  · rw [hstart, hf.empty_iff hsorted]
    exact startAtCut_none_iff hf ha.le ha.highOp

/-- Without a stray search, a started scan returns its range if and only if the bounds are no fault. -/
theorem Tree.returns_iff (ht : Tree w h t) (hd : t.entries.Pairwise fun a b => a.key < b.key)
    (hint : ∀ x ∈ t.entries, IsInt x.key) (ha : ScanArgs low lowOp high highOp) (hstray : ¬StrayRoot w low) :
    (∀ fuel w', BTree.startScan layer fuel low lowOp high highOp w = .ok () w' →
      ScanReturns layer w'
        ((t.entries.filter fun x => decide (InRange low lowOp high highOp x.key)).map (·.rid))) ↔
    ¬ScanFault (t.leaves.map (·.2)) low lowOp high highOp := by
  obtain ⟨A, q, L, B, hsplit, hrun⟩ := ht.startScan hd ha hstray
  have hleaf := hsplit.lowLeaf ht hd hint
  have hsorted := hleaf.sorted
  have hscan : (∀ fuel w', BTree.startScan layer fuel low lowOp high highOp w = .ok () w' →
      ScanReturns layer w'
        ((t.entries.filter fun x => decide (InRange low lowOp high highOp x.key)).map (·.rid))) ↔
      ∀ es, startEntries low lowOp high L (B.map (·.2)) = some es → scannedRids high highOp es =
        (t.entries.filter fun x => decide (InRange low lowOp high highOp x.key)).map (·.rid) := by
    constructor
    · intro hall es hes
      have hok := (hrun h).2 (Nat.le_refl h)
      simp only [hes] at hok
      obtain ⟨w', hw', hret⟩ := hok
      exact hret.unique (hall h w' hw')
    · intro hall fuel w' hw'
      obtain ⟨hout, hok⟩ := hrun fuel
      rcases Nat.lt_or_ge fuel h with hf | hf
      · obtain ⟨w'', hw''⟩ := hout hf
        rw [hw''] at hw'
        cases hw'
      · have hok := hok hf
        cases hes : startEntries low lowOp high L (B.map (·.2)) with
        | none =>
          simp only [hes] at hok
          obtain ⟨w'', hw''⟩ := hok
          rw [hw''] at hw'
          cases hw'
        | some es =>
          simp only [hes] at hok
          obtain ⟨w'', hw'', hret⟩ := hok
          rw [hw''] at hw'
          cases hw'
          rw [← hall es hes]
          exact hret
  rw [hscan, ← Tree.blocks_flatten]
  rcases startEntries_cases hleaf ha.le ha.highInt.2 with ⟨hnone, hstart⟩ | ⟨A', X, e, Y, B', hf, hstart⟩
  · have hno : ¬ScanFault (t.leaves.map (·.2)) low lowOp high highOp := by
      rintro ⟨A', X, e, Y, B', hf, -⟩
      exact hnone e (by rw [hf.flatten_eq]; simp) hf.above
    refine iff_of_true (fun es hes => ?_) hno
    rw [hstart] at hes
    cases hes
  · rw [hstart, hf.filter_eq hsorted]
    refine startAtCut_scanned_iff hf hsorted (fun b hb => ?_) ha.le ha.highOp
    obtain ⟨l, hl, rfl⟩ := List.mem_map.1 (show b ∈ t.leaves.map (·.2) by rw [hf.eq]; simp [hb])
    refine (ht.leaf_ne_nil hl).resolve_right fun hsingle => ?_
    have hlen := congrArg List.length hf.eq
    have hpos := List.length_pos_of_mem hb
    simp [hsingle] at hlen
    omega

/-- A tree with at most one entry is a leaf. -/
theorem Tree.zero_of_length_le (ht : Tree w h t) (hlen : t.entries.length ≤ 1) : h = 0 := by
  have hsub := ht.subtree
  cases h with
  | zero => rfl
  | succ h =>
    obtain ⟨n, keys, subs, hn, hsubs⟩ := hsub
    obtain ⟨a, b, rest, rfl⟩ : ∃ a b rest, subs = a :: b :: rest := by
      have htwo := hn.two
      rcases subs with _ | ⟨a, _ | ⟨b, rest⟩⟩
      · simp at htwo
      · simp at htwo
      · exact ⟨a, b, rest, rfl⟩
    have ha := List.length_pos_of_ne_nil (hsubs a (by simp)).entries_ne_nil
    have hb := List.length_pos_of_ne_nil (hsubs b (by simp)).entries_ne_nil
    rw [hn.entries_eq] at hlen
    simp at hlen
    omega

/-- Scans of a tree with one entry. -/
theorem Tree.startScan_one (ht : Tree w h t) {e : RIDKeyPair} (he : t.entries = [e])
    (ha : ScanArgs low lowOp high highOp) :
    match startEntries low lowOp high [e] [] with
    | none => ∃ w', BTree.startScan layer 0 low lowOp high highOp w = .error .noSuchKeyFound w'
    | some es => ∃ w', BTree.startScan layer 0 low lowOp high highOp w = .ok () w' ∧
        ScanReturns layer w' (scannedRids high highOp es) := by
  obtain rfl : h = 0 := ht.zero_of_length_le (by simp [he])
  obtain ⟨n, es, hl⟩ : ∃ n es, IsLeaf w.pages true t n es := ht.subtree
  have hd : t.entries.Pairwise fun a b => a.key < b.key := by simp [he]
  have hstray : ¬StrayRoot w low := by simp [StrayRoot, ht.rootPageNum, hl.page]
  obtain ⟨A, q, L, B, hsplit, hrun⟩ := ht.startScan hd ha hstray
  obtain ⟨rfl, rfl⟩ : B = [] ∧ L = [e] := by
    have heq := hsplit.eq
    rw [hl.leaves] at heq
    cases A with
    | nil =>
      obtain ⟨⟨rfl, rfl⟩, rfl⟩ : (t.page = q ∧ es = L) ∧ [] = B := by simpa using heq
      exact ⟨rfl, hl.entries_eq.symm.trans he⟩
    | cons a A => simp at heq
  exact (hrun 0).2 (Nat.le_refl 0)

end Index

/-! ### The results -/

theorem contents_isInt {entries : List (Int × RecordId)} (hi : ∀ e ∈ entries, IsInt e.1) :
    ∀ x ∈ contents entries, IsInt x.key := by
  intro x hx
  obtain ⟨e, he, rfl⟩ := List.mem_map.1 ((contents_perm entries).mem_iff.1 hx)
  exact hi e he

/-- No inserted key is in the range. -/
def EmptyRange (entries : List (Int × RecordId)) (low : Int) (lowOp : Operator) (high : Int) (highOp : Operator) :
    Prop := ∀ e ∈ entries, ¬InRange low lowOp high highOp e.1

theorem contents_emptyRange (entries : List (Int × RecordId)) {low high : Int} {lowOp highOp : Operator} :
    (∀ x ∈ contents entries, ¬InRange low lowOp high highOp x.key) ↔ EmptyRange entries low lowOp high highOp := by
  constructor
  · intro hall e he
    exact hall ⟨e.2, e.1⟩ ((contents_perm entries).mem_iff.2 (List.mem_map.2 ⟨e, he, rfl⟩))
  · intro hall x hx
    obtain ⟨e, he, rfl⟩ := List.mem_map.1 ((contents_perm entries).mem_iff.1 hx)
    exact hall e he

/-- `startScan` reports an empty range exactly when the range is empty, if and only if: the search stays in the tree and
the bounds are no `StartFault`; or it is stray, and the range is empty exactly if the root stands above the leaves. -/
theorem startScan_noSuchKey_iff (index : BTreeIndex PageId) (relationName : Nat → Nat) (nameLength : Nat)
    (attrByteOffset : Int) (attrType : Datatype) (rel more : List (Int × RecordId))
    (hv : ∀ e ∈ rel ++ more, e.2.page_number ≠ INVALID_NUMBER) (hi : ∀ e ∈ rel ++ more, IsInt e.1)
    (hd : ((rel ++ more).map (·.1)).Nodup) :
    ∃ w blocks, (construct layer relationName nameLength attrByteOffset attrType rel >>= fun _ =>
          insertAll layer more) ⟨index, created⟩ = .ok () w ∧
      leafBlocks w = some blocks ∧
      ∀ low lowOp high highOp, ScanArgs low lowOp high highOp →
        (((∃ fuel w', startScan layer fuel low lowOp high highOp w = .error .noSuchKeyFound w') ↔
            EmptyRange (rel ++ more) low lowOp high highOp) ↔
          (¬StrayRoot w low ∧ ¬StartFault blocks low lowOp high highOp) ∨
            (StrayRoot w low ∧ ((w.pages.pages w.index.headerPageNum).asMetaInfo.height = 2 ↔
              EmptyRange (rel ++ more) low lowOp high highOp))) := by
  obtain ⟨w, h, t, hrun, ht, he, -⟩ := built index relationName nameLength attrByteOffset attrType rel more hv
  refine ⟨w, _, hrun, ht.leafBlocks_eq, fun low lowOp high highOp ha => ?_⟩
  rw [← contents_emptyRange, ← he]
  by_cases hstray : StrayRoot w low
  · obtain ⟨m, hm, hheight, -⟩ := ht.header
    obtain ⟨hpos, hout⟩ := ht.startScan_stray ha hstray
    have hthrows : (∃ fuel w', startScan layer fuel low lowOp high highOp w = .error .noSuchKeyFound w') ↔
        (w.pages.pages w.index.headerPageNum).asMetaInfo.height = 2 := by
      rw [hm, asMetaInfo_metaInfo, hheight]
      constructor
      · rintro ⟨fuel, w', hthrow⟩
        obtain ⟨w'', hw''⟩ := hout fuel
        rw [hw''] at hthrow
        by_cases hh : h = 1 ∧ 0 < fuel
        · omega
        · rw [if_neg hh] at hthrow
          cases hthrow
      · intro hh
        obtain ⟨w', hw'⟩ := hout 1
        rw [if_pos ⟨by omega, Nat.one_pos⟩] at hw'
        exact ⟨1, w', hw'⟩
    simp [hthrows, hstray]
  · have hlt : t.entries.Pairwise fun a b => a.key < b.key := he ▸ contents_pairwise_lt hd
    have hint : ∀ x ∈ t.entries, IsInt x.key := he ▸ contents_isInt hi
    rw [ht.throws_iff hlt hint ha hstray]
    simp [hstray]

/-- A scan that starts returns exactly the entries of its range, in increasing order of their keys, and is completed
then, if and only if the bounds are no `ScanFault` or the search is stray, so that no scan starts. -/
theorem startScan_range_iff (index : BTreeIndex PageId) (relationName : Nat → Nat) (nameLength : Nat)
    (attrByteOffset : Int) (attrType : Datatype) (rel more : List (Int × RecordId))
    (hv : ∀ e ∈ rel ++ more, e.2.page_number ≠ INVALID_NUMBER) (hi : ∀ e ∈ rel ++ more, IsInt e.1)
    (hd : ((rel ++ more).map (·.1)).Nodup) :
    ∃ w blocks, (construct layer relationName nameLength attrByteOffset attrType rel >>= fun _ =>
          insertAll layer more) ⟨index, created⟩ = .ok () w ∧
      leafBlocks w = some blocks ∧
      ∀ low lowOp high highOp, ScanArgs low lowOp high highOp →
        ((∀ fuel w', startScan layer fuel low lowOp high highOp w = .ok () w' →
            ∃ l : List RIDKeyPair, l.Perm ((pairs (rel ++ more)).filter fun x =>
              decide (InRange low lowOp high highOp x.key)) ∧
              l.Pairwise (fun a b => a.key < b.key) ∧ ScanReturns layer w' (l.map (·.rid))) ↔
          StrayRoot w low ∨ ¬ScanFault blocks low lowOp high highOp) := by
  obtain ⟨w, h, t, hrun, ht, he, -⟩ := built index relationName nameLength attrByteOffset attrType rel more hv
  refine ⟨w, _, hrun, ht.leafBlocks_eq, fun low lowOp high highOp ha => ?_⟩
  by_cases hstray : StrayRoot w low
  · obtain ⟨-, hout⟩ := ht.startScan_stray ha hstray
    refine iff_of_true (fun fuel w' hok => ?_) (Or.inl hstray)
    obtain ⟨w'', hw''⟩ := hout fuel
    rw [hw''] at hok
    cases hok
  · have hlt : t.entries.Pairwise fun a b => a.key < b.key := he ▸ contents_pairwise_lt hd
    have hint : ∀ x ∈ t.entries, IsInt x.key := he ▸ contents_isInt hi
    have hperm : (t.entries.filter fun x => decide (InRange low lowOp high highOp x.key)).Perm
        ((pairs (rel ++ more)).filter fun x => decide (InRange low lowOp high highOp x.key)) := by
      rw [he]
      exact (contents_perm _).filter _
    have hsorted : (t.entries.filter fun x => decide (InRange low lowOp high highOp x.key)).Pairwise
        fun a b => a.key < b.key := hlt.filter _
    -- the range has one sorted list only
    have hunique : ∀ l : List RIDKeyPair,
        l.Perm ((pairs (rel ++ more)).filter fun x => decide (InRange low lowOp high highOp x.key)) →
        l.Pairwise (fun a b => a.key < b.key) →
        l = t.entries.filter fun x => decide (InRange low lowOp high highOp x.key) := fun l hl hls =>
      (hl.trans hperm.symm).eq_of_pairwise (fun a b _ _ hab hba => absurd hab (Int.not_lt.2 (Int.le_of_lt hba))) hls hsorted
    rw [or_iff_right hstray, ← ht.returns_iff hlt hint ha hstray]
    refine forall_congr' fun fuel => forall_congr' fun w' => imp_congr_right fun _ => ?_
    constructor
    · rintro ⟨l, hl, hls, hret⟩
      rw [← hunique l hl hls]
      exact hret
    · exact fun hret => ⟨_, hperm, hsorted, hret⟩

theorem startScan_noSuchKey_two :
    ∃ w blocks, (construct layer (fun _ => 0) 0 0 .INTEGER [(7, ⟨1, 1, 0⟩)] >>= fun _ =>
          insertAll layer [(5, ⟨1, 2, 0⟩)]) ⟨uninitialized, created⟩ = .ok () w ∧
      leafBlocks w = some blocks ∧
      ∀ low lowOp high highOp, ScanArgs low lowOp high highOp →
        (((∃ fuel w', startScan layer fuel low lowOp high highOp w = .error .noSuchKeyFound w') ↔
            EmptyRange ([(7, ⟨1, 1, 0⟩)] ++ [(5, ⟨1, 2, 0⟩)]) low lowOp high highOp) ↔
          (¬StrayRoot w low ∧ ¬StartFault blocks low lowOp high highOp) ∨
            (StrayRoot w low ∧ ((w.pages.pages w.index.headerPageNum).asMetaInfo.height = 2 ↔
              EmptyRange ([(7, ⟨1, 1, 0⟩)] ++ [(5, ⟨1, 2, 0⟩)]) low lowOp high highOp))) :=
  startScan_noSuchKey_iff uninitialized _ _ _ _ _ _ (by decide) (by decide) (by decide)

theorem startScan_range_two :
    ∃ w blocks, (construct layer (fun _ => 0) 0 0 .INTEGER [(7, ⟨1, 1, 0⟩)] >>= fun _ =>
          insertAll layer [(5, ⟨1, 2, 0⟩)]) ⟨uninitialized, created⟩ = .ok () w ∧
      leafBlocks w = some blocks ∧
      ∀ low lowOp high highOp, ScanArgs low lowOp high highOp →
        ((∀ fuel w', startScan layer fuel low lowOp high highOp w = .ok () w' →
            ∃ l : List RIDKeyPair, l.Perm ((pairs ([(7, ⟨1, 1, 0⟩)] ++ [(5, ⟨1, 2, 0⟩)])).filter fun x =>
                decide (InRange low lowOp high highOp x.key)) ∧
              l.Pairwise (fun a b => a.key < b.key) ∧ ScanReturns layer w' (l.map (·.rid))) ↔
          StrayRoot w low ∨ ¬ScanFault blocks low lowOp high highOp) :=
  startScan_range_iff uninitialized _ _ _ _ _ _ (by decide) (by decide) (by decide)

/-- With the one key 5 in the index, the scan of the empty range from 5 on and below 5 starts, and returns an entry. -/
theorem scan_five_below_five :
    ∃ w fuel w', (construct layer (fun _ => 0) 0 0 .INTEGER [(5, ⟨1, 1, 0⟩)] >>= fun _ =>
          insertAll layer []) ⟨uninitialized, created⟩ = .ok () w ∧
      startScan layer fuel 5 .GTE 5 .LT w = .ok () w' ∧
      ¬∃ l : List RIDKeyPair,
        l.Perm ((pairs [(5, ⟨1, 1, 0⟩)]).filter fun x => decide (InRange 5 .GTE 5 .LT x.key)) ∧
          l.Pairwise (fun a b => a.key < b.key) ∧ ScanReturns layer w' (l.map (·.rid)) := by
  obtain ⟨w, h, t, hrun, ht, he, -⟩ :=
    built uninitialized (fun _ => 0) 0 0 .INTEGER [(5, ⟨1, 1, 0⟩)] [] (by decide)
  have ha : ScanArgs 5 .GTE 5 .LT := ⟨by decide, by decide, by decide, by decide, by decide⟩
  have hstart : startEntries 5 .GTE 5 [⟨⟨1, 1, 0⟩, 5⟩] [] = some [⟨⟨1, 1, 0⟩, 5⟩] := by decide
  have hscan := ht.startScan_one he ha
  simp only [hstart] at hscan
  obtain ⟨w', hw', hret⟩ := hscan
  refine ⟨w, 0, w', hrun, hw', ?_⟩
  rintro ⟨l, hl, -, hret'⟩
  obtain rfl : l = [] := by simpa [pairs, InRange, UpTo] using hl
  exact absurd (hret.unique hret') (by simp [scannedRids])

/-- With the one key 5 in the index, the scan above 4 and up to 5 is refused. -/
theorem scan_up_to_five :
    ∃ w fuel w', (construct layer (fun _ => 0) 0 0 .INTEGER [(5, ⟨1, 1, 0⟩)] >>= fun _ =>
          insertAll layer []) ⟨uninitialized, created⟩ = .ok () w ∧
      startScan layer fuel 4 .GT 5 .LTE w = .error .noSuchKeyFound w' ∧
      ¬EmptyRange [(5, ⟨1, 1, 0⟩)] 4 .GT 5 .LTE := by
  obtain ⟨w, h, t, hrun, ht, he, -⟩ :=
    built uninitialized (fun _ => 0) 0 0 .INTEGER [(5, ⟨1, 1, 0⟩)] [] (by decide)
  have ha : ScanArgs 4 .GT 5 .LTE := ⟨by decide, by decide, by decide, by decide, by decide⟩
  have hstart : startEntries 4 .GT 5 [⟨⟨1, 1, 0⟩, 5⟩] [] = none := by decide
  have hscan := ht.startScan_one he ha
  simp only [hstart] at hscan
  obtain ⟨w', hw'⟩ := hscan
  refine ⟨w, 0, w', hrun, hw', fun hempty => ?_⟩
  exact hempty (5, ⟨1, 1, 0⟩) (by simp) (by decide)

end Cs564.BTree
