import Cs564.BTree.Shape

/-!
# Scans over the leaves

A scan stands in front of an entry of a leaf.  From there `scanNext` follows the leaves to the right and stops at the
first key outside of the upper bound (`ScanAt.returns`).  `startEntries` says in terms of the entries alone where
`startScan` puts the scan once it has reached a leaf, and `Tree.startScan` that the code does the same.
-/

namespace Cs564.BTree

open PageStore

/-- Successive calls of `scanNext` return `rids`, and the call after them finds the scan completed. -/
inductive ScanReturns {σ Ptr : Type} (L : PageLayer σ Ptr) : World σ Ptr → List RecordId → Prop
  | completed {w w'} (h : scanNext L w = .error .indexScanCompleted w') : ScanReturns L w []
  | next {w w' rid rids} (h : scanNext L w = .ok rid w') (rest : ScanReturns L w' rids) : ScanReturns L w (rid :: rids)

/-- What a scan returns is determined. -/
theorem ScanReturns.unique {σ Ptr : Type} {L : PageLayer σ Ptr} {w : World σ Ptr} {l₁ l₂ : List RecordId}
    (h₁ : ScanReturns L w l₁) (h₂ : ScanReturns L w l₂) : l₁ = l₂ := by
  induction h₁ generalizing l₂ with
  | completed h =>
    cases h₂ with
    | completed _ => rfl
    | next h' _ => rw [h] at h'; cases h'
  | next h _ ih =>
    cases h₂ with
    | completed h' => rw [h] at h'; cases h'
    | next h' rest =>
      rw [h] at h'
      cases h'
      rw [ih rest]

/-- The leaves stand one behind the other, as linked by `rightSibPageNo`. -/
def Linked (s : PageStore) : List (Nat × List RIDKeyPair) → Prop
  | [] => True
  | l :: rest => (∃ n, s.pages l.1 = .leaf n ∧ LeafHolds n l.2 ∧ n.rightSibPageNo = (rest.map (·.1)).headD INVALID_NUMBER) ∧
      Linked s rest

section Linked

variable {s : PageStore} {h : Nat} {root : Bool} {t : Branch}

theorem Subtree.leaf_holds (ht : Subtree s h root t) : ∀ l ∈ t.leaves, ∃ n, s.pages l.1 = .leaf n ∧ LeafHolds n l.2 := by
  induction h generalizing root t with
  | zero =>
    obtain ⟨n, es, hl⟩ := ht
    intro l hmem
    obtain rfl : l = (t.page, es) := by simpa [hl.leaves] using hmem
    exact ⟨n, hl.page, hl.holds⟩
  | succ h ih =>
    obtain ⟨n, keys, subs, hn, hsubs⟩ := ht
    intro l hmem
    rw [hn.leaves] at hmem
    obtain ⟨u, hu, hmem⟩ := List.mem_flatMap.1 hmem
    exact ih (hsubs u hu) l hmem

private theorem linked_of_chain {leaves : List (Nat × List RIDKeyPair)} {a : Nat}
    (hl : ∀ l ∈ leaves, ∃ n, s.pages l.1 = .leaf n ∧ LeafHolds n l.2)
    (hc : Chain s.next a (leaves.map (·.1)) INVALID_NUMBER) : Linked s leaves := by
  induction leaves generalizing a with
  | nil => trivial
  | cons l leaves ih =>
    obtain ⟨n, hp, hn⟩ := hl l (by simp)
    obtain ⟨-, hc⟩ := hc
    refine ⟨⟨n, hp, hn, ?_⟩, ih (fun x hx => hl x (by simp [hx])) hc⟩
    have hstart := hc.start_eq
    rwa [next, hp, asLeaf_leaf] at hstart

theorem Tree.linked {w : World PageStore PageId} (ht : Tree w h t) : Linked w.pages t.leaves := by
  obtain ⟨a, hc⟩ := ht.chain
  exact linked_of_chain ht.subtree.leaf_holds hc

/-- A leaf below a non-leaf is not empty. -/
theorem Subtree.leaf_ne_nil (ht : Subtree s h false t) : ∀ l ∈ t.leaves, l.2 ≠ [] := by
  induction h generalizing t with
  | zero =>
    obtain ⟨n, es, hl⟩ := ht
    intro l hmem
    obtain rfl : l = (t.page, es) := by simpa [hl.leaves] using hmem
    have := hl.half rfl
    rintro rfl
    simp at this
  | succ h ih =>
    obtain ⟨n, keys, subs, hn, hsubs⟩ := ht
    intro l hmem
    rw [hn.leaves] at hmem
    obtain ⟨u, hu, hmem⟩ := List.mem_flatMap.1 hmem
    exact ih (hsubs u hu) l hmem

/-- Only a leaf that is the whole tree can be empty. -/
theorem Tree.leaf_ne_nil {w : World PageStore PageId} (ht : Tree w h t) {l : Nat × List RIDKeyPair} (hl : l ∈ t.leaves) :
    l.2 ≠ [] ∨ t.leaves = [l] := by
  have hsub := ht.subtree
  cases h with
  | zero =>
    obtain ⟨n, es, hleaf⟩ := hsub
    right
    rw [hleaf.leaves, List.mem_singleton] at hl
    rw [hleaf.leaves, hl]
  | succ h =>
    obtain ⟨n, keys, subs, hn, hsubs⟩ := hsub
    left
    rw [hn.leaves] at hl
    obtain ⟨u, hu, hl⟩ := List.mem_flatMap.1 hl
    exact (hsubs u hu).leaf_ne_nil l hl

end Linked

/-! ### The calls of `scanNext` -/

section ScanNext

variable {w : World PageStore PageId}

/-- `scanNext` at entry `i` of the leaf `n`. -/
theorem scanNext_eq (hexec : w.index.scanExecuting = true) {i : Nat} (hi : w.index.nextEntry = i) {n : LeafNodeInt}
    (hn : w.pages.pages w.index.currentPageData = .leaf n) :
    scanNext layer w =
      if (n.ridArray (i + 1)).page_number = INVALID_NUMBER then
        if n.rightSibPageNo = INVALID_NUMBER then
          .ok (n.ridArray i) { w with index := { w.index with nextEntry := -1 } }
        else
          .ok (n.ridArray i)
            { w with
              index :=
                { w.index with
                  currentPageNum := n.rightSibPageNo
                  currentPageData := n.rightSibPageNo
                  nextEntry :=
                    if withinHigh w.index ((w.pages.pages n.rightSibPageNo).asLeaf.keyArray 0) then 0 else -1 } }
      else
        .ok (n.ridArray i)
          { w with index := { w.index with
              nextEntry := if withinHigh w.index (n.keyArray (i + 1)) then w.index.nextEntry + 1 else -1 } } := by
  have hleaf : (w.pages.pages w.index.currentPageData).asLeaf = n := by rw [hn, asLeaf_leaf]
  have hexec' : (w.index.scanExecuting = false) = False := by simp [hexec]
  have hne : w.index.nextEntry ≠ -1 := by omega
  have hnat : w.index.nextEntry.toNat = i := by omega
  simp only [scanNext, run_bind, run_get, hexec', if_false, hne, onPages, deref_layer, hleaf,
    hnat]
  by_cases h1 : (n.ridArray (i + 1)).page_number = INVALID_NUMBER
  · rw [if_pos h1, if_pos h1]
    by_cases h2 : n.rightSibPageNo = INVALID_NUMBER
    · rw [if_pos h2, if_pos h2]
      rfl
    · rw [if_neg h2, if_neg h2]
      simp only [run_bind, onPages, layer_unPinPage, deref_layer, hleaf, run_setIndex, layer_readPage, run_pure]
      rfl
  · rw [if_neg h1, if_neg h1]
    rfl

/-- The scan stands in front of the entry `e` of the leaf `p`; the leaves `B` are still to come. -/
structure ScanAt (w : World PageStore PageId) (p : Nat) (X : List RIDKeyPair) (e : RIDKeyPair) (Y : List RIDKeyPair)
    (B : List (Nat × List RIDKeyPair)) : Prop where
  executing : w.index.scanExecuting = true
  nextEntry : w.index.nextEntry = X.length
  currentPageData : w.index.currentPageData = p
  linked : Linked w.pages ((p, X ++ e :: Y) :: B)
  valid : ∀ l ∈ B, l.1 ≠ INVALID_NUMBER
  nonempty : ∀ l ∈ B, l.2 ≠ []

/-- The scan is through. -/
theorem scanReturns_completed (hexec : w.index.scanExecuting = true) (hnext : w.index.nextEntry = -1) :
    ScanReturns layer w [] := by
  have hexec' : (w.index.scanExecuting = false) = False := by simp [hexec]
  have hrun : scanNext layer w = .error .indexScanCompleted w := by
    simp only [scanNext, run_bind, run_get, hexec', if_false, hnext, if_true, run_throw]
  exact .completed hrun

variable {p : Nat} {X Y : List RIDKeyPair} {e : RIDKeyPair} {B : List (Nat × List RIDKeyPair)}

/-- One call of `scanNext`: it returns the entry the scan stands at, and then either the scan stands at the entry
behind it, or that is outside of the upper bound and the scan is completed. -/
private theorem ScanAt.step (h : ScanAt w p X e Y B) :
    ∃ w', scanNext layer w = .ok e.rid w' ∧ w'.index.scanExecuting = true ∧
      (∀ k, withinHigh w'.index k ↔ withinHigh w.index k) ∧
      match Y ++ B.flatMap (·.2) with
      | [] => w'.index.nextEntry = -1
      | x :: rest =>
        if withinHigh w.index x.key then
          ∃ p' X' Y' B', ScanAt w' p' X' x Y' B' ∧ rest = Y' ++ B'.flatMap (·.2)
        else w'.index.nextEntry = -1 := by
  obtain ⟨hexec, hnext, hdata, ⟨⟨n, hpage, hn, hsib⟩, hB⟩, hvalid, hne⟩ := h
  dsimp only at hpage hn
  have hpage' : w.pages.pages w.index.currentPageData = .leaf n := by rw [hdata, hpage]
  have hrid : n.ridArray X.length = e.rid := by
    rw [hn.rid_eq (by simp)]
    simp
  have hrun := scanNext_eq hexec hnext hpage'
  rw [hrid] at hrun
  cases Y with
  | nil =>
    have hend : (n.ridArray (X.length + 1)).page_number = INVALID_NUMBER := by simpa using hn.endRid
    rw [if_pos hend] at hrun
    cases B with
    | nil =>
      replace hsib : n.rightSibPageNo = INVALID_NUMBER := hsib
      rw [if_pos hsib] at hrun
      exact ⟨_, hrun, hexec, fun _ => Iff.rfl, rfl⟩
    | cons l B =>
      have hlvalid := hvalid l (by simp)
      have hlne := hne l (by simp)
      obtain ⟨⟨m, hpage₁, hm, hsib₁⟩, hB⟩ := hB
      replace hsib : n.rightSibPageNo = l.1 := hsib
      obtain ⟨p₁, es⟩ := l
      obtain ⟨x, rest, rfl⟩ : ∃ x rest, es = x :: rest := List.exists_cons_of_ne_nil hlne
      dsimp only at hpage₁ hm hsib hlvalid
      rw [hsib, if_neg hlvalid, hpage₁, asLeaf_leaf, hm.key_eq (i := 0) (by simp), List.getElem_cons_zero] at hrun
      refine ⟨_, hrun, hexec, fun _ => Iff.rfl, ?_⟩
      by_cases hw : withinHigh w.index x.key
      · simp only [List.nil_append, List.flatMap_cons, List.cons_append, if_pos hw]
        refine ⟨p₁, [], rest, B, ⟨hexec, rfl, rfl, ⟨⟨m, hpage₁, hm, hsib₁⟩, hB⟩, ?_, ?_⟩, rfl⟩
        · exact fun l hl => hvalid l (by simp [hl])
        · exact fun l hl => hne l (by simp [hl])
      · simp only [List.nil_append, List.flatMap_cons, List.cons_append, if_neg hw]
  | cons x rest =>
    have hx : (n.ridArray (X.length + 1)).page_number ≠ INVALID_NUMBER := hn.rid_valid (by simp)
    have hkey : n.keyArray (X.length + 1) = x.key := by
      rw [hn.key_eq (by simp)]
      simp
    rw [if_neg hx, hkey] at hrun
    refine ⟨_, hrun, hexec, fun _ => Iff.rfl, ?_⟩
    by_cases hw : withinHigh w.index x.key
    · simp only [List.cons_append, if_pos hw]
      refine ⟨p, X ++ [e], rest, B, ⟨hexec, ?_, hdata, ⟨⟨n, hpage, ?_, hsib⟩, hB⟩, hvalid, hne⟩, rfl⟩
      · simp [hnext]
      · simpa using hn
    · simp only [List.cons_append, if_neg hw]

/-- From an entry on, a scan returns that entry and all behind it up to the first one outside of the upper bound, by
induction on the entries to come. -/
theorem ScanAt.returns (h : ScanAt w p X e Y B) :
    ScanReturns layer w
      (e.rid :: ((Y ++ B.flatMap (·.2)).takeWhile fun x => decide (withinHigh w.index x.key)).map (·.rid)) := by
  obtain ⟨rest, hrest⟩ : ∃ rest, rest = Y ++ B.flatMap (·.2) := ⟨_, rfl⟩
  induction rest generalizing w p X e Y B with
  | nil =>
    obtain ⟨w', hrun, hexec, -, hstate⟩ := h.step
    rw [← hrest] at hstate ⊢
    exact .next hrun (scanReturns_completed hexec hstate)
  | cons x rest ih =>
    obtain ⟨w', hrun, hexec, hhigh, hstate⟩ := h.step
    rw [← hrest] at hstate ⊢
    refine .next hrun ?_
    by_cases hw : withinHigh w.index x.key
    · simp only [if_pos hw] at hstate
      obtain ⟨p', X', Y', B', hat, hrest'⟩ := hstate
      have hreturns := ih hat hrest'
      simp only [hhigh, ← hrest'] at hreturns
      simpa [hw] using hreturns
    · simp only [if_neg hw] at hstate
      simpa [hw] using scanReturns_completed hexec hstate

end ScanNext

end Cs564.BTree
