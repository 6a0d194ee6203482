import Cs564.BTree.Sentinels
import Cs564.BTree.StartScan

/-!
# The pages on the way down

`PageStore.traced` is the plain store with a record of the pages that were read.  On it the loop of `startScan` and the
recursion of `insertUnderNode` leave their paths behind, `scanPath` and `insertPath`.  In a tree the two paths are one
(`Subtree.paths`), unless the search strays from a new root.
-/

namespace Cs564.BTree

open PageStore

/-- The plain page store, with the numbers of the pages that were read so far. -/
def PageStore.traced : PageLayer (PageStore × List PageId) PageId where
  readPage p := fun s => .ok p (s.1, s.2 ++ [p])
  allocPage := fun s => .ok (s.1.numPages, s.1.numPages) (s.1.alloc, s.2)
  unPinPage _ _ := pure ()
  flushFile := pure ()
  load p s := s.1.pages p
  store p page s := (s.1.write p page, s.2)

/-- The pages of the tree under a page, which has the given number of levels above the leaves. -/
def treePages (s : PageStore) : Nat → PageId → List PageId
  | 0, p => [p]
  | levels + 1, p =>
    p :: (List.range (s.pages p).asNonLeaf.entryNum).flatMap fun i =>
      treePages s levels ((s.pages p).asNonLeaf.pageNoArray i)

/-- The pages that `insertUnderNode` reads, from page `p` on. -/
def insertPath (s : PageStore) (key : Int) : Nat → PageId → Bool → List PageId
  | 0, _, _ => []
  | fuel + 1, p, isLeaf =>
    p :: if isLeaf then [] else
      insertPath s key fuel ((s.pages p).asNonLeaf.pageNoArray ((s.pages p).asNonLeaf.childPos key))
        (decide ((s.pages p).asNonLeaf.level ≠ 0))

/-- The pages that the loop over the levels in `startScan` reads, from the non-leaf `p` on. -/
def scanPath (s : PageStore) (low : Int) : Nat → PageId → List PageId
  | 0, _ => []
  | fuel + 1, p =>
    scanChild (s.pages p).asNonLeaf low ::
      if (s.pages p).asNonLeaf.level = 1 then [] else scanPath s low fuel (scanChild (s.pages p).asNonLeaf low)

/-! ### The record of a run -/

section Traced

theorem traced_readPage (p : PageId) (s : PageStore × List PageId) : traced.readPage p s = .ok p (s.1, s.2 ++ [p]) := rfl

theorem traced_unPinPage (p : PageId) (dirty : Bool) (s : PageStore × List PageId) :
    traced.unPinPage p dirty s = .ok () s := rfl

theorem deref_traced (p : PageId) (s : PageStore × List PageId) : deref traced p s = .ok (s.1.pages p) s := rfl

theorem assign_traced (p : PageId) (page : Page) (s : PageStore × List PageId) :
    assign traced p page s = .ok () (s.1.write p page, s.2) := rfl

/-- A result on the plain store, with a record. -/
def withTrace {α : Type} (trace : List PageId) : EStateM.Result Exc PageStore α →
    EStateM.Result Exc (PageStore × List PageId) α
  | .ok a s => .ok a (s, trace)
  | .error e s => .error e (s, trace)

/-- `insertUnderNode` does on the traced store what it does on the plain one, and records its path. -/
theorem insertUnderNode_traced (fuel : Nat) (e : RIDKeyPair) (p : PageId) (isLeaf : Bool) (s : PageStore)
    (trace : List PageId) :
    insertUnderNode traced fuel e p isLeaf (s, trace) =
      withTrace (trace ++ insertPath s e.key fuel p isLeaf) (insertUnderNode layer fuel e p isLeaf s) := by
  induction fuel generalizing p isLeaf s trace with
  | zero =>
    rw [insertPath, List.append_nil]
    rfl
  | succ fuel ih =>
    cases isLeaf with
    | true =>
      simp only [insertUnderNode, run_bind, traced_readPage, deref_traced, assign_traced, layer_readPage, deref_layer,
        assign_layer, if_true, insertPath]
      by_cases hfull : (s.pages p).asLeaf.entryNum = leafOccupancy
      · rw [if_pos hfull, if_pos hfull]
        rfl
      · rw [if_neg hfull, if_neg hfull]
        rfl
    | false =>
      simp only [insertUnderNode, run_bind, traced_readPage, deref_traced, layer_readPage, deref_layer,
        Bool.false_eq_true, if_false, insertPath, ih, List.append_assoc, List.singleton_append]
      cases insertUnderNode layer fuel e ((s.pages p).asNonLeaf.pageNoArray ((s.pages p).asNonLeaf.childPos e.key))
          (decide ((s.pages p).asNonLeaf.level ≠ 0)) s with
      | error x s' => rfl
      | ok c s' =>
        dsimp only [withTrace]
        by_cases hc : c.pageNo = INVALID_NUMBER
        · rw [if_pos hc, if_pos hc]
          rfl
        · rw [if_neg hc, if_neg hc]
          simp only [run_bind, deref_traced, assign_traced, deref_layer, assign_layer]
          by_cases hfull : (s'.pages p).asNonLeaf.entryNum = nodeOccupancy + 1
          · rw [if_pos hfull, if_pos hfull]
            rfl
          · rw [if_neg hfull, if_neg hfull]
            rfl

/-- The loop over the levels does on the traced store what it does on the plain one, and records its path. -/
theorem scanDescend_traced (fuel : Nat) (p : PageId) (w : World PageStore PageId) (trace : List PageId) :
    scanDescend traced fuel p ⟨w.index, (w.pages, trace)⟩ =
      match scanDescend layer fuel p w with
      | .ok () w' => .ok () ⟨w'.index, (w'.pages, trace ++ scanPath w.pages w.index.lowValInt fuel p)⟩
      | .error e w' => .error e ⟨w'.index, (w'.pages, trace ++ scanPath w.pages w.index.lowValInt fuel p)⟩ := by
  induction fuel generalizing p w trace with
  | zero =>
    rw [scanPath, List.append_nil]
    rfl
  | succ fuel ih =>
    rw [scanDescend_eq fuel p w rfl]
    simp only [scanDescend, run_bind, run_get, onPages, deref_traced, traced_unPinPage, run_setIndex, traced_readPage,
      scanPath]
    by_cases hlevel : (w.pages.pages p).asNonLeaf.level = 1
    · rw [if_pos hlevel, if_pos hlevel, if_pos hlevel]
      rfl
    · have hrest := ih (scanChild (w.pages.pages p).asNonLeaf w.index.lowValInt)
        (w.movedTo (scanChild (w.pages.pages p).asNonLeaf w.index.lowValInt))
        (trace ++ [scanChild (w.pages.pages p).asNonLeaf w.index.lowValInt])
      rw [List.append_assoc, List.singleton_append] at hrest
      rw [if_neg hlevel, if_neg hlevel, if_neg hlevel]
      exact hrest

/-- The page on which the loop over the levels ends is the last one on its path. -/
theorem scanDescend_last {fuel : Nat} {p : PageId} {w w' : World PageStore PageId}
    (hrun : scanDescend layer fuel p w = .ok () w') :
    (scanPath w.pages w.index.lowValInt fuel p).getLast? = some w'.index.currentPageNum := by
  induction fuel generalizing p w with
  | zero => cases hrun
  | succ fuel ih =>
    rw [scanDescend_eq fuel p w rfl] at hrun
    rw [scanPath]
    by_cases hlevel : (w.pages.pages p).asNonLeaf.level = 1
    · rw [if_pos hlevel] at hrun ⊢
      obtain ⟨-, rfl⟩ := EStateM.Result.ok.inj hrun
      rfl
    · rw [if_neg hlevel] at hrun ⊢
      have hlast := ih hrun
      rw [List.getLast?_cons]
      have hlast' : (scanPath w.pages w.index.lowValInt fuel
          (scanChild (w.pages.pages p).asNonLeaf w.index.lowValInt)).getLast? = some w'.index.currentPageNum := hlast
      rw [hlast']
      rfl

end Traced

/-! ### The paths in a tree -/

section Tree

variable {s : PageStore} {h : Nat} {root : Bool} {t : Branch} {low : Int}

theorem Subtree.treePages_eq (ht : Subtree s h root t) : treePages s h t.page = t.pages := by
  induction h generalizing root t with
  | zero =>
    obtain ⟨n, es, hl⟩ := ht
    rw [hl.pages]
    rfl
  | succ h ih =>
    obtain ⟨n, keys, subs, hn, hsubs⟩ := ht
    have hkid : ∀ i (hi : i < subs.length), treePages s h (n.pageNoArray i) = subs[i].pages := fun i hi => by
      rw [hn.kid_eq hi, ih (hsubs _ (List.getElem_mem hi))]
    rw [treePages, hn.page, asNonLeaf_nonLeaf, hn.entryNum_eq, hn.pages, List.flatMap_def, List.flatMap_def]
    congr 2
    apply List.ext_getElem (by simp)
    intro i h1 h2
    rw [List.getElem_map, List.getElem_map, List.getElem_range]
    exact hkid i (by simpa using h1)

/-- The path of an insertion lies in the tree; by induction on the levels. -/
theorem Subtree.insertPath_mem (ht : Subtree s h root t) (hs : KeySorted RIDKeyPair.key t.entries) (key : Int)
    (fuel : Nat) : ∀ p ∈ insertPath s key fuel t.page (h == 0), p ∈ t.pages := by
  induction h generalizing root t fuel with
  | zero =>
    intro p hp
    cases fuel with
    | zero => exact absurd hp List.not_mem_nil
    | succ fuel =>
      obtain rfl : p = t.page := List.mem_singleton.1 hp
      exact ht.page_mem
  | succ h ih =>
    obtain ⟨n, keys, subs, hn, hsubs⟩ := ht
    obtain ⟨A, u, B, rfl, -, hpage, -⟩ := hn.childPos_split hs key
    have hu : u ∈ A ++ u :: B := by simp
    have hlevel : decide (n.level ≠ 0) = (h == 0) := by
      rw [hn.level]
      cases h <;> rfl
    intro p hp
    cases fuel with
    | zero => exact absurd hp List.not_mem_nil
    | succ fuel =>
      rw [insertPath, hn.page, asNonLeaf_nonLeaf, hpage, hlevel] at hp
      rcases List.mem_cons.1 hp with rfl | hp
      · exact hn.page_mem
      · exact hn.sub_pages hu p (ih (hsubs u hu) (hn.sub_pairwise hs hu) fuel p hp)

/-- A search that does not stray takes the path of an insertion; by induction on the levels. -/
theorem Subtree.paths (ht : Subtree s (h + 1) root t) (hsorted : t.entries.Pairwise fun a b => a.key < b.key)
    (hlow : low ≤ INT_MAX) (hstray : ∀ n, s.pages t.page = .nonLeaf n → ¬n.Stray low) :
    insertPath s low (h + 2) t.page false = t.page :: scanPath s low (h + 1) t.page := by
  induction h generalizing root t with
  | zero =>
    obtain ⟨n, keys, subs, hn, hsubs⟩ := ht
    have hlevel : n.level = 1 := hn.level
    have hchild := hn.scanChild_eq hsorted hlow (hstray n hn.page)
    rw [insertPath, scanPath, hn.page, asNonLeaf_nonLeaf, hchild, if_pos hlevel, hlevel]
    rfl
  | succ h ih =>
    obtain ⟨n, keys, subs, hn, hsubs⟩ := ht
    obtain ⟨A, u, B, rfl, -, hpage, -⟩ := hn.childPos_split (hsorted.imp Int.le_of_lt) low
    have hu : Subtree s (h + 1) false u := hsubs u (by simp)
    have hlevel : n.level = 0 := hn.level
    have hchild := hn.scanChild_eq hsorted hlow (hstray n hn.page)
    have hnot : ∀ m, s.pages u.page = .nonLeaf m → ¬m.Stray low := fun m hm => hu.not_stray hm
    rw [insertPath, scanPath, hn.page, asNonLeaf_nonLeaf, hchild, hpage, hlevel, if_neg (by decide)]
    exact congrArg _ (ih hu (hn.sub_pairwise hsorted (by simp)) hnot)

end Tree

/-! ### The two descents -/

/-- The loop over the levels in `startScan` (see `startScan_eq`) ends, reads only pages of the tree behind the root, and
stops at the leaf to which `insertUnderNode` goes down for an entry with the key `low`: the two read the same pages. -/
def DescentsAgree (w : World PageStore PageId) (low : Int) (lowOp : Operator) (high : Int) (highOp : Operator) : Prop :=
  let m := (w.pages.pages w.index.headerPageNum).asMetaInfo
  ∃ fuel w' path,
    (if decide (m.height = 1) = false then scanDescend traced fuel w.index.rootPageNum else pure ())
        ⟨(w.atRoot low lowOp high highOp).index, (w.pages, [])⟩ = .ok () w' ∧
      (∀ rid, rid.page_number ≠ INVALID_NUMBER →
        ∃ c s, insertUnderNode traced m.height.toNat ⟨rid, low⟩ w.index.rootPageNum (decide (m.height = 1))
          (w.pages, []) = .ok c (s, path)) ∧
      path = w.index.rootPageNum :: w'.pages.2 ∧
      (∀ p ∈ path, p ∈ treePages w.pages (m.height.toNat - 1) w.index.rootPageNum) ∧
      path.getLast? = some w'.index.currentPageNum

section Results

variable {w : World PageStore PageId} {h : Nat} {t : Branch} {low high : Int} {lowOp highOp : Operator}

/-- What `insertUnderNode` reads for a new entry. -/
private theorem Tree.insert_traced (ht : Tree w h t) (rid : RecordId) (hrid : rid.page_number ≠ INVALID_NUMBER) (key : Int) :
    ∃ c s, insertUnderNode traced (h + 1) ⟨rid, key⟩ t.page (h == 0) (w.pages, []) =
      .ok c (s, insertPath w.pages key (h + 1) t.page (h == 0)) := by
  obtain ⟨c, s, hrun, -⟩ := insertUnderNode_spec (ht.ready key hrid)
  refine ⟨c, s, ?_⟩
  rw [insertUnderNode_traced, hrun]
  rfl

private theorem Tree.height_toNat (ht : Tree w h t) :
    (w.pages.pages w.index.headerPageNum).asMetaInfo.height.toNat = h + 1 := by
  obtain ⟨m, hm, hheight, -⟩ := ht.header
  rw [hm, asMetaInfo_metaInfo, hheight]
  omega

private theorem Tree.descents_agree (ht : Tree w h t) (hd : t.entries.Pairwise fun a b => a.key < b.key)
    (hlow : low ≤ INT_MAX) (hstray : ¬StrayRoot w low) : DescentsAgree w low lowOp high highOp := by
  have hmem : ∀ p ∈ insertPath w.pages low (h + 1) t.page (h == 0), p ∈ treePages w.pages h t.page := by
    rw [ht.subtree.treePages_eq]
    exact ht.subtree.insertPath_mem ht.sorted low (h + 1)
  simp only [DescentsAgree, ht.height_toNat, ht.isRootLeaf_eq, ht.rootPageNum, Nat.add_sub_cancel]
  cases h with
  | zero => exact ⟨0, _, [t.page], rfl, fun rid hrid => ht.insert_traced rid hrid low, rfl, hmem,
      congrArg some ht.rootPageNum.symm⟩
  | succ h =>
    rw [StrayRoot, ht.rootPageNum] at hstray
    have hnot : ∀ n, w.pages.pages t.page = .nonLeaf n → ¬n.Stray low := fun n hn hs => by
      rw [hn] at hstray
      exact hstray hs
    obtain ⟨A, q, L, B, -, hrun⟩ := ht.subtree.descend hd hlow hnot
    have hok := (hrun (w.atRoot low lowOp high highOp) rfl rfl (h + 1)).1 (Nat.lt_succ_self h)
    have hpath := ht.subtree.paths hd hlow hnot
    have hlast := scanDescend_last hok
    have htraced := scanDescend_traced (h + 1) t.page (w.atRoot low lowOp high highOp) []
    rw [hok] at htraced
    refine ⟨h + 1, _, insertPath w.pages low (h + 2) t.page false, htraced, fun rid hrid => ht.insert_traced rid hrid low,
      hpath, hmem, ?_⟩
    rw [hpath, List.getLast?_cons]
    have hlast' : (scanPath w.pages low (h + 1) t.page).getLast? = some q := hlast
    rw [hlast']
    rfl

private theorem Tree.not_descents_agree (ht : Tree w h t) (hlow : low ≤ INT_MAX) (hstray : StrayRoot w low) :
    ¬DescentsAgree w low lowOp high highOp := by
  simp only [DescentsAgree, ht.height_toNat, ht.isRootLeaf_eq, ht.rootPageNum, Nat.add_sub_cancel, ht.subtree.treePages_eq]
  rintro ⟨fuel, w', path, hrun, -, rfl, hmem, -⟩
  rw [StrayRoot, ht.rootPageNum] at hstray
  cases h with
  | zero =>
    obtain ⟨n, es, hl⟩ : ∃ n es, IsLeaf w.pages true t n es := ht.subtree
    rw [hl.page] at hstray
    exact hstray
  | succ h =>
    obtain ⟨n, keys, subs, hn, -⟩ := ht.subtree
    rw [hn.page] at hstray
    have hzero := (hn.scanChild_stray hlow hstray).1
    have htraced := scanDescend_traced fuel t.page (w.atRoot low lowOp high highOp) []
    have hloop := hrun.symm.trans htraced
    -- the first page that the loop reads is page number 0
    cases fuel with
    | zero => cases hloop
    | succ fuel =>
      have hfirst : INVALID_NUMBER ∈ scanPath w.pages low (fuel + 1) t.page := by
        rw [scanPath, hn.page, asNonLeaf_nonLeaf, hzero]
        exact List.mem_cons_self ..
      cases hres : scanDescend layer (fuel + 1) t.page (w.atRoot low lowOp high highOp) with
      | error e w₁ =>
        rw [hres] at hloop
        cases hloop
      | ok _ w₁ =>
        rw [hres] at hloop
        obtain ⟨-, rfl⟩ := EStateM.Result.ok.inj hloop
        exact ht.pages_valid _ (hmem _ (List.mem_cons_of_mem _ hfirst)) rfl

end Results

/-- The two descents agree on every index over different keys, if and only if the search does not stray from a new
root. -/
theorem descents_agree_iff (index : BTreeIndex PageId) (relationName : Nat → Nat) (nameLength : Nat)
    (attrByteOffset : Int) (attrType : Datatype) (rel more : List (Int × RecordId))
    (hv : ∀ e ∈ rel ++ more, e.2.page_number ≠ INVALID_NUMBER) (hd : ((rel ++ more).map (·.1)).Nodup) :
    ∃ w, (construct layer relationName nameLength attrByteOffset attrType rel >>= fun _ =>
          insertAll layer more) ⟨index, created⟩ = .ok () w ∧
      ∀ low lowOp high highOp, IsInt low → (DescentsAgree w low lowOp high highOp ↔ ¬StrayRoot w low) := by
  obtain ⟨w, h, t, hrun, ht, he, -⟩ := built index relationName nameLength attrByteOffset attrType rel more hv
  have hlt : t.entries.Pairwise fun a b => a.key < b.key := he ▸ contents_pairwise_lt hd
  refine ⟨w, hrun, fun low lowOp high highOp hint => ⟨fun hagree hstray => ?_, fun hstray => ?_⟩⟩
  · exact ht.not_descents_agree hint.2 hstray hagree
  · exact ht.descents_agree hlt hint.2 hstray

theorem descents_agree_two :
    ∃ w, (construct layer (fun _ => 0) 0 0 .INTEGER [(7, ⟨1, 1, 0⟩)] >>= fun _ =>
          insertAll layer [(5, ⟨1, 2, 0⟩)]) ⟨uninitialized, created⟩ = .ok () w ∧
      ∀ low lowOp high highOp, IsInt low → (DescentsAgree w low lowOp high highOp ↔ ¬StrayRoot w low) :=
  descents_agree_iff uninitialized _ _ _ _ _ _ (by decide) (by decide)

/-- An index with the keys 0 to 681: its root has just been made, and a search for 1000 strays from it. -/
theorem stray_of_ascending {w : World PageStore PageId} {h : Nat} {t : Branch} (ht : Tree w h t)
    (he : t.entries = contents (ascending 682)) (hf : FreshTop w) : StrayRoot w 1000 := by
  have hperm := contents_perm (ascending 682)
  have hlen : t.entries.length = leafOccupancy + 1 := by
    rw [he, hperm.length_eq]
    simp [pairs, ascending]
  obtain ⟨rfl, n, keys, u, v, hn, -, -⟩ := ht.root_of_length hlen
  have hroot : w.pages.pages w.index.rootPageNum = .nonLeaf n := by rw [ht.rootPageNum, hn.page]
  have hcount : n.entryNum = 2 := hn.entryNum_eq
  rw [StrayRoot, hroot]
  refine ⟨hcount, ?_, by rw [hf n hroot hcount]; decide⟩
  obtain ⟨x, hx, hkey⟩ := hn.firstKey_eq (i := 0) (by simp)
  have hmem : x ∈ t.entries := by
    rw [hn.entries_eq]
    exact List.mem_flatten.2 ⟨v.entries, by simp, List.mem_of_mem_head? hx⟩
  rw [he, hperm.mem_iff] at hmem
  obtain ⟨e, hme, rfl⟩ := List.mem_map.1 hmem
  obtain ⟨i, hi, rfl⟩ := List.mem_map.1 hme
  have hlt := List.mem_range.1 hi
  rw [← hkey]
  show (i : Int) < 1000
  omega

theorem ascending_nodup (count : Nat) : ((ascending count).map (·.1)).Nodup := by
  rw [ascending, List.map_map]
  exact List.nodup_range.map fun i j hij => Int.ofNat.inj hij

/-- With the keys 0 to 681 in the index, the search for 1000 goes to page number 0. -/
theorem descents_differ :
    ∃ w, (construct layer (fun _ => 0) 0 0 .INTEGER [] >>= fun _ =>
          insertAll layer (ascending 682)) ⟨uninitialized, created⟩ = .ok () w ∧
      (((ascending 682).map (·.1)).Nodup ∧ ¬DescentsAgree w 1000 .GTE 2000 .LTE) := by
  have hv : ∀ e ∈ [] ++ ascending 682, e.2.page_number ≠ INVALID_NUMBER := by
    rw [List.nil_append]
    exact ascending_valid 682
  obtain ⟨w, h, t, hrun, ht, he, -⟩ := built uninitialized (fun _ => 0) 0 0 .INTEGER [] (ascending 682) hv
  rw [List.nil_append] at he
  refine ⟨w, hrun, ascending_nodup 682, ?_⟩
  exact ht.not_descents_agree (by decide) (stray_of_ascending ht he (built_freshTop hv hrun))

end Cs564.BTree
