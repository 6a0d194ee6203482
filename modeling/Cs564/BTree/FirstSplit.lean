import Cs564.BTree.Capacity

/-!
# The first split

As long as the root of an index is a leaf, insertions put their pairs into its one leaf (`Tree.insertAll_leaf`).  The
insertion after the leaf is full moves the upper half of the pairs to the next page of the file, and makes the page behind
that the root (`Tree.insertEntry_split`).
-/

namespace Cs564.BTree

open PageStore

variable {w : World PageStore PageId} {t : Branch} {rid : RecordId}

section Leaf

variable {fuel : Nat} {e : RIDKeyPair} {p : PageId} {s s' : PageStore} {n : LeafNodeInt} {c : PageKeyPair}

/-- `insertUnderNode` at a leaf with a free slot. -/
private theorem insertUnderNode_room (hp : s.pages p = .leaf n) (hroom : n.entryNum ≠ leafOccupancy)
    (hcall : insertUnderNode layer (fuel + 1) e p true s = .ok c s') : c.pageNo = INVALID_NUMBER ∧
      s'.numPages = s.numPages := by
  have hleaf : (s.pages p).asLeaf = n := by rw [hp, asLeaf_leaf]
  rw [insertUnderNode_leaf fuel e p s hleaf, if_neg hroom] at hcall
  obtain ⟨rfl, rfl⟩ := EStateM.Result.ok.inj hcall
  exact ⟨rfl, rfl⟩

/-- `insertUnderNode` at a full leaf. -/
private theorem insertUnderNode_full (hp : s.pages p = .leaf n) (hfull : n.entryNum = leafOccupancy)
    (hcall : insertUnderNode layer (fuel + 1) e p true s = .ok c s') :
    c.pageNo = s.numPages ∧ s'.numPages = s.numPages + 1 := by
  have hleaf : (s.pages p).asLeaf = n := by rw [hp, asLeaf_leaf]
  rw [insertUnderNode_leaf fuel e p s hleaf, if_pos hfull] at hcall
  obtain ⟨rfl, rfl⟩ := EStateM.Result.ok.inj hcall
  exact ⟨rfl, rfl⟩

/-- The number of entries of an index that is one leaf. -/
private theorem Tree.exists_leaf (ht : Tree w 0 t) :
    ∃ n, w.pages.pages t.page = .leaf n ∧ n.entryNum = t.entries.length := by
  obtain ⟨n, es, hl⟩ : ∃ n es, IsLeaf w.pages true t n es := ht.subtree
  exact ⟨n, hl.page, by rw [hl.holds.entryNum_eq, hl.entries_eq]⟩

end Leaf

/-- An insertion into an index that is one leaf with a free slot. -/
private theorem Tree.insertEntry_leaf (ht : Tree w 0 t) (hroom : t.entries.length < leafOccupancy) (key : Int)
    (hrid : rid.page_number ≠ INVALID_NUMBER) :
    ∃ s t', BTree.insertEntry layer key rid w = .ok () { w with pages := s } ∧ Tree { w with pages := s } 0 t' ∧
      t'.page = t.page ∧ s.numPages = w.pages.numPages ∧ t'.entries = insertEntryList t.entries ⟨rid, key⟩ := by
  obtain ⟨r, s', h', t', hrun, ht', hentries⟩ := ht.insertEntry key hrid
  obtain ⟨m, c, s, -, hcall, -, -, hentry⟩ := ht.insertEntry_run key hrid
  obtain ⟨n, hn, hcount⟩ := ht.exists_leaf
  obtain ⟨hc, hnum⟩ := insertUnderNode_room hn (hcount ▸ Nat.ne_of_lt hroom) hcall
  rw [if_pos hc] at hentry
  obtain ⟨-, hworld⟩ := EStateM.Result.ok.inj (hrun.symm.trans hentry)
  rw [hworld] at ht'
  have hheight := ht'.height_le
  have hlength : (insertEntryList t.entries ⟨rid, key⟩).length = t.entries.length + 1 := length_insertBehind ..
  rw [hentries, hlength] at hheight
  simp only [leafOccupancy_eq] at hroom
  obtain rfl : h' = 0 := by omega
  exact ⟨s, t', hentry, ht', ht'.rootPageNum.symm.trans ht.rootPageNum, hnum, hentries⟩

/-- Insertions into an index that is one leaf, as long as there are free slots; by induction on them. -/
theorem Tree.insertAll_leaf (ht : Tree w 0 t) {entries : List (Int × RecordId)} (more : List (Int × RecordId))
    (he : t.entries = contents entries) (hroom : entries.length + more.length ≤ leafOccupancy)
    (hv : ∀ e ∈ more, e.2.page_number ≠ INVALID_NUMBER) :
    ∃ s t', BTree.insertAll layer more w = .ok () { w with pages := s } ∧ Tree { w with pages := s } 0 t' ∧
      t'.page = t.page ∧ s.numPages = w.pages.numPages ∧ t'.entries = contents (entries ++ more) := by
  induction more generalizing w t entries with
  | nil => exact ⟨w.pages, t, rfl, ht, rfl, rfl, by rw [he, List.append_nil]⟩
  | cons e more ih =>
    rw [List.length_cons] at hroom
    have hlength : t.entries.length = entries.length := by
      rw [he, (contents_perm entries).length_eq, pairs, List.length_map]
    obtain ⟨s, t₁, hrun, ht₁, hpage, hnum, he₁⟩ := ht.insertEntry_leaf (by omega) e.1 (hv e List.mem_cons_self)
    rw [he, ← contents_concat] at he₁
    obtain ⟨s', t', hrest, ht', hpage', hnum', he'⟩ :=
      ih ht₁ he₁ (by rw [List.length_append, List.length_singleton]; omega) fun x hx => hv x (List.mem_cons_of_mem _ hx)
    refine ⟨s', t', ?_, ht', hpage'.trans hpage, hnum'.trans hnum, ?_⟩
    · rw [BTree.insertAll, run_bind_ok hrun]
      exact hrest
    · rw [he', List.append_assoc]
      rfl

/-- The insertion into an index that is one full leaf. -/
theorem Tree.insertEntry_split (ht : Tree w 0 t) (hfull : t.entries.length = leafOccupancy) (key : Int)
    (hrid : rid.page_number ≠ INVALID_NUMBER) :
    ∃ w' t' n k u v, BTree.insertEntry layer key rid w = .ok () w' ∧ w'.index = { w.index with rootPageNum := t'.page } ∧
      Tree w' 1 t' ∧ IsNode w'.pages true true t' n [k] [u, v] ∧ Subtree w'.pages 0 false u ∧ Subtree w'.pages 0 false v ∧
      u.page = t.page ∧ v.page = w.pages.numPages ∧ t'.page = w.pages.numPages + 1 ∧
      t'.entries = insertEntryList t.entries ⟨rid, key⟩ := by
  obtain ⟨r, s', h', t', hrun, ht', hentries⟩ := ht.insertEntry key hrid
  obtain ⟨m, c, s, -, hcall, -, hne, hentry⟩ := ht.insertEntry_run key hrid
  obtain ⟨n, hn, hcount⟩ := ht.exists_leaf
  obtain ⟨hc, hnum⟩ := insertUnderNode_full hn (hcount.trans hfull) hcall
  have hpos : c.pageNo ≠ INVALID_NUMBER := by
    rw [hc]
    exact Nat.ne_of_gt (Nat.lt_of_le_of_lt (Nat.zero_le _) ht.header_lt)
  rw [if_neg hpos] at hentry
  obtain ⟨-, hworld⟩ := EStateM.Result.ok.inj (hrun.symm.trans hentry)
  rw [hworld] at ht'
  have hlength : t'.entries.length = leafOccupancy + 1 := by
    rw [hentries, ← hfull]
    exact length_insertBehind ..
  obtain ⟨rfl, n', keys, u, v, hnode, hu, hv⟩ := ht'.root_of_length hlength
  have hroot : t'.page = s.numPages := ht'.rootPageNum.symm
  -- the new root is the node that `insertEntry` made
  have hmade : n' = Page.fresh.asNonLeaf.asNewRoot t.page c (0 == 0) := by
    have hpage := hnode.page
    simp only [write_pages] at hpage
    rw [hroot, Function.update_of_ne hne.symm, Function.update_self] at hpage
    exact (Page.nonLeaf.inj hpage).symm
  obtain ⟨k, rfl⟩ : ∃ k, keys = [k] := List.length_eq_one_iff.mp (Nat.succ.inj hnode.holds.len).symm
  have hleft : u.page = t.page := by
    have hkid : n'.pageNoArray 0 = u.page := hnode.holds.kid_eq (i := 0) (Nat.zero_lt_succ _)
    rw [hmade] at hkid
    exact hkid.symm
  have hright : v.page = w.pages.numPages := by
    have hkid : n'.pageNoArray 1 = v.page := hnode.holds.kid_eq (i := 1) (Nat.lt_succ_self _)
    rw [hmade] at hkid
    exact hkid.symm.trans hc
  refine ⟨_, t', n', k, u, v, hentry, ?_, ht', hnode, hu, hv, hleft, hright, hroot.trans hnum, hentries⟩
  rw [hroot]

/-- An index whose leaf has been split once: page 4 is the root over the leaves 2 and 3. -/
structure SplitOnce (w : World PageStore PageId) (t : Branch) (n : NonLeafNodeInt) (k : Int) (u v : Branch) : Prop where
  tree : Tree w 1 t
  node : IsNode w.pages true true t n [k] [u, v]
  left : Subtree w.pages 0 false u
  right : Subtree w.pages 0 false v
  leftPage : u.page = 2
  rightPage : v.page = 3
  rootPage : t.page = 4

section SplitOnce

variable {n : NonLeafNodeInt} {k : Int} {u v : Branch}

/-- The pages of the index: the leaves have one half of the pairs each. -/
theorem SplitOnce.pages (h : SplitOnce w t n k u v) (hlen : t.entries.length = leafOccupancy + 1) :
    w.pages.pages 4 = .nonLeaf n ∧ n.level = 1 ∧ n.pageNoArray 0 = 2 ∧
      (∃ x, t.entries[341]? = some x ∧ x.key = n.keyArray 0) ∧
      (∃ l, w.pages.pages 2 = .leaf l ∧ LeafHolds l (t.entries.take 341)) ∧
      ∃ l, w.pages.pages 3 = .leaf l ∧ LeafHolds l (t.entries.drop 341) := by
  have hu := h.left.length_ge
  have hv := h.right.length_ge
  have hentries : t.entries = u.entries ++ v.entries := by
    rw [h.node.entries_eq, List.map_cons, List.map_singleton, List.flatten_cons, List.flatten_singleton]
  rw [hentries, List.length_append, leafOccupancy_eq] at hlen
  have hleft : u.entries.length = 341 := by omega
  obtain ⟨l, es, hl⟩ : ∃ l es, IsLeaf w.pages false u l es := h.left
  obtain ⟨r, fs, hr⟩ : ∃ r fs, IsLeaf w.pages false v r fs := h.right
  have hpage := h.node.page
  rw [h.rootPage] at hpage
  have hkid : n.pageNoArray 0 = u.page := h.node.holds.kid_eq (i := 0) (Nat.zero_lt_succ _)
  obtain ⟨x, hx, hkey⟩ := h.node.firstKey_eq (i := 0) (Nat.lt_succ_self _)
  refine ⟨hpage, h.node.level, hkid.trans h.leftPage, ⟨x, ?_, hkey⟩, ⟨l, ?_, ?_⟩, r, ?_, ?_⟩
  · rw [hentries, List.getElem?_append_right (Nat.le_of_eq hleft), hleft, ← List.head?_eq_getElem?]
    exact hx
  · rw [← h.leftPage]
    exact hl.page
  · rw [hentries, ← hleft, List.take_left, hl.entries_eq]
    exact hl.holds
  · rw [← h.rightPage]
    exact hr.page
  · rw [hentries, ← hleft, List.drop_left, hr.entries_eq]
    exact hr.holds

/-- The same pages under the data members of another object. -/
theorem SplitOnce.of_pages (h : SplitOnce w t n k u v) {w' : World PageStore PageId} (hpages : w'.pages = w.pages)
    (hheader : w'.index.headerPageNum = w.index.headerPageNum) (hroot : w'.index.rootPageNum = w.index.rootPageNum) :
    SplitOnce w' t n k u v := by
  obtain ⟨index, s⟩ := w'
  dsimp only at hpages hheader hroot
  subst hpages
  exact { h with tree := h.tree.of_index rfl hheader hroot }

end SplitOnce

/-- The constructor, for a relation with one pair more than a leaf holds. -/
theorem construct_split (index : BTreeIndex PageId) (relationName : Nat → Nat) (nameLength : Nat) (attrByteOffset : Int)
    (attrType : Datatype) {rel : List (Int × RecordId)} (hlen : rel.length = leafOccupancy + 1)
    (hv : ∀ e ∈ rel, e.2.page_number ≠ INVALID_NUMBER) :
    ∃ w t n k u v, construct layer relationName nameLength attrByteOffset attrType rel ⟨index, created⟩ = .ok () w ∧
      SplitOnce w t n k u v ∧ t.entries = contents rel := by
  obtain ⟨init, last, rfl⟩ : ∃ init last, rel = init ++ [last] :=
    (List.eq_nil_or_concat' rel).resolve_left (List.ne_nil_of_length_eq_add_one hlen)
  have hinit : init.length = leafOccupancy := by
    rw [List.length_append, List.length_singleton] at hlen
    exact Nat.succ.inj hlen
  have hnew := tree_new index attrByteOffset attrType (newMeta relationName nameLength attrByteOffset attrType)
  obtain ⟨s, t₁, hrun, ht₁, hpage, hnum, he₁⟩ := hnew.insertAll_leaf init (show _ = contents [] from rfl)
    (by rw [List.length_nil, Nat.zero_add, hinit]) fun e he => hv e (List.mem_append_left _ he)
  rw [List.nil_append] at he₁
  have hfull : t₁.entries.length = leafOccupancy := by
    rw [he₁, (contents_perm init).length_eq, pairs, List.length_map, hinit]
  obtain ⟨w, t, n, k, u, v, hlast, -, ht, hn, hu, hv', hleft, hright, hroot, he⟩ :=
    ht₁.insertEntry_split hfull last.1 (hv last (List.mem_append_right _ List.mem_cons_self))
  refine ⟨w, t, n, k, u, v, ?_, ⟨ht, hn, hu, hv', hleft.trans hpage, hright.trans hnum, ?_⟩, ?_⟩
  · rw [construct_eq]
    exact insertAll_concat hrun hlast
  · rw [hroot]
    exact congrArg Nat.succ hnum
  · rw [he, he₁, ← contents_concat]

end Cs564.BTree
