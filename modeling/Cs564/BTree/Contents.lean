import Cs564.BTree.Insert
import Mathlib.Data.List.Induction
import Mathlib.Data.List.Nodup

/-!
# What an index contains

`contents entries` is the sorted list that insertions of `entries` build, each new pair behind the pairs whose key is
not larger.  `Tree.insertEntry` says that one insertion refines this: the tree before it is followed by a tree over the
longer list.  `built` puts the insertions together, from the empty index that the constructor makes.
-/

namespace Cs564.BTree

open PageStore

/-- The pairs in the order the index keeps them. -/
def contents (entries : List (Int × RecordId)) : List RIDKeyPair :=
  entries.foldl (fun es e => insertEntryList es ⟨e.2, e.1⟩) []

/-- The pairs as they were inserted. -/
def pairs (entries : List (Int × RecordId)) : List RIDKeyPair := entries.map fun e => ⟨e.2, e.1⟩

theorem contents_concat (entries : List (Int × RecordId)) (key : Int) (rid : RecordId) :
    contents (entries ++ [(key, rid)]) = insertEntryList (contents entries) ⟨rid, key⟩ := by
  simp [contents]

theorem contents_perm (entries : List (Int × RecordId)) : (contents entries).Perm (pairs entries) := by
  induction entries using List.reverseRecOn with
  | nil => exact List.Perm.refl _
  | append_singleton entries e ih =>
    have hins := insertBehind_perm RIDKeyPair.key (contents entries) ⟨e.2, e.1⟩
    rw [contents_concat, pairs, List.map_append]
    refine (hins.trans (ih.cons _)).trans ?_
    exact (List.perm_append_singleton ..).symm

theorem contents_sorted (entries : List (Int × RecordId)) : KeySorted RIDKeyPair.key (contents entries) := by
  induction entries using List.reverseRecOn with
  | nil => exact List.Pairwise.nil
  | append_singleton entries e ih =>
    rw [contents_concat]
    exact ih.insertBehind _

/-! ### One insertion -/

section Insertion

variable {w : World PageStore PageId} {h : Nat} {t : Branch} {rid : RecordId}

theorem Tree.ready (ht : Tree w h t) (key : Int) (hrid : rid.page_number ≠ INVALID_NUMBER) :
    Ready w.pages h true t ⟨rid, key⟩ where
  subtree := ht.subtree
  nodup := ht.nodup
  lt := ht.pages_lt
  sorted := ht.sorted
  valid := hrid

/-- The pages under the new subtrees do not meet the header page. -/
private theorem Tree.header_notMem_of_grows (ht : Tree w h t) {s : PageStore} {e : RIDKeyPair} {ts : List Branch}
    (hg : Grows w.pages s t e ts) : w.index.headerPageNum ∉ ts.flatMap (·.pages) := by
  intro hp
  have hlt := ht.header_lt
  rcases hg.pages _ hp with hp | hp
  · exact ht.header_notMem hp
  · exact absurd (Nat.lt_of_lt_of_le hlt hp.1) (Nat.lt_irrefl _)

private theorem Tree.valid_of_grows (ht : Tree w h t) {s : PageStore} {e : RIDKeyPair} {ts : List Branch}
    (hg : Grows w.pages s t e ts) : ∀ p ∈ ts.flatMap (·.pages), p < s.numPages ∧ p ≠ INVALID_NUMBER := by
  intro p hp
  have hmono := hg.mono
  have hlt := ht.pages_lt _ ht.subtree.page_mem
  rcases hg.pages _ hp with hp | hp
  · have := ht.pages_lt _ hp
    exact ⟨by omega, ht.pages_valid _ hp⟩
  · refine ⟨hp.2, ?_⟩
    show p ≠ 0
    omega

private theorem Tree.zero_of_grows (ht : Tree w h t) {s : PageStore} {e : RIDKeyPair} {ts : List Branch}
    (hg : Grows w.pages s t e ts) : s.pages INVALID_NUMBER = w.pages.pages INVALID_NUMBER := by
  refine hg.frame _ ?_ fun hp => ht.pages_valid _ hp rfl
  exact Nat.lt_of_le_of_lt (Nat.zero_le _) ht.header_lt

/-- The root was not split. -/
private theorem Tree.insert_same (ht : Tree w h t) {s : PageStore} {e : RIDKeyPair} {t' : Branch}
    (hpage : t'.page = t.page) (ht' : Subtree s h true t') (hg : Grows w.pages s t e [t']) :
    Tree { w with pages := s } h t' := by
  have hheader := ht.header_notMem_of_grows hg
  have hvalid := ht.valid_of_grows hg
  have hnodup := hg.nodup
  have hentries := hg.entries
  simp only [List.flatMap_cons, List.flatMap_nil, List.append_nil] at hheader hvalid hnodup hentries
  obtain ⟨m, hm, hheight, hroot⟩ := ht.header
  obtain ⟨a, hc⟩ := ht.chain
  refine ⟨ht', ht.rootPageNum.trans hpage.symm, ⟨m, ?_, hheight, hroot.trans hpage.symm⟩, hheader, ?_,
    ht.header_valid, ?_, fun p hp => (hvalid p hp).1, fun p hp => (hvalid p hp).2, hnodup, ?_, a, ?_⟩
  · exact (hg.frame _ ht.header_lt ht.header_notMem).trans hm
  · exact Nat.lt_of_lt_of_le ht.header_lt hg.mono
  · exact (ht.zero_of_grows hg).trans ht.unallocated
  · rw [hentries]
    exact ht.sorted.insertBehind e
  · have := hg.chain _ _ hc
    simpa using this

/-- The root was split, and the page `s.numPages` becomes the new root. -/
private theorem Tree.insert_split (ht : Tree w h t) {s s' : PageStore} {e : RIDKeyPair} {t₁ t₂ : Branch}
    {c : PageKeyPair} (hp₁ : t₁.page = t.page) (hp₂ : t₂.page = c.pageNo) (hkey : t₂.firstKey = some c.key)
    (ht₁ : Subtree s h false t₁) (ht₂ : Subtree s h false t₂) (hg : Grows w.pages s t e [t₁, t₂])
    (hc : c.pageNo ≠ INVALID_NUMBER) {m : IndexMetaInfo} (hm : m.height = h + 1) (hnum : s'.numPages = s.numPages + 1)
    (hframe : ∀ p, p ≠ s.numPages → p ≠ w.index.headerPageNum → s'.pages p = s.pages p)
    (hroot : s'.pages s.numPages = .nonLeaf (Page.fresh.asNonLeaf.asNewRoot t.page c (h == 0)))
    (hhead : s'.pages w.index.headerPageNum =
      .metaInfo { m with height := m.height + 1, rootPageNo := s.numPages }) :
    Tree { index := { w.index with rootPageNum := s.numPages }, pages := s' } (h + 1)
      (Branch.node s.numPages [t₁, t₂]) := by
  have hheader := ht.header_notMem_of_grows hg
  have hvalid := ht.valid_of_grows hg
  have hnodup := hg.nodup
  have hmono := hg.mono
  have hlt := ht.header_lt
  have hne : w.index.headerPageNum ≠ s.numPages := Nat.ne_of_lt (Nat.lt_of_lt_of_le hlt hmono)
  have hpos : 0 < s.numPages := Nat.lt_of_le_of_lt (Nat.zero_le _) (Nat.lt_of_lt_of_le hlt hmono)
  have hsame : ∀ p ∈ [t₁, t₂].flatMap (·.pages), s'.pages p = s.pages p := fun p hp =>
    hframe p (Nat.ne_of_lt (hvalid p hp).1) fun heq => hheader (heq ▸ hp)
  have hsubs : ∀ v ∈ [t₁, t₂], Subtree s h false v := by simp [ht₁, ht₂]
  have hnew := nodeHolds_asNewRoot (h == 0) (ht.pages_valid _ ht.subtree.page_mem) hc
  have hkids : [t₁, t₂].map (·.page) = [t.page, c.pageNo] := by simp [hp₁, hp₂]
  have hpages : (Branch.node s.numPages [t₁, t₂]).pages = s.numPages :: [t₁, t₂].flatMap (·.pages) := rfl
  obtain ⟨a, hch⟩ := ht.chain
  refine ⟨⟨_, [c.key], [t₁, t₂], ⟨hroot, ?_, ?_, ?_, ?_, ?_, ?_, rfl, rfl⟩, fun v hv => ?_⟩, rfl,
    ⟨_, hhead, ?_, rfl⟩, ?_, ?_, ht.header_valid, ?_, fun p hp => ?_, fun p hp => ?_, ?_, ?_, a, ?_⟩
  · rfl
  · rw [hkids]
    exact hnew.1
  · simp [hkey]
  · simp
  · simp
  · rw [hkids]
    exact Or.inr ⟨rfl, hnew.2⟩
  · refine (hsubs v hv).frame fun p hp => hsame p ?_
    exact List.mem_flatMap.2 ⟨v, hv, hp⟩
  · simp [hm]
  · rw [hpages, List.mem_cons, not_or]
    exact ⟨hne, hheader⟩
  · show w.index.headerPageNum < s'.numPages
    rw [hnum]
    exact Nat.lt_succ_of_lt (Nat.lt_of_lt_of_le hlt hmono)
  · refine ((hframe _ (Nat.ne_of_lt hpos) ?_).trans (ht.zero_of_grows hg)).trans ht.unallocated
    exact Ne.symm ht.header_valid
  · show p < s'.numPages
    rw [hpages, List.mem_cons] at hp
    rcases hp with rfl | hp
    · omega
    · have := (hvalid p hp).1
      omega
  · rw [hpages, List.mem_cons] at hp
    rcases hp with rfl | hp
    · exact Nat.ne_of_gt hpos
    · exact (hvalid p hp).2
  · rw [hpages, List.nodup_cons]
    exact ⟨fun hp => absurd (hvalid _ hp).1 (Nat.lt_irrefl _), hnodup⟩
  · rw [Branch.node_entries, hg.entries]
    exact ht.sorted.insertBehind e
  · rw [Branch.node_leafPages]
    refine (hg.chain _ _ hch).congr fun p hp => ?_
    obtain ⟨v, hv, hpv⟩ := List.mem_flatMap.1 hp
    have hpp := (hsubs v hv).leafPages_subset p hpv
    rw [next, next, hsame p (List.mem_flatMap.2 ⟨v, hv, hpp⟩)]

/-- What `insertUnderNode` does for the root, and what `insertEntry` makes of it. -/
theorem Tree.insertEntry_run (ht : Tree w h t) (key : Int) (hrid : rid.page_number ≠ INVALID_NUMBER) :
    ∃ (m : IndexMetaInfo) (c : PageKeyPair) (s : PageStore), m.height = h + 1 ∧
      insertUnderNode layer (h + 1) ⟨rid, key⟩ t.page (h == 0) w.pages = .ok c s ∧
      Inserted w.pages s h true t ⟨rid, key⟩ c ∧ w.index.headerPageNum ≠ s.numPages ∧
      BTree.insertEntry layer key rid w =
        if c.pageNo = INVALID_NUMBER then .ok () { w with pages := s }
        else
          .ok ()
            { index := { w.index with rootPageNum := s.numPages }
              pages :=
                (s.alloc.write s.numPages (.nonLeaf (Page.fresh.asNonLeaf.asNewRoot t.page c (h == 0)))).write
                  w.index.headerPageNum (.metaInfo { m with height := m.height + 1, rootPageNo := s.numPages }) } := by
  obtain ⟨m, hm, hheight, hroot⟩ := ht.header
  obtain ⟨c, s, hcall, hins⟩ := insertUnderNode_spec (ht.ready key hrid)
  have hfuel : m.height.toNat = h + 1 := by rw [hheight]; omega
  have hmeta : (w.pages.pages w.index.headerPageNum).asMetaInfo = m := by rw [hm, asMetaInfo_metaInfo]
  have hleaf : decide (m.height = 1) = (h == 0) := hmeta ▸ ht.isRootLeaf_eq
  obtain ⟨ts, hg⟩ := hins.grows
  have hmeta' : (s.pages w.index.headerPageNum).asMetaInfo = m := by
    rw [hg.frame _ ht.header_lt ht.header_notMem, hmeta]
  have hne : w.index.headerPageNum ≠ s.numPages := Nat.ne_of_lt (Nat.lt_of_lt_of_le ht.header_lt hg.mono)
  refine ⟨m, c, s, hheight, hcall, hins, hne, ?_⟩
  rw [← hfuel, ← hleaf, ← ht.rootPageNum] at hcall
  rw [insertEntry_eq w key rid hmeta hcall hmeta' hne, hleaf, ht.rootPageNum]

/-- An insertion keeps the tree and adds the new pair to its entries. -/
theorem Tree.insertEntry (ht : Tree w h t) (key : Int) (hrid : rid.page_number ≠ INVALID_NUMBER) :
    ∃ r s h' t', insertEntry layer key rid w = .ok () { index := { w.index with rootPageNum := r }, pages := s } ∧
      Tree { index := { w.index with rootPageNum := r }, pages := s } h' t' ∧
      t'.entries = insertEntryList t.entries ⟨rid, key⟩ := by
  obtain ⟨m, c, s, hheight, -, hins, hne, hrun⟩ := ht.insertEntry_run key hrid
  rw [hrun]
  rcases hins with ⟨hc, t', hpage, ht', hg⟩ | ⟨hc, t₁, t₂, hp₁, hp₂, hkey, ht₁, ht₂, hg⟩
  · rw [if_pos hc]
    refine ⟨w.index.rootPageNum, s, h, t', rfl, ht.insert_same hpage ht' hg, ?_⟩
    simpa using hg.entries
  · rw [if_neg hc]
    refine ⟨_, _, h + 1, Branch.node s.numPages [t₁, t₂], rfl, ?_, ?_⟩
    · refine ht.insert_split hp₁ hp₂ hkey ht₁ ht₂ hg hc hheight rfl (fun p hps hph => ?_) ?_
        (Function.update_self ..)
      · simp only [write_pages, alloc_pages]
        rw [Function.update_of_ne hph, Function.update_of_ne hps, Function.update_of_ne hps]
      · simp only [write_pages]
        rw [Function.update_of_ne hne.symm, Function.update_self]
    · rw [Branch.node_entries, hg.entries]

end Insertion

/-! ### Runs -/

section Run

variable {w : World PageStore PageId} {h : Nat} {t : Branch}

/-- A sequence of insertions, by induction on the sequence. -/
theorem Tree.insertAll (ht : Tree w h t) {entries : List (Int × RecordId)} (more : List (Int × RecordId))
    (he : t.entries = contents entries) (hv : ∀ e ∈ more, e.2.page_number ≠ INVALID_NUMBER) :
    ∃ r s h' t', BTree.insertAll layer more w = .ok () { index := { w.index with rootPageNum := r }, pages := s } ∧
      Tree { index := { w.index with rootPageNum := r }, pages := s } h' t' ∧
      t'.entries = contents (entries ++ more) := by
  induction more generalizing w h t entries with
  | nil => exact ⟨w.index.rootPageNum, w.pages, h, t, rfl, ht, by rw [he, List.append_nil]⟩
  | cons e more ih =>
    obtain ⟨r, s, h₁, t₁, hrun, ht₁, he₁⟩ := ht.insertEntry e.1 (hv e (by simp))
    rw [he, ← contents_concat] at he₁
    obtain ⟨r', s', h', t', hrun', ht', he'⟩ := ih ht₁ he₁ fun x hx => hv x (by simp [hx])
    refine ⟨r', s', h', t', ?_, ht', ?_⟩
    · simp only [BTree.insertAll, run_bind, hrun, hrun']
    · rw [he', List.append_assoc]
      rfl

/-- The data members of the index right after it was created, over the index data `index`. -/
def newIndex (index : BTreeIndex PageId) (attrByteOffset : Int) (attrType : Datatype) : BTreeIndex PageId :=
  { index with
    attributeType := attrType
    attrByteOffset := attrByteOffset
    scanExecuting := false
    headerPageNum := 1
    rootPageNum := 2 }

/-- The pages of the index right after it was created. -/
def newPages (metaInfo : IndexMetaInfo) : PageStore :=
  ((created.alloc.write 1 (.metaInfo metaInfo)).alloc.write 1
    (.metaInfo { metaInfo with rootPageNo := 2, height := 1 })).write 2
    (.leaf ({ Page.fresh.asLeaf with rightSibPageNo := INVALID_NUMBER }.setBound 0))

/-- The header page as the constructor fills it, its last two fields apart. -/
def newMeta (relationName : Nat → Nat) (nameLength : Nat) (attrByteOffset : Int) (attrType : Datatype) :
    IndexMetaInfo :=
  { Page.fresh.asMetaInfo with
    relationName := fun i => if i < min nameLength 20 then relationName i else Page.fresh.asMetaInfo.relationName i
    attrByteOffset := attrByteOffset
    attrType := attrType }

private theorem construct_tail (x : EStateM Exc (World PageStore PageId) Unit) (p q : PageId) :
    (do x; constructEnd layer p q) = x := by
  funext w
  rw [run_bind]
  cases x w <;> rfl

/-- The constructor inserts the pairs of the relation into an index that was just created. -/
theorem construct_eq (index : BTreeIndex PageId) (relationName : Nat → Nat) (nameLength : Nat) (attrByteOffset : Int)
    (attrType : Datatype) (rel : List (Int × RecordId)) :
    construct layer relationName nameLength attrByteOffset attrType rel ⟨index, created⟩ =
      BTree.insertAll layer rel
        { index := newIndex index attrByteOffset attrType
          pages := newPages (newMeta relationName nameLength attrByteOffset attrType) } := by
  simp only [construct, constructPages, construct_tail, run_bind, onPages, layer_allocPage, deref_layer, assign_layer,
    run_setIndex]
  rfl

/-- An index that was just created is an empty tree. -/
theorem tree_new (index : BTreeIndex PageId) (attrByteOffset : Int) (attrType : Datatype) (m : IndexMetaInfo) :
    Tree { index := newIndex index attrByteOffset attrType, pages := newPages m } 0 (Branch.leaf 2 []) := by
  have hleaf : (newPages m).pages 2 =
      .leaf ({ Page.fresh.asLeaf with rightSibPageNo := INVALID_NUMBER }.setBound 0) := rfl
  have hholds : LeafHolds ({ Page.fresh.asLeaf with rightSibPageNo := INVALID_NUMBER }.setBound 0) [] :=
    leafHolds_setBound (Holds.nil _) (Holds.nil _) (by simp) rfl (by simp)
  refine ⟨⟨_, [], hleaf, hholds, by simp, rfl, rfl⟩, rfl, ⟨_, rfl, rfl, rfl⟩, ?_, ?_, ?_, rfl, ?_, ?_, ?_, ?_,
    2, ?_⟩
  · simp [newIndex, Branch.leaf]
  · simp [newIndex, newPages, created]
  · simp [newIndex]
  · simp [newPages, created, Branch.leaf]
  · simp [Branch.leaf]
  · simp [Branch.leaf]
  · exact List.Pairwise.nil
  · simp [Branch.leaf, Branch.leafPages, next, hleaf, LeafNodeInt.setBound]

/-- What an index over a relation is after further insertions: a tree over the pairs of both. -/
theorem built (index : BTreeIndex PageId) (relationName : Nat → Nat) (nameLength : Nat) (attrByteOffset : Int)
    (attrType : Datatype) (rel more : List (Int × RecordId))
    (hv : ∀ e ∈ rel ++ more, e.2.page_number ≠ INVALID_NUMBER) :
    ∃ w h t, (construct layer relationName nameLength attrByteOffset attrType rel >>= fun _ =>
          BTree.insertAll layer more) ⟨index, created⟩ = .ok () w ∧
      Tree w h t ∧ t.entries = contents (rel ++ more) ∧ w.index.scanExecuting = false := by
  have hnew := tree_new index attrByteOffset attrType (newMeta relationName nameLength attrByteOffset attrType)
  obtain ⟨r, s, h₁, t₁, hrun, ht₁, he₁⟩ := hnew.insertAll rel (show _ = contents [] from rfl) fun e he => hv e (by simp [he])
  obtain ⟨r', s', h₂, t₂, hrun', ht₂, he₂⟩ := ht₁.insertAll more he₁ fun e he => hv e (by simp [he])
  refine ⟨_, h₂, t₂, ?_, ht₂, he₂, rfl⟩
  rw [run_bind, construct_eq, hrun]
  exact hrun'

end Run

/-! ### The walk over the leaves -/

/-- The leftmost page `levels` levels below `p`. -/
def leftmostLeaf (s : PageStore) : Nat → PageId → PageId
  | 0, p => p
  | levels + 1, p => leftmostLeaf s levels ((s.pages p).asNonLeaf.pageNoArray 0)

/-- The entries of a leaf in front of the first one with `page_number = 0`. -/
def LeafNodeInt.entries (n : LeafNodeInt) : List RIDKeyPair :=
  (List.range n.entryNum).map fun i => ⟨n.ridArray i, n.keyArray i⟩

/-- The entries of each leaf, from the leftmost one along `rightSibPageNo`; `none` if the links go in a circle. -/
def leafBlocks (w : World PageStore PageId) : Option (List (List RIDKeyPair)) :=
  let metaInfo := (w.pages.pages w.index.headerPageNum).asMetaInfo
  let start := leftmostLeaf w.pages (metaInfo.height.toNat - 1) metaInfo.rootPageNo
  (walk w.pages.next INVALID_NUMBER w.pages.numPages start).map fun leaves =>
    leaves.map fun p => (w.pages.pages p).asLeaf.entries

/-- The entries that a walk over the leaves meets. -/
def leafWalk (w : World PageStore PageId) : Option (List RIDKeyPair) := (leafBlocks w).map List.flatten

theorem LeafHolds.entries_eq {n : LeafNodeInt} {es : List RIDKeyPair} (h : LeafHolds n es) : n.entries = es := by
  rw [LeafNodeInt.entries, h.entryNum_eq]
  apply List.ext_getElem (by simp)
  intro i h1 h2
  rw [List.getElem_map, List.getElem_range, h.key_eq h2, h.rid_eq h2]

section Walk

variable {s : PageStore} {h : Nat} {root : Bool} {t : Branch}

theorem Subtree.leftmost_eq (ht : Subtree s h root t) : t.leafPages.head? = some (leftmostLeaf s h t.page) := by
  induction h generalizing root t with
  | zero =>
    obtain ⟨n, es, hl⟩ := ht
    rw [hl.leafPages_eq]
    rfl
  | succ h ih =>
    obtain ⟨n, keys, subs, hn, hsubs⟩ := ht
    have htwo := hn.two
    obtain ⟨u, us, rfl⟩ : ∃ u us, subs = u :: us := by
      cases subs with
      | nil => simp at htwo
      | cons u us => exact ⟨u, us, rfl⟩
    have hfirst : n.pageNoArray 0 = u.page := hn.holds.kid_eq (by simp)
    have hu := ih (hsubs u (by simp))
    rw [hn.leafPages_eq, List.flatMap_cons, leftmostLeaf, hn.page, asNonLeaf_nonLeaf, hfirst, List.head?_append, hu]
    rfl

theorem Subtree.leaf_entries (ht : Subtree s h root t) : ∀ l ∈ t.leaves, (s.pages l.1).asLeaf.entries = l.2 := by
  induction h generalizing root t with
  | zero =>
    obtain ⟨n, es, hl⟩ := ht
    intro l hmem
    obtain rfl : l = (t.page, es) := by simpa [hl.leaves] using hmem
    rw [hl.page, asLeaf_leaf, hl.holds.entries_eq]
  | succ h ih =>
    obtain ⟨n, keys, subs, hn, hsubs⟩ := ht
    intro l hmem
    rw [hn.leaves] at hmem
    obtain ⟨u, hu, hmem⟩ := List.mem_flatMap.1 hmem
    exact ih (hsubs u hu) l hmem

theorem Subtree.leafPages_nodup (ht : Subtree s h root t) (hnd : t.pages.Nodup) : t.leafPages.Nodup := by
  induction h generalizing root t with
  | zero =>
    obtain ⟨n, es, hl⟩ := ht
    rw [hl.leafPages_eq]
    exact List.nodup_singleton _
  | succ h ih =>
    obtain ⟨n, keys, subs, hn, hsubs⟩ := ht
    have hall := List.nodup_flatMap.1 (hn.pages_nodup hnd).2
    rw [hn.leafPages_eq, List.nodup_flatMap]
    refine ⟨fun u hu => ih (hsubs u hu) (hall.1 u hu), ?_⟩
    refine hall.2.imp_of_mem fun {u v} hu hv hdisj p hp hq => ?_
    exact hdisj ((hsubs u hu).leafPages_subset p hp) ((hsubs v hv).leafPages_subset p hq)

end Walk

/-- The walk meets the pages of the leaves of the tree. -/
theorem Tree.walk_eq {w : World PageStore PageId} {h : Nat} {t : Branch} (ht : Tree w h t) :
    let metaInfo := (w.pages.pages w.index.headerPageNum).asMetaInfo
    walk w.pages.next INVALID_NUMBER w.pages.numPages
      (leftmostLeaf w.pages (metaInfo.height.toNat - 1) metaInfo.rootPageNo) = some t.leafPages := by
  obtain ⟨m, hm, hheight, hroot⟩ := ht.header
  obtain ⟨a, hc⟩ := ht.chain
  have hlevels : m.height.toNat - 1 = h := by rw [hheight]; omega
  have hstart : a = leftmostLeaf w.pages h t.page := by
    rw [hc.start_eq, List.headD_eq_head?_getD, ht.subtree.leftmost_eq]
    rfl
  have hvalid : INVALID_NUMBER ∉ t.leafPages := fun hmem =>
    ht.pages_valid _ (ht.subtree.leafPages_subset _ hmem) rfl
  have hlen : t.leafPages.length ≤ w.pages.numPages := by
    have hsub : t.leafPages ⊆ List.range w.pages.numPages := fun p hp =>
      List.mem_range.2 (ht.pages_lt p (ht.subtree.leafPages_subset p hp))
    have := (ht.subtree.leafPages_nodup ht.nodup).length_le_of_subset hsub
    simpa using this
  simp only [hm, asMetaInfo_metaInfo, hlevels, hroot]
  rw [← hstart, hc.walk_eq hvalid hlen]

/-- The walk finds the leaves of the tree. -/
theorem Tree.leafBlocks_eq {w : World PageStore PageId} {h : Nat} {t : Branch} (ht : Tree w h t) :
    leafBlocks w = some (t.leaves.map (·.2)) := by
  have hentries : (t.leafPages.map fun p => (w.pages.pages p).asLeaf.entries) = t.leaves.map (·.2) := by
    rw [Branch.leafPages, List.map_map]
    refine List.map_congr_left fun l hl => ?_
    rw [Function.comp_apply, ht.subtree.leaf_entries l hl]
  have hwalk := ht.walk_eq
  simp only at hwalk
  simp only [leafBlocks, hwalk, Option.map_some, hentries]

theorem Tree.leafWalk_eq {w : World PageStore PageId} {h : Nat} {t : Branch} (ht : Tree w h t) :
    leafWalk w = some t.entries := by
  rw [leafWalk, ht.leafBlocks_eq, Option.map_some, Branch.entries, List.flatMap_def]

/-- Insertion loses and invents nothing: every sequence of insertions into a new index returns, and the walk over the
leaves then finds exactly the inserted pairs, sorted by their keys. -/
theorem insertions_leafWalk (index : BTreeIndex PageId) (relationName : Nat → Nat) (nameLength : Nat)
    (attrByteOffset : Int) (attrType : Datatype) (rel more : List (Int × RecordId))
    (hv : ∀ e ∈ rel ++ more, e.2.page_number ≠ INVALID_NUMBER) :
    ∃ w l, (construct layer relationName nameLength attrByteOffset attrType rel >>= fun _ =>
          insertAll layer more) ⟨index, created⟩ = .ok () w ∧
      leafWalk w = some l ∧ l.Perm (pairs (rel ++ more)) ∧ KeySorted RIDKeyPair.key l := by
  obtain ⟨w, h, t, hrun, ht, he, -⟩ := built index relationName nameLength attrByteOffset attrType rel more hv
  refine ⟨w, t.entries, hrun, ht.leafWalk_eq, ?_, ht.sorted⟩
  rw [he]
  exact contents_perm _

/-- The data members before the constructor has set them. -/
def uninitialized : BTreeIndex PageId := ⟨0, 0, .INTEGER, 0, false, -1, 0, 0, 0, 0, .LT, .LT⟩

theorem insertions_leafWalk_three :
    ∃ w l, (construct layer (fun _ => 0) 0 0 .INTEGER [(7, ⟨1, 1, 0⟩)] >>= fun _ =>
          insertAll layer [(5, ⟨1, 2, 0⟩), (7, ⟨2, 1, 0⟩)]) ⟨uninitialized, created⟩ = .ok () w ∧
      leafWalk w = some l ∧ l.Perm (pairs ([(7, ⟨1, 1, 0⟩)] ++ [(5, ⟨1, 2, 0⟩), (7, ⟨2, 1, 0⟩)])) ∧
      KeySorted RIDKeyPair.key l :=
  insertions_leafWalk uninitialized _ _ _ _ _ _ (by decide)

end Cs564.BTree
