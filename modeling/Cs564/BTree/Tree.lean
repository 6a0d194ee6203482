import Cs564.BTree.NodeLemmas
import Cs564.Lib.Chain

/-!
# The tree in the page store

`Subtree s h root t` says that the pages of the store `s` form a B+ tree of `h` levels above its leaves, whose top
page, pages and leaves are listed in `t : Branch`.  Every separator is the key of the first entry to its right, and
that is all an insertion or a search needs to know about keys.  The parameter `root` tells whether the tree is the
whole index: only then may a node be less than half full or have the end mark of a fresh page.

`Tree w h t` adds what ties the tree to the index: the header page, the page number that no page has, the sibling
links of the leaves, and the order of the entries.
-/

namespace Cs564.BTree

/-- A subtree: its top page, all its pages, and its leaves from left to right with their entries. -/
structure Branch where
  page : Nat
  pages : List Nat
  leaves : List (Nat × List RIDKeyPair)

namespace Branch

/-- The entries from left to right. -/
def entries (t : Branch) : List RIDKeyPair := t.leaves.flatMap (·.2)

/-- The pages of the leaves from left to right. -/
def leafPages (t : Branch) : List Nat := t.leaves.map (·.1)

/-- The key of the first entry. -/
def firstKey (t : Branch) : Option Int := t.entries.head?.map RIDKeyPair.key

end Branch

/-- The subtree is the leaf `n` with the entries `es`. -/
structure IsLeaf (s : PageStore) (root : Bool) (t : Branch) (n : LeafNodeInt) (es : List RIDKeyPair) : Prop where
  page : s.pages t.page = .leaf n
  holds : LeafHolds n es
  half : root = false → 341 ≤ es.length
  pages : t.pages = [t.page]
  leaves : t.leaves = [(t.page, es)]

/-- The top of the subtree is the non-leaf `n` over the subtrees `subs`. -/
structure IsNode (s : PageStore) (root aboveLeaves : Bool) (t : Branch) (n : NonLeafNodeInt) (keys : List Int)
    (subs : List Branch) : Prop where
  page : s.pages t.page = .nonLeaf n
  level : n.level = if aboveLeaves then 1 else 0
  holds : NodeHolds n keys (subs.map (·.page))
  separators : subs.tail.map Branch.firstKey = keys.map some
  half : root = false → 512 ≤ subs.length
  two : 2 ≤ subs.length
  closed : Closed n (subs.map (·.page)) ∨ root = true ∧ FreshRoot n (subs.map (·.page))
  pages : t.pages = t.page :: subs.flatMap (·.pages)
  leaves : t.leaves = subs.flatMap (·.leaves)

/-- The pages of the store form the tree `t` with `h` levels above its leaves. -/
def Subtree (s : PageStore) : Nat → Bool → Branch → Prop
  | 0, root, t => ∃ n es, IsLeaf s root t n es
  | h + 1, root, t => ∃ n keys subs, IsNode s root (h == 0) t n keys subs ∧ ∀ u ∈ subs, Subtree s h false u

/-- The right sibling of a leaf page. -/
def PageStore.next (s : PageStore) (p : PageId) : PageId := (s.pages p).asLeaf.rightSibPageNo

/-- The index `w` stands over the tree `t` with `h` levels above its leaves. -/
structure Tree (w : World PageStore PageId) (h : Nat) (t : Branch) : Prop where
  subtree : Subtree w.pages h true t
  rootPageNum : w.index.rootPageNum = t.page
  header : ∃ m, w.pages.pages w.index.headerPageNum = .metaInfo m ∧ m.height = h + 1 ∧ m.rootPageNo = t.page
  header_notMem : w.index.headerPageNum ∉ t.pages
  header_lt : w.index.headerPageNum < w.pages.numPages
  header_valid : w.index.headerPageNum ≠ INVALID_NUMBER
  unallocated : w.pages.pages INVALID_NUMBER = .fresh
  pages_lt : ∀ p ∈ t.pages, p < w.pages.numPages
  pages_valid : ∀ p ∈ t.pages, p ≠ INVALID_NUMBER
  nodup : t.pages.Nodup
  sorted : KeySorted RIDKeyPair.key t.entries
  chain : ∃ a, Chain w.pages.next a t.leafPages INVALID_NUMBER

/-! ### Parts of a subtree -/

section Parts

variable {s s' : PageStore} {h : Nat} {root aboveLeaves : Bool} {t u : Branch} {n : NonLeafNodeInt} {keys : List Int}
  {subs : List Branch}

theorem IsNode.entries_eq (hn : IsNode s root aboveLeaves t n keys subs) :
    t.entries = (subs.map Branch.entries).flatten := by
  rw [Branch.entries, hn.leaves, List.flatMap_assoc, List.flatMap_def]
  rfl

theorem IsNode.leafPages_eq (hn : IsNode s root aboveLeaves t n keys subs) :
    t.leafPages = subs.flatMap Branch.leafPages := by
  rw [Branch.leafPages, hn.leaves, List.map_flatMap]
  rfl

theorem IsNode.page_mem (hn : IsNode s root aboveLeaves t n keys subs) : t.page ∈ t.pages := by
  rw [hn.pages]
  simp

theorem IsNode.sub_pages (hn : IsNode s root aboveLeaves t n keys subs) (hu : u ∈ subs) : ∀ p ∈ u.pages, p ∈ t.pages := by
  intro p hp
  rw [hn.pages]
  exact List.mem_cons_of_mem _ (List.mem_flatMap.2 ⟨u, hu, hp⟩)

theorem IsNode.pages_nodup (hn : IsNode s root aboveLeaves t n keys subs) (hnd : t.pages.Nodup) :
    t.page ∉ subs.flatMap (·.pages) ∧ (subs.flatMap (·.pages)).Nodup := by
  rwa [hn.pages, List.nodup_cons] at hnd

theorem IsNode.sub_page_ne (hn : IsNode s root aboveLeaves t n keys subs) (hnd : t.pages.Nodup) (hu : u ∈ subs) :
    t.page ∉ u.pages := fun hp => (hn.pages_nodup hnd).1 (List.mem_flatMap.2 ⟨u, hu, hp⟩)

theorem Subtree.page_mem (ht : Subtree s h root t) : t.page ∈ t.pages := by
  cases h with
  | zero =>
    obtain ⟨n, es, hl⟩ := ht
    rw [hl.pages]
    simp
  | succ h =>
    obtain ⟨n, keys, subs, hn, -⟩ := ht
    exact hn.page_mem

/-- A subtree depends on its own pages only. -/
theorem Subtree.frame (ht : Subtree s h root t) (hp : ∀ p ∈ t.pages, s'.pages p = s.pages p) : Subtree s' h root t := by
  induction h generalizing root t with
  | zero =>
    obtain ⟨n, es, hl⟩ := ht
    exact ⟨n, es, { hl with page := (hp _ (by rw [hl.pages]; simp)).trans hl.page }⟩
  | succ h ih =>
    obtain ⟨n, keys, subs, hn, hsubs⟩ := ht
    refine ⟨n, keys, subs, { hn with page := (hp _ hn.page_mem).trans hn.page }, fun u hu => ?_⟩
    exact ih (hsubs u hu) fun p hpu => hp p (hn.sub_pages hu p hpu)

theorem Subtree.leafPages_subset (ht : Subtree s h root t) : ∀ p ∈ t.leafPages, p ∈ t.pages := by
  induction h generalizing root t with
  | zero =>
    obtain ⟨n, es, hl⟩ := ht
    simp [Branch.leafPages, hl.leaves, hl.pages]
  | succ h ih =>
    obtain ⟨n, keys, subs, hn, hsubs⟩ := ht
    intro p hp
    rw [hn.leafPages_eq] at hp
    obtain ⟨u, hu, hpu⟩ := List.mem_flatMap.1 hp
    exact hn.sub_pages hu p (ih (hsubs u hu) p hpu)

/-- Only the root of the index can be empty. -/
theorem Subtree.entries_ne_nil (ht : Subtree s h false t) : t.entries ≠ [] := by
  induction h generalizing t with
  | zero =>
    obtain ⟨n, es, hl⟩ := ht
    have hhalf := hl.half rfl
    intro hnil
    simp only [Branch.entries, hl.leaves, List.flatMap_cons, List.flatMap_nil, List.append_nil] at hnil
    simp [hnil] at hhalf
  | succ h ih =>
    obtain ⟨n, keys, subs, hn, hsubs⟩ := ht
    obtain ⟨u, hu⟩ := List.exists_mem_of_length_pos (show 0 < subs.length by have := hn.two; omega)
    obtain ⟨x, hx⟩ := List.exists_mem_of_ne_nil _ (ih (hsubs u hu))
    intro hnil
    have : x ∈ t.entries := by
      rw [hn.entries_eq]
      exact List.mem_flatten.2 ⟨_, List.mem_map_of_mem hu, hx⟩
    simp [hnil] at this

/-- The child to which `insertUnderNode` goes down. -/
theorem IsNode.childPos_split (hn : IsNode s root aboveLeaves t n keys subs) (hs : KeySorted RIDKeyPair.key t.entries)
    (k : Int) :
    ∃ A u B, subs = A ++ u :: B ∧ A.length = n.childPos k ∧ n.pageNoArray (n.childPos k) = u.page ∧
      (∀ x ∈ A.flatMap Branch.entries, x.key ≤ k) ∧ (∀ x ∈ B.flatMap Branch.entries, k < x.key) ∧
      (A ≠ [] → ∃ x, u.entries.head? = some x ∧ x.key ≤ k) := by
  have htwo := hn.two
  have hsep : (subs.map Branch.entries).tail.map (fun b => b.head?.map RIDKeyPair.key) = keys.map some := by
    rw [← hn.separators, ← List.map_tail, List.map_map]
    rfl
  obtain ⟨A, L, B, heq, hlen, hA, hB, hL⟩ :=
    separators_split hsep (by simp; rintro rfl; simp at htwo) (hn.entries_eq ▸ hs) k
  obtain ⟨A', rest, hsubs, rfl, hrest⟩ := List.map_eq_append_iff.1 heq
  obtain ⟨u, B', rfl, rfl, rfl⟩ := List.map_eq_cons_iff.1 hrest
  have hpos : A'.length = n.childPos k := by rw [hn.holds.childPos_eq, ← hlen, List.length_map]
  refine ⟨A', u, B', hsubs, hpos, ?_, by rwa [List.flatMap_def], by rwa [List.flatMap_def], ?_⟩
  · have hlt : A'.length < (subs.map (·.page)).length := by simp [hsubs]
    rw [← hpos, hn.holds.kid_eq hlt]
    simp [hsubs]
  · intro hne
    exact hL (by simpa using hne)

end Parts

/-- `insertEntry` and `startScan` find from the height whether the root is a leaf. -/
theorem Tree.isRootLeaf_eq {w : World PageStore PageId} {h : Nat} {t : Branch} (ht : Tree w h t) :
    decide ((w.pages.pages w.index.headerPageNum).asMetaInfo.height = 1) = (h == 0) := by
  obtain ⟨m, hm, hheight, -⟩ := ht.header
  rw [hm, asMetaInfo_metaInfo, hheight]
  cases h with
  | zero => rfl
  | succ h => simp; omega

end Cs564.BTree
