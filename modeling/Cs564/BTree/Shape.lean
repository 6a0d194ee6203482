import Cs564.BTree.Contents

/-!
# The shape of an index

`Shape` is what a B+ tree promises, read off the pages with the functions of the source alone: the level flags, the
number of slots in use, the order of the separators, and the keys below each child.  A tree has this shape
(`Subtree.shape`), so every index has it after any sequence of insertions (`insertions_shape`).
-/

namespace Cs564.BTree

open PageStore

/-- The entries in the leaves below a page, which are `levels` levels down. -/
def entriesBelow (s : PageStore) : Nat → PageId → List RIDKeyPair
  | 0, p => (s.pages p).asLeaf.entries
  | levels + 1, p =>
    (List.range (s.pages p).asNonLeaf.entryNum).flatMap fun i =>
      entriesBelow s levels ((s.pages p).asNonLeaf.pageNoArray i)

/-- A leaf is at least half full, the root apart. -/
structure LeafShape (root : Bool) (n : LeafNodeInt) : Prop where
  atMost : n.entryNum ≤ leafOccupancy
  atLeast : root = false → 341 ≤ n.entryNum

/-- A non-leaf whose children are `levels` levels above the leaves. -/
structure NonLeafShape (s : PageStore) (distinct : Prop) (levels : Nat) (root : Bool) (n : NonLeafNodeInt) : Prop where
  level : n.level = if levels = 0 then 1 else 0
  two : 2 ≤ n.entryNum
  atMost : n.entryNum ≤ nodeOccupancy + 1
  atLeast : root = false → 512 ≤ n.entryNum
  keys : ∀ i j, i ≤ j → j + 1 < n.entryNum → n.keyArray i ≤ n.keyArray j
  lower : ∀ i, i + 1 < n.entryNum → ∀ e ∈ entriesBelow s levels (n.pageNoArray (i + 1)), n.keyArray i ≤ e.key
  upper : ∀ i, i + 1 < n.entryNum → ∀ e ∈ entriesBelow s levels (n.pageNoArray i), e.key ≤ n.keyArray i
  strict : distinct → ∀ i, i + 1 < n.entryNum → ∀ e ∈ entriesBelow s levels (n.pageNoArray i), e.key < n.keyArray i

/-- The page has the leaves of a B+ tree `levels` levels below it. -/
def Shape (s : PageStore) (distinct : Prop) : Nat → Bool → PageId → Prop
  | 0, root, p => ∃ n, s.pages p = .leaf n ∧ LeafShape root n
  | levels + 1, root, p => ∃ n, s.pages p = .nonLeaf n ∧ NonLeafShape s distinct levels root n ∧
      ∀ i < n.entryNum, Shape s distinct levels false (n.pageNoArray i)

/-! ### Blocks of a sorted list -/

private theorem pairwise_blocks {α : Type} {r : α → α → Prop} {blocks : List (List α)}
    (hp : blocks.flatten.Pairwise r) {i j : Nat} (hij : i < j) (hj : j < blocks.length) {x y : α}
    (hx : x ∈ blocks[i]) (hy : y ∈ blocks[j]) : r x y := by
  have hcross := (List.pairwise_flatten.1 hp).2
  exact List.pairwise_iff_getElem.1 hcross i j (by omega) hj hij x hx y hy

section Parts

variable {s : PageStore} {h : Nat} {root aboveLeaves : Bool} {t : Branch} {n : NonLeafNodeInt} {keys : List Int}
  {subs : List Branch}

theorem IsNode.entryNum_eq (hn : IsNode s root aboveLeaves t n keys subs) : n.entryNum = subs.length := by
  rw [hn.holds.entryNum_eq, List.length_map]

theorem IsNode.kid_eq (hn : IsNode s root aboveLeaves t n keys subs) {i : Nat} (hi : i < subs.length) :
    n.pageNoArray i = subs[i].page := by
  rw [hn.holds.kid_eq (by simpa using hi), List.getElem_map]

/-- The key in slot `i` is the first key below child `i + 1`. -/
theorem IsNode.firstKey_eq (hn : IsNode s root aboveLeaves t n keys subs) {i : Nat} (hi : i + 1 < subs.length) :
    ∃ x, subs[i + 1].entries.head? = some x ∧ x.key = n.keyArray i := by
  have hlen := hn.holds.len
  rw [List.length_map] at hlen
  have hi' : i < keys.length := by omega
  have hsep := congrArg (fun l => l[i]?) hn.separators
  simp only [List.getElem?_map, List.getElem?_tail, List.getElem?_eq_getElem hi, List.getElem?_eq_getElem hi',
    Option.map_some, Option.some.injEq] at hsep
  obtain ⟨x, hx, hkey⟩ := Option.map_eq_some_iff.1 hsep
  exact ⟨x, hx, by rw [hkey, hn.holds.key_eq hi']⟩

theorem Subtree.entriesBelow_eq (ht : Subtree s h root t) : entriesBelow s h t.page = t.entries := by
  induction h generalizing root t with
  | zero =>
    obtain ⟨n, es, hl⟩ := ht
    rw [entriesBelow, hl.page, asLeaf_leaf, hl.holds.entries_eq, hl.entries_eq]
  | succ h ih =>
    obtain ⟨n, keys, subs, hn, hsubs⟩ := ht
    have hkid : ∀ i (hi : i < subs.length), entriesBelow s h (n.pageNoArray i) = subs[i].entries := fun i hi => by
      rw [hn.kid_eq hi, ih (hsubs _ (List.getElem_mem hi))]
    rw [entriesBelow, hn.page, asNonLeaf_nonLeaf, hn.entryNum_eq, hn.entries_eq, List.flatMap_def]
    congr 1
    apply List.ext_getElem (by simp)
    intro i h1 h2
    rw [List.getElem_map, List.getElem_map, List.getElem_range]
    exact hkid i (by simpa using h1)

/-- The keys below a child are bounded by the key behind it, in any order that sorts the entries. -/
theorem IsNode.key_above {r : Int → Int → Prop} (hn : IsNode s root aboveLeaves t n keys subs)
    (hr : t.entries.Pairwise fun a b => r a.key b.key) {i : Nat} (hi : i + 1 < subs.length) {e : RIDKeyPair}
    (he : e ∈ subs[i].entries) : r e.key (n.keyArray i) := by
  obtain ⟨x, hx, hkey⟩ := hn.firstKey_eq hi
  rw [hn.entries_eq] at hr
  rw [← hkey]
  have hlen : i + 1 < (subs.map Branch.entries).length := by simpa using hi
  refine pairwise_blocks (r := fun a b => r a.key b.key) hr (Nat.lt_succ_self i) hlen ?_ ?_
  · rw [List.getElem_map]
    exact he
  · rw [List.getElem_map]
    exact List.mem_of_mem_head? hx

theorem IsNode.sub_pairwise {r : RIDKeyPair → RIDKeyPair → Prop}
    (hn : IsNode s root aboveLeaves t n keys subs) (hr : t.entries.Pairwise r) {u : Branch} (hu : u ∈ subs) :
    u.entries.Pairwise r := by
  rw [hn.entries_eq] at hr
  exact (List.pairwise_flatten.1 hr).1 _ (List.mem_map_of_mem hu)

end Parts

/-! ### Trees have the shape -/

section Shape

variable {s : PageStore} {h : Nat} {root : Bool} {t : Branch} {distinct : Prop}

private theorem IsNode.shape {n : NonLeafNodeInt} {keys : List Int} {subs : List Branch}
    (hn : IsNode s root (h == 0) t n keys subs) (hsubs : ∀ u ∈ subs, Subtree s h false u)
    (hs : KeySorted RIDKeyPair.key t.entries) (hd : distinct → t.entries.Pairwise fun a b => a.key < b.key) :
    NonLeafShape s distinct h root n := by
  have hbelow : ∀ i (hi : i < subs.length), entriesBelow s h (n.pageNoArray i) = subs[i].entries := fun i hi => by
    rw [hn.kid_eq hi, (hsubs _ (List.getElem_mem hi)).entriesBelow_eq]
  have hsize := hn.holds.size
  rw [List.length_map] at hsize
  constructor
  case level =>
    rw [hn.level]
    cases h <;> rfl
  all_goals rw [hn.entryNum_eq]
  case two => exact hn.two
  case atMost => exact hsize
  case atLeast => exact hn.half
  case keys =>
    intro i j hij hj
    rcases Nat.lt_or_eq_of_le hij with hlt | rfl
    · obtain ⟨x, hx, hkey⟩ := hn.firstKey_eq (show i + 1 < subs.length by omega)
      rw [← hkey]
      obtain ⟨y, hy, hkey'⟩ := hn.firstKey_eq hj
      rw [← hkey']
      rw [hn.entries_eq] at hs
      have hlen : j + 1 < (subs.map Branch.entries).length := by simpa using hj
      refine pairwise_blocks hs (show i + 1 < j + 1 by omega) hlen ?_ ?_
      · rw [List.getElem_map]
        exact List.mem_of_mem_head? hx
      · rw [List.getElem_map]
        exact List.mem_of_mem_head? hy
    · exact Int.le_refl _
  case lower =>
    intro i hi e he
    rw [hbelow _ hi] at he
    obtain ⟨x, hx, hkey⟩ := hn.firstKey_eq hi
    rw [← hkey]
    exact KeySorted.head_le (hn.sub_pairwise hs (List.getElem_mem hi)) hx he
  case upper =>
    intro i hi e he
    rw [hbelow _ (by omega)] at he
    exact hn.key_above hs hi he
  case strict =>
    intro hdist i hi e he
    rw [hbelow _ (by omega)] at he
    exact hn.key_above (hd hdist) hi he

/-- A sorted subtree has the shape of a B+ tree, by induction over its levels. -/
theorem Subtree.shape (ht : Subtree s h root t) (hs : KeySorted RIDKeyPair.key t.entries)
    (hd : distinct → t.entries.Pairwise fun a b => a.key < b.key) : Shape s distinct h root t.page := by
  induction h generalizing root t with
  | zero =>
    obtain ⟨n, es, hl⟩ := ht
    refine ⟨n, hl.page, ?_, fun hroot => ?_⟩
    · rw [hl.holds.entryNum_eq]
      exact hl.holds.size
    · rw [hl.holds.entryNum_eq]
      exact hl.half hroot
  | succ h ih =>
    obtain ⟨n, keys, subs, hn, hsubs⟩ := ht
    refine ⟨n, hn.page, hn.shape hsubs hs hd, fun i hi => ?_⟩
    rw [hn.entryNum_eq] at hi
    have hu := List.getElem_mem hi
    rw [hn.kid_eq hi]
    exact ih (hsubs _ hu) (hn.sub_pairwise hs hu) fun hdist => hn.sub_pairwise (hd hdist) hu

end Shape

/-- Distinct keys are kept in strictly increasing order. -/
theorem contents_pairwise_lt {entries : List (Int × RecordId)} (hd : (entries.map (·.1)).Nodup) :
    (contents entries).Pairwise fun a b => a.key < b.key := by
  have hperm : ((contents entries).map RIDKeyPair.key).Perm (entries.map (·.1)) := by
    have := (contents_perm entries).map RIDKeyPair.key
    rwa [pairs, List.map_map] at this
  have hne := List.pairwise_map.1 (hperm.nodup_iff.2 hd)
  exact (contents_sorted entries).and hne |>.imp fun h => lt_of_le_of_ne h.1 h.2

/-- Every index has the shape of a B+ tree: after any sequence of insertions into a new index its leaves are
`height - 1` levels below the root. -/
theorem insertions_shape (index : BTreeIndex PageId) (relationName : Nat → Nat) (nameLength : Nat)
    (attrByteOffset : Int) (attrType : Datatype) (rel more : List (Int × RecordId))
    (hv : ∀ e ∈ rel ++ more, e.2.page_number ≠ INVALID_NUMBER) :
    ∃ w m, (construct layer relationName nameLength attrByteOffset attrType rel >>= fun _ =>
          insertAll layer more) ⟨index, created⟩ = .ok () w ∧
      w.pages.pages w.index.headerPageNum = .metaInfo m ∧ m.rootPageNo = w.index.rootPageNum ∧ 1 ≤ m.height ∧
      Shape w.pages ((rel ++ more).map (·.1)).Nodup (m.height.toNat - 1) true w.index.rootPageNum := by
  obtain ⟨w, h, t, hrun, ht, he, -⟩ := built index relationName nameLength attrByteOffset attrType rel more hv
  obtain ⟨m, hm, hheight, hroot⟩ := ht.header
  have hlevels : m.height.toNat - 1 = h := by rw [hheight]; omega
  refine ⟨w, m, hrun, hm, hroot.trans ht.rootPageNum.symm, by omega, ?_⟩
  rw [hlevels, ht.rootPageNum]
  refine ht.subtree.shape ht.sorted fun hd => ?_
  rw [he]
  exact contents_pairwise_lt hd

theorem insertions_shape_two :
    ∃ w m, (construct layer (fun _ => 0) 0 0 .INTEGER [(7, ⟨1, 1, 0⟩)] >>= fun _ =>
          insertAll layer [(5, ⟨1, 2, 0⟩)]) ⟨uninitialized, created⟩ = .ok () w ∧
      w.pages.pages w.index.headerPageNum = .metaInfo m ∧ m.rootPageNo = w.index.rootPageNum ∧ 1 ≤ m.height ∧
      Shape w.pages (([(7, ⟨1, 1, 0⟩)] ++ [(5, ⟨1, 2, 0⟩)] : List (Int × RecordId)).map (·.1)).Nodup (m.height.toNat - 1)
        true w.index.rootPageNum :=
  insertions_shape uninitialized _ _ _ _ _ _ (by decide)

end Cs564.BTree
