import Cs564.BTree.Shape

/-!
# The end marks of the nodes

Behind its entries a leaf has `[INT_MAX, Page::INVALID_NUMBER]`, and so has a non-leaf behind its children.  The one
node for which the code forgets half of it is a root that `insertEntry` has just made: behind its one key stands the 0
of a fresh page (`FreshTop`), until a third child is written.
-/

namespace Cs564.BTree

open PageStore

/-- The leaf with its `entryNum` entries ends in its sentinel. -/
structure LeafNodeInt.EndsInSentinel (n : LeafNodeInt) : Prop where
  inside : n.entryNum ≤ leafOccupancy
  key : n.keyArray n.entryNum = INT_MAX
  rid : (n.ridArray n.entryNum).page_number = INVALID_NUMBER

/-- The non-leaf with its `entryNum` children ends in its sentinel. -/
structure NonLeafNodeInt.EndsInSentinel (n : NonLeafNodeInt) : Prop where
  inside : n.entryNum ≤ nodeOccupancy + 1
  key : n.keyArray (n.entryNum - 1) = INT_MAX
  page : n.pageNoArray n.entryNum = INVALID_NUMBER

/-- Every node under the page, with the given number of levels above the leaves, ends in its sentinel. -/
def Sentinels (s : PageStore) : Nat → PageId → Prop
  | 0, p => ∃ n, s.pages p = .leaf n ∧ n.EndsInSentinel
  | levels + 1, p => ∃ n, s.pages p = .nonLeaf n ∧ n.EndsInSentinel ∧
      ∀ i < n.entryNum, Sentinels s levels (n.pageNoArray i)

/-- The root is a non-leaf with two children. -/
def RootOfTwo (w : World PageStore PageId) : Prop :=
  match w.pages.pages w.index.rootPageNum with
  | .nonLeaf n => n.entryNum = 2
  | _ => False

/-- A root with two children still has the 0 of a fresh page behind its key. -/
def FreshTop (w : World PageStore PageId) : Prop :=
  ∀ n, w.pages.pages w.index.rootPageNum = .nonLeaf n → n.entryNum = 2 → n.keyArray 1 = 0

/-! ### The sentinels of a tree -/

section Tree

variable {s : PageStore} {h : Nat} {root aboveLeaves : Bool} {t : Branch}

theorem LeafHolds.endsInSentinel {n : LeafNodeInt} {es : List RIDKeyPair} (h : LeafHolds n es) : n.EndsInSentinel := by
  constructor <;> rw [h.entryNum_eq]
  · exact h.size
  · exact h.endKey
  · exact h.endRid

theorem NodeHolds.endsInSentinel {n : NonLeafNodeInt} {keys : List Int} {kids : List PageId} (h : NodeHolds n keys kids)
    (hclosed : Closed n kids) : n.EndsInSentinel := by
  constructor <;> rw [h.entryNum_eq]
  · exact h.size
  · exact hclosed
  · exact h.endPage

/-- All nodes but a root with two children end in their sentinels; by induction on the levels. -/
theorem Subtree.sentinels (ht : Subtree s h root t)
    (htwo : root = true → ∀ n, s.pages t.page = .nonLeaf n → n.entryNum ≠ 2) : Sentinels s h t.page := by
  induction h generalizing root t with
  | zero =>
    obtain ⟨n, es, hl⟩ := ht
    exact ⟨n, hl.page, hl.holds.endsInSentinel⟩
  | succ h ih =>
    obtain ⟨n, keys, subs, hn, hsubs⟩ := ht
    have hclosed : Closed n (subs.map (·.page)) := by
      rcases hn.closed with hclosed | ⟨hroot, hfresh⟩
      · exact hclosed
      · exact absurd (hn.holds.entryNum_eq.trans hfresh.1) (htwo hroot n hn.page)
    refine ⟨n, hn.page, hn.holds.endsInSentinel hclosed, fun i hi => ?_⟩
    rw [hn.entryNum_eq] at hi
    have hkid : n.pageNoArray i = subs[i].page := hn.kid_eq hi
    rw [hkid]
    exact ih (hsubs _ (List.getElem_mem hi)) fun hfalse => absurd hfalse Bool.false_ne_true

end Tree

/-! ### A new root keeps its zero -/

section FreshTop

variable {w : World PageStore PageId} {h : Nat} {t : Branch} {rid : RecordId}

private theorem not_nonLeaf_of_leaf {s : PageStore} {root : Bool} (ht : Subtree s 0 root t) (n : NonLeafNodeInt) :
    s.pages t.page ≠ .nonLeaf n := by
  obtain ⟨m, es, hl⟩ := ht
  intro heq
  rw [hl.page] at heq
  cases heq

/-- A call that does not split the root leaves its page alone, or gives it another child. -/
private theorem Ready.root_page {s s' : PageStore} {e : RIDKeyPair} {c : PageKeyPair} (hr : Ready s (h + 1) true t e)
    (hrun : insertUnderNode layer (h + 2) e t.page false s = .ok c s') (hc : c.pageNo = INVALID_NUMBER) :
    s'.pages t.page = s.pages t.page ∨ ∃ n, s'.pages t.page = .nonLeaf n ∧ 3 ≤ n.entryNum := by
  obtain ⟨n, keys, A, u, B, d, s₁, r⟩ := hr.round
  obtain ⟨hn, -, -, -, -, hins, hround⟩ := r
  obtain ⟨ts, hg⟩ := hins.grows
  rw [hround] at hrun
  by_cases hd : d.pageNo = INVALID_NUMBER
  · rw [if_pos hd] at hrun
    obtain ⟨-, rfl⟩ := EStateM.Result.ok.inj hrun
    exact .inl (hg.frame _ hr.page_lt (hn.sub_page_ne hr.nodup (by simp)))
  · rw [if_neg hd] at hrun
    by_cases hs : (A ++ u :: B).length = nodeOccupancy + 1
    · -- a full node gives up a new page, whose number is not 0
      rw [if_pos hs] at hrun
      obtain ⟨rfl, -⟩ := EStateM.Result.ok.inj hrun
      have hpos : 0 < s₁.numPages := Nat.lt_of_le_of_lt (Nat.zero_le _) (Nat.lt_of_lt_of_le hr.page_lt hg.mono)
      exact absurd hc (Nat.ne_of_gt hpos)
    · rw [if_neg hs] at hrun
      obtain ⟨-, rfl⟩ := EStateM.Result.ok.inj hrun
      refine .inr ⟨_, Function.update_self .., ?_⟩
      have hsize := hn.holds.size
      have hlen := hn.holds.len
      have htwo := hn.two
      simp only [List.length_map] at hsize hlen
      have hpos : A.length ≤ keys.length := by
        rw [List.length_append, List.length_cons] at hlen
        omega
      have hmore := (hn.holds.insert hd hpos (by simp only [List.length_map]; omega)).1
      rw [List.length_map] at hmore
      rw [hmore.entryNum_eq, List.length_insertIdx_of_le_length (by simp), List.length_map]
      omega

/-- An insertion leaves a root with two children as it is, or makes it, or gives it a third child. -/
theorem Tree.insertEntry_freshTop (ht : Tree w h t) (hf : FreshTop w) (key : Int)
    (hrid : rid.page_number ≠ INVALID_NUMBER) {w' : World PageStore PageId}
    (hrun : BTree.insertEntry layer key rid w = .ok () w') : FreshTop w' := by
  obtain ⟨m, c, s, -, hcall, hins, hne, hentry⟩ := ht.insertEntry_run key hrid
  rw [hentry] at hrun
  by_cases hc : c.pageNo = INVALID_NUMBER
  · rw [if_pos hc] at hrun
    obtain ⟨-, rfl⟩ := EStateM.Result.ok.inj hrun
    intro n hn htwo
    simp only [ht.rootPageNum] at hn
    cases h with
    | zero =>
      rcases hins with ⟨-, t', hpage, ht', -⟩ | ⟨hc', -⟩
      · rw [← hpage] at hn
        exact absurd hn (not_nonLeaf_of_leaf ht' n)
      · exact absurd hc hc'
    | succ h =>
      rcases Ready.root_page (ht.ready key hrid) hcall hc with hsame | ⟨n', hn', hthree⟩
      · rw [hsame, ← ht.rootPageNum] at hn
        exact hf n hn htwo
      · obtain rfl : n' = n := Page.nonLeaf.inj (hn'.symm.trans hn)
        omega
  · rw [if_neg hc] at hrun
    obtain ⟨-, rfl⟩ := EStateM.Result.ok.inj hrun
    intro n hn _
    simp only [write_pages] at hn
    rw [Function.update_of_ne hne.symm, Function.update_self] at hn
    obtain rfl := Page.nonLeaf.inj hn
    have hzero := (nodeHolds_asNewRoot (h == 0) (ht.pages_valid _ ht.subtree.page_mem) hc).2.2.1
    exact hzero 1 (Nat.le_refl 1) (by simp)

/-- A sequence of insertions, by induction on the sequence. -/
theorem Tree.insertAll_freshTop (ht : Tree w h t) (hf : FreshTop w) (more : List (Int × RecordId))
    (hv : ∀ e ∈ more, e.2.page_number ≠ INVALID_NUMBER) {w' : World PageStore PageId}
    (hrun : BTree.insertAll layer more w = .ok () w') : FreshTop w' := by
  induction more generalizing w h t with
  | nil =>
    obtain ⟨-, rfl⟩ := EStateM.Result.ok.inj hrun
    exact hf
  | cons e more ih =>
    have he := hv e (List.mem_cons_self ..)
    obtain ⟨r, s, h₁, t₁, hentry, ht₁, -⟩ := ht.insertEntry e.1 he
    rw [BTree.insertAll, run_bind_ok hentry] at hrun
    exact ih ht₁ (ht.insertEntry_freshTop hf e.1 he hentry) (fun x hx => hv x (List.mem_cons_of_mem _ hx)) hrun

/-- The root of an index over a relation, after further insertions. -/
theorem built_freshTop {index : BTreeIndex PageId} {relationName : Nat → Nat} {nameLength : Nat} {attrByteOffset : Int}
    {attrType : Datatype} {rel more : List (Int × RecordId)} (hv : ∀ e ∈ rel ++ more, e.2.page_number ≠ INVALID_NUMBER)
    (hrun : (construct layer relationName nameLength attrByteOffset attrType rel >>= fun _ =>
      BTree.insertAll layer more) ⟨index, created⟩ = .ok () w) : FreshTop w := by
  have hnew := tree_new index attrByteOffset attrType (newMeta relationName nameLength attrByteOffset attrType)
  have hfresh : FreshTop { index := newIndex index attrByteOffset attrType
                           pages := newPages (newMeta relationName nameLength attrByteOffset attrType) } :=
    fun n hn _ => absurd hn (not_nonLeaf_of_leaf hnew.subtree n)
  obtain ⟨r, s, h₁, t₁, hrel, ht₁, -⟩ :=
    hnew.insertAll rel (show _ = contents [] from rfl) fun e he => hv e (List.mem_append_left _ he)
  rw [run_bind, construct_eq, hrel] at hrun
  have hf₁ := hnew.insertAll_freshTop hfresh rel (fun e he => hv e (List.mem_append_left _ he)) hrel
  exact ht₁.insertAll_freshTop hf₁ more (fun e he => hv e (List.mem_append_right _ he)) hrun

end FreshTop

/-! ### The results -/

/-- Every node of an index ends in its sentinel, if and only if the root does not have just two children. -/
theorem insertions_sentinels_iff (index : BTreeIndex PageId) (relationName : Nat → Nat) (nameLength : Nat)
    (attrByteOffset : Int) (attrType : Datatype) (rel more : List (Int × RecordId))
    (hv : ∀ e ∈ rel ++ more, e.2.page_number ≠ INVALID_NUMBER) :
    ∃ w m, (construct layer relationName nameLength attrByteOffset attrType rel >>= fun _ =>
          insertAll layer more) ⟨index, created⟩ = .ok () w ∧
      w.pages.pages w.index.headerPageNum = .metaInfo m ∧
      (Sentinels w.pages (m.height.toNat - 1) w.index.rootPageNum ↔ ¬RootOfTwo w) := by
  obtain ⟨w, h, t, hrun, ht, -, -⟩ := built index relationName nameLength attrByteOffset attrType rel more hv
  obtain ⟨m, hm, hheight, -⟩ := ht.header
  have hlevels : m.height.toNat - 1 = h := by rw [hheight]; omega
  refine ⟨w, m, hrun, hm, ?_⟩
  rw [hlevels]
  constructor
  · intro hs htwo
    cases h with
    | zero =>
      obtain ⟨n, hn, -⟩ := hs
      rw [RootOfTwo, hn] at htwo
      exact htwo
    | succ h =>
      obtain ⟨n, hn, hend, -⟩ := hs
      rw [RootOfTwo, hn] at htwo
      replace htwo : n.entryNum = 2 := htwo
      have hkey := hend.key
      rw [htwo] at hkey
      have hzero := built_freshTop hv hrun n hn htwo
      exact absurd (hzero.symm.trans hkey) (by decide)
  · intro htwo
    rw [ht.rootPageNum] at *
    refine ht.subtree.sentinels fun _ n hn hcount => htwo ?_
    rw [RootOfTwo, ht.rootPageNum, hn]
    exact hcount

theorem insertions_sentinels_two :
    ∃ w m, (construct layer (fun _ => 0) 0 0 .INTEGER [(7, ⟨1, 1, 0⟩)] >>= fun _ =>
          insertAll layer [(5, ⟨1, 2, 0⟩)]) ⟨uninitialized, created⟩ = .ok () w ∧
      w.pages.pages w.index.headerPageNum = .metaInfo m ∧
      (Sentinels w.pages (m.height.toNat - 1) w.index.rootPageNum ↔ ¬RootOfTwo w) :=
  insertions_sentinels_iff uninitialized _ _ _ _ _ _ (by decide)

/-! ### A split root leaf -/

/-- Entries with the keys from 0 on. -/
def ascending (count : Nat) : List (Int × RecordId) := (List.range count).map fun i : Nat => ((i : Int), ⟨1, i, 0⟩)

theorem ascending_valid (count : Nat) : ∀ e ∈ ascending count, e.2.page_number ≠ INVALID_NUMBER := by
  intro e he
  obtain ⟨i, -, rfl⟩ := List.mem_map.1 he
  exact Nat.one_ne_zero

/-- A subtree that is not the whole index has at least as many entries as half a leaf. -/
theorem Subtree.length_ge {s : PageStore} {h : Nat} {t : Branch} (ht : Subtree s h false t) : 341 ≤ t.entries.length := by
  induction h generalizing t with
  | zero =>
    obtain ⟨n, es, hl⟩ := ht
    rw [hl.entries_eq]
    exact hl.half rfl
  | succ h ih =>
    obtain ⟨n, keys, subs, hn, hsubs⟩ := ht
    have htwo := hn.two
    obtain ⟨u, rest, rfl⟩ : ∃ u rest, subs = u :: rest := List.exists_cons_of_length_pos (by omega)
    have hu := ih (hsubs u (List.mem_cons_self ..))
    rw [hn.entries_eq, List.map_cons, List.flatten_cons, List.length_append]
    omega

/-- With one entry more than a leaf holds, the root is a node over two leaves. -/
theorem Tree.root_of_length {w : World PageStore PageId} {h : Nat} {t : Branch} (ht : Tree w h t)
    (hlen : t.entries.length = leafOccupancy + 1) :
    h = 1 ∧ ∃ n keys u v, IsNode w.pages true true t n keys [u, v] ∧ Subtree w.pages 0 false u ∧
      Subtree w.pages 0 false v := by
  simp only [leafOccupancy_eq] at hlen
  cases h with
  | zero =>
    obtain ⟨n, es, hl⟩ : ∃ n es, IsLeaf w.pages true t n es := ht.subtree
    have hsize := hl.holds.size
    rw [hl.entries_eq] at hlen
    simp only [leafOccupancy_eq] at hsize
    omega
  | succ h =>
    obtain ⟨n, keys, subs, hn, hsubs⟩ : ∃ n keys subs, IsNode w.pages true (h == 0) t n keys subs ∧
        ∀ u ∈ subs, Subtree w.pages h false u := ht.subtree
    have htwo := hn.two
    rw [hn.entries_eq] at hlen
    match subs with
    | [] => simp at htwo
    | [u] => simp at htwo
    | [u, v] =>
      have hu := hsubs u (by simp)
      have hv := hsubs v (by simp)
      cases h with
      | zero => exact ⟨rfl, n, keys, u, v, hn, hu, hv⟩
      | succ h =>
        -- a subtree with non-leaves has too many entries
        obtain ⟨m, keys', kids, hm, hkids⟩ : ∃ m keys' kids, IsNode w.pages false (h == 0) u m keys' kids ∧
            ∀ x ∈ kids, Subtree w.pages h false x := hu
        have hhalf := hm.half rfl
        match kids with
        | [] => simp at hhalf
        | [a] => simp at hhalf
        | a :: b :: kids =>
          have ha := (hkids a (by simp)).length_ge
          have hb := (hkids b (by simp)).length_ge
          have hv' := hv.length_ge
          have hu' : (a.entries ++ (b.entries ++ (kids.map Branch.entries).flatten)).length = u.entries.length := by
            rw [hm.entries_eq]
            rfl
          simp only [List.length_append] at hu'
          simp only [List.map_cons, List.map_nil, List.flatten_cons, List.flatten_nil, List.append_nil,
            List.length_append] at hlen
          omega
    | u :: v :: x :: subs =>
      have hu := (hsubs u (by simp)).length_ge
      have hv := (hsubs v (by simp)).length_ge
      have hx := (hsubs x (by simp)).length_ge
      simp only [List.map_cons, List.flatten_cons, List.length_append] at hlen
      omega

/-- After 682 insertions the root is a new one: behind its one key stands 0 where the sentinel should be. -/
theorem new_root_without_sentinel :
    ∃ w m, (construct layer (fun _ => 0) 0 0 .INTEGER [] >>= fun _ =>
          insertAll layer (ascending 682)) ⟨uninitialized, created⟩ = .ok () w ∧
      w.pages.pages w.index.headerPageNum = .metaInfo m ∧
      ¬Sentinels w.pages (m.height.toNat - 1) w.index.rootPageNum := by
  have hv : ∀ e ∈ [] ++ ascending 682, e.2.page_number ≠ INVALID_NUMBER := by
    rw [List.nil_append]
    exact ascending_valid 682
  obtain ⟨w, h, t, hrun, ht, he, -⟩ := built uninitialized (fun _ => 0) 0 0 .INTEGER [] (ascending 682) hv
  obtain ⟨m, hm, hheight, -⟩ := ht.header
  have hlen : t.entries.length = leafOccupancy + 1 := by
    rw [he, (contents_perm _).length_eq]
    simp [pairs, ascending]
  obtain ⟨rfl, n, keys, u, v, hn, -, -⟩ := ht.root_of_length hlen
  refine ⟨w, m, hrun, hm, ?_⟩
  have hlevels : m.height.toNat - 1 = 0 + 1 := by rw [hheight]; rfl
  rw [hlevels]
  rintro ⟨n', hn', hend, -⟩
  rw [ht.rootPageNum] at hn'
  obtain rfl : n = n' := Page.nonLeaf.inj (hn.page.symm.trans hn')
  have hcount : n.entryNum = 2 := hn.entryNum_eq
  have hzero := built_freshTop hv hrun n (ht.rootPageNum ▸ hn') hcount
  have hkey := hend.key
  rw [hcount] at hkey
  exact absurd (hzero.symm.trans hkey) (by decide)

end Cs564.BTree
