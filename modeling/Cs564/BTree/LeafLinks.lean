import Cs564.BTree.Mirror

/-!
# Leaves and their siblings

A scan stands on a leaf and goes on to its right sibling, while insertions split leaves and move entries.  `LeafLinks`
says that behind every leaf comes another one, or none.  An insertion keeps that, and leaves remain leaves
(`LeavesKept`).
-/

namespace Cs564.BTree

open PageStore

variable {s s' s₁ s₂ : PageStore} {p q : PageId}

/-- The page has been allocated, and is a leaf. -/
def PageStore.HasLeaf (s : PageStore) (p : PageId) : Prop := s.Has p ∧ ∃ n, s.pages p = .leaf n

/-- Behind every leaf comes another leaf, or none. -/
def LeafLinks (s : PageStore) : Prop :=
  ∀ p n, s.pages p = .leaf n → n.rightSibPageNo = INVALID_NUMBER ∨ s.HasLeaf n.rightSibPageNo

/-- The leaves of `s` are leaves of `s'`, and the links there are in order. -/
structure LeavesKept (s s' : PageStore) : Prop where
  links : LeafLinks s'
  kept : ∀ p, s.HasLeaf p → s'.HasLeaf p

theorem LeafLinks.next (h : LeafLinks s) (hp : s.HasLeaf p) :
    (s.pages p).asLeaf.rightSibPageNo = INVALID_NUMBER ∨ s.HasLeaf (s.pages p).asLeaf.rightSibPageNo := by
  obtain ⟨-, n, hn⟩ := hp
  rw [hn, asLeaf_leaf]
  exact h p n hn

namespace LeavesKept

theorem trans (h : LeavesKept s s₁) (h' : LeavesKept s₁ s₂) : LeavesKept s s₂ :=
  ⟨h'.links, fun p hp => h'.kept p (h.kept p hp)⟩

/-- A page that is no leaf, before and after. -/
theorem write (h : LeafLinks s) (hold : ∀ n, s.pages p ≠ .leaf n) {page : Page} (hnew : ∀ n, page ≠ .leaf n) :
    LeavesKept s (s.write p page) := by
  have hpages : ∀ q n, (s.write p page).pages q = .leaf n ↔ s.pages q = .leaf n := by
    intro q n
    rw [write_pages]
    by_cases hq : q = p
    · subst hq
      rw [Function.update_self]
      exact iff_of_false (hnew n) (hold n)
    · rw [Function.update_of_ne hq]
  have hkept : ∀ q, s.HasLeaf q → (s.write p page).HasLeaf q := fun q ⟨hq, n, hn⟩ => ⟨hq, n, (hpages q n).mpr hn⟩
  exact ⟨fun q n hn => (h q n ((hpages q n).mp hn)).imp id (hkept _), hkept⟩

/-- A leaf with the same sibling. -/
theorem writeLeaf (h : LeafLinks s) {n m : LeafNodeInt} (hn : s.pages p = .leaf n)
    (hsib : m.rightSibPageNo = n.rightSibPageNo) : LeavesKept s (s.write p (.leaf m)) := by
  have hkept : ∀ q, s.HasLeaf q → (s.write p (.leaf m)).HasLeaf q := by
    rintro q ⟨hq, k, hk⟩
    refine ⟨hq, ?_⟩
    rw [write_pages]
    by_cases hqp : q = p
    · rw [hqp, Function.update_self]
      exact ⟨m, rfl⟩
    · rw [Function.update_of_ne hqp]
      exact ⟨k, hk⟩
  refine ⟨fun q k hk => ?_, hkept⟩
  rw [write_pages] at hk
  by_cases hqp : q = p
  · rw [hqp, Function.update_self] at hk
    obtain rfl := Page.leaf.inj hk
    rw [hsib]
    exact (h p n hn).imp id (hkept _)
  · rw [Function.update_of_ne hqp] at hk
    exact (h q k hk).imp id (hkept _)

/-- A new page that is no leaf yet. -/
theorem alloc (h : LeafLinks s) : LeavesKept s s.alloc := by
  have hkept : ∀ q, s.HasLeaf q → s.alloc.HasLeaf q := by
    rintro q ⟨hq, n, hn⟩
    refine ⟨⟨hq.1, Nat.lt_succ_of_lt hq.2⟩, n, ?_⟩
    rw [alloc_pages, Function.update_of_ne (Nat.ne_of_lt hq.2)]
    exact hn
  refine ⟨fun q n hn => ?_, hkept⟩
  rw [alloc_pages] at hn
  by_cases hq : q = s.numPages
  · rw [hq, Function.update_self] at hn
    cases hn
  · rw [Function.update_of_ne hq] at hn
    exact (h q n hn).imp id (hkept _)

/-- A leaf is split: the new page comes between it and its sibling. -/
theorem split (h : LeafLinks s) {n l r : LeafNodeInt} (hn : s.pages p = .leaf n) (hp : p < s.numPages)
    (hl : l.rightSibPageNo = s.numPages) (hr : r.rightSibPageNo = n.rightSibPageNo) :
    LeavesKept s ((s.alloc.write s.numPages (.leaf r)).write p (.leaf l)) := by
  have hne : p ≠ s.numPages := Nat.ne_of_lt hp
  have hpages : ((s.alloc.write s.numPages (.leaf r)).write p (.leaf l)).pages =
      Function.update (Function.update s.alloc.pages s.numPages (.leaf r)) p (.leaf l) := rfl
  have hkept : ∀ q, s.HasLeaf q → ((s.alloc.write s.numPages (.leaf r)).write p (.leaf l)).HasLeaf q := by
    rintro q ⟨hq, k, hk⟩
    refine ⟨⟨hq.1, Nat.lt_succ_of_lt hq.2⟩, ?_⟩
    rw [hpages]
    by_cases hqp : q = p
    · rw [hqp, Function.update_self]
      exact ⟨l, rfl⟩
    · rw [Function.update_of_ne hqp, Function.update_of_ne (Nat.ne_of_lt hq.2), alloc_pages,
        Function.update_of_ne (Nat.ne_of_lt hq.2)]
      exact ⟨k, hk⟩
  refine ⟨fun q k hk => ?_, hkept⟩
  rw [hpages] at hk
  by_cases hqp : q = p
  · rw [hqp, Function.update_self] at hk
    obtain rfl := Page.leaf.inj hk
    rw [hl]
    refine .inr ⟨⟨?_, Nat.lt_succ_self _⟩, r, ?_⟩
    · exact Nat.ne_of_gt (Nat.lt_of_le_of_lt (Nat.zero_le _) hp)
    · rw [hpages, Function.update_of_ne hne.symm, Function.update_self]
  · rw [Function.update_of_ne hqp] at hk
    by_cases hqn : q = s.numPages
    · rw [hqn, Function.update_self] at hk
      obtain rfl := Page.leaf.inj hk
      rw [hr]
      exact (h p n hn).imp id (hkept _)
    · rw [Function.update_of_ne hqn, alloc_pages, Function.update_of_ne hqn] at hk
      exact (h q k hk).imp id (hkept _)

end LeavesKept

/-! ### Insertions -/

section Insertion

variable {h : Nat} {root : Bool} {t : Branch} {e : RIDKeyPair} {c : PageKeyPair}

private theorem setBound_rightSib (n : LeafNodeInt) (i : Nat) : (n.setBound i).rightSibPageNo = n.rightSibPageNo := by
  simp [LeafNodeInt.setBound]

/-- `insertUnderNode` writes leaves where there were leaves, and non-leaves elsewhere; by induction on the levels. -/
theorem Ready.leavesKept (hr : Ready s h root t e) (hlinks : LeafLinks s)
    (hrun : insertUnderNode layer (h + 1) e t.page (h == 0) s = .ok c s') : LeavesKept s s' := by
  induction h generalizing root t c s' with
  | zero =>
    obtain ⟨n, es, hl⟩ : ∃ n es, IsLeaf s root t n es := hr.subtree
    have hpage : (s.pages t.page).asLeaf = n := by rw [hl.page, asLeaf_leaf]
    have hrun' := insertUnderNode_leaf 0 e t.page s hpage
    rw [show ((0 == 0) = true) from rfl, hrun'] at hrun
    have hentry : LeavesKept s (s.write t.page (.leaf (n.withEntry e))) := .writeLeaf hlinks hl.page (withEntry_rightSib n e)
    have hwritten : (s.write t.page (.leaf (n.withEntry e))).pages t.page = .leaf (n.withEntry e) :=
      Function.update_self ..
    by_cases hfull : n.entryNum = leafOccupancy
    · rw [if_pos hfull] at hrun
      obtain ⟨-, rfl⟩ := EStateM.Result.ok.inj hrun
      refine hentry.trans (.split hentry.links hwritten hr.page_lt ?_ ?_)
      · rw [LeafNodeInt.leftHalf_eq, setBound_rightSib]
        rfl
      · rw [LeafNodeInt.rightHalf_eq, setBound_rightSib]
    · rw [if_neg hfull] at hrun
      obtain ⟨-, rfl⟩ := EStateM.Result.ok.inj hrun
      exact hentry.trans (.writeLeaf hentry.links hwritten (setBound_rightSib ..))
  | succ h ih =>
    obtain ⟨n, keys, subs, hn, hsubs⟩ : ∃ n keys subs, IsNode s root (h == 0) t n keys subs ∧
        ∀ u ∈ subs, Subtree s h false u := hr.subtree
    obtain ⟨A, u, B, rfl, -, hpage, -⟩ := hn.childPos_split hr.sorted e.key
    obtain ⟨d, s₁, hcall, hins⟩ := insertUnderNode_spec (hr.sub hn hsubs)
    have hchild : LeavesKept s s₁ := ih (hr.sub hn hsubs) hcall
    obtain ⟨ts, hg⟩ := hins.grows
    have hold : s₁.pages t.page = .nonLeaf n :=
      (hg.frame _ hr.page_lt (hn.sub_page_ne hr.nodup (by simp))).trans hn.page
    have hnode : (s.pages t.page).asNonLeaf = n := by rw [hn.page, asNonLeaf_nonLeaf]
    have hnode₁ : (s₁.pages t.page).asNonLeaf = n := by rw [hold, asNonLeaf_nonLeaf]
    have hlevel : decide (n.level ≠ 0) = (h == 0) := by
      rw [hn.level]
      cases h <;> rfl
    have hcall' : insertUnderNode layer (h + 1) e (n.pageNoArray (n.childPos e.key)) (decide (n.level ≠ 0)) s =
        .ok d s₁ := by rw [hpage, hlevel, hcall]
    have hrun' := insertUnderNode_nonLeaf (h + 1) e t.page s hnode hcall' hnode₁
    rw [show ((h + 1 == 0) = false) from rfl, hrun'] at hrun
    have hno : ∀ m : LeafNodeInt, s₁.pages t.page ≠ .leaf m := fun m => by
      rw [hold]
      exact Page.noConfusion
    have hwrite : ∀ {s₂ : PageStore} (m : NonLeafNodeInt) {r : PageId}, LeafLinks s₂ →
        (∀ k, s₂.pages r ≠ .leaf k) → LeavesKept s₂ (s₂.write r (.nonLeaf m)) := fun m _ hlinks₂ hr =>
      .write hlinks₂ hr fun k => Page.noConfusion
    by_cases hd : d.pageNo = INVALID_NUMBER
    · rw [if_pos hd] at hrun
      obtain ⟨-, rfl⟩ := EStateM.Result.ok.inj hrun
      exact hchild
    · rw [if_neg hd] at hrun
      have hfirst := hchild.trans (hwrite (n.withChild d (n.childPos e.key)) hchild.links hno)
      by_cases hfull : n.entryNum = nodeOccupancy + 1
      · rw [if_pos hfull] at hrun
        obtain ⟨-, rfl⟩ := EStateM.Result.ok.inj hrun
        have hne : t.page ≠ s₁.numPages := Nat.ne_of_lt (Nat.lt_of_lt_of_le hr.page_lt hg.mono)
        have halloc := hfirst.trans (.alloc hfirst.links)
        refine halloc.trans ((hwrite _ halloc.links fun k => ?_).trans (hwrite _ (hwrite _ halloc.links fun k => ?_).links
          fun k => ?_))
        · rw [alloc_pages, write_numPages, Function.update_self]
          exact Page.noConfusion
        · rw [alloc_pages, write_numPages, Function.update_self]
          exact Page.noConfusion
        · rw [write_pages, Function.update_of_ne hne, alloc_pages, write_numPages, Function.update_of_ne hne, write_pages,
            Function.update_self]
          exact Page.noConfusion
      · rw [if_neg hfull] at hrun
        obtain ⟨-, rfl⟩ := EStateM.Result.ok.inj hrun
        refine hfirst.trans (hwrite _ hfirst.links fun k => ?_)
        rw [write_pages, Function.update_self]
        exact Page.noConfusion

/-- `insertEntry` keeps the leaves. -/
theorem Tree.leavesKept {w w' : World PageStore PageId} (ht : Tree w h t) (hlinks : LeafLinks w.pages) {key : Int}
    {rid : RecordId} (hrid : rid.page_number ≠ INVALID_NUMBER) (hrun : BTree.insertEntry layer key rid w = .ok () w') :
    LeavesKept w.pages w'.pages := by
  obtain ⟨m, c, s, -, hcall, hins, hne, hentry⟩ := ht.insertEntry_run key hrid
  have hnodes : LeavesKept w.pages s := (ht.ready key hrid).leavesKept hlinks hcall
  rw [hentry] at hrun
  by_cases hc : c.pageNo = INVALID_NUMBER
  · rw [if_pos hc] at hrun
    obtain ⟨-, rfl⟩ := EStateM.Result.ok.inj hrun
    exact hnodes
  · rw [if_neg hc] at hrun
    obtain ⟨-, rfl⟩ := EStateM.Result.ok.inj hrun
    obtain ⟨ts, hg⟩ := hins.grows
    obtain ⟨m', hm', -⟩ := ht.header
    have hheader : s.pages w.index.headerPageNum = .metaInfo m' := (hg.frame _ ht.header_lt ht.header_notMem).trans hm'
    have halloc := hnodes.trans (.alloc hnodes.links)
    have hroot : LeavesKept w.pages (s.alloc.write s.numPages (.nonLeaf
        (Page.fresh.asNonLeaf.asNewRoot t.page c (h == 0)))) :=
      halloc.trans (.write halloc.links (fun k => ?_) fun k => Page.noConfusion)
    · refine hroot.trans (.write hroot.links (fun k => ?_) fun k => Page.noConfusion)
      rw [write_pages, Function.update_of_ne hne, alloc_pages, Function.update_of_ne hne, hheader]
      exact Page.noConfusion
    · rw [alloc_pages, Function.update_self]
      exact Page.noConfusion

end Insertion

/-- The leaf of an index that was just created has no sibling. -/
theorem leafLinks_new (m : IndexMetaInfo) : LeafLinks (newPages m) := by
  intro p n hn
  have hpages : (newPages m).pages = Function.update (Function.update (Function.update (Function.update
      (Function.update created.pages 1 .fresh) 1 (.metaInfo m)) 2 .fresh) 1
      (.metaInfo { m with rootPageNo := 2, height := 1 })) 2
      (.leaf ({ Page.fresh.asLeaf with rightSibPageNo := INVALID_NUMBER }.setBound 0)) := rfl
  rw [hpages] at hn
  by_cases h2 : p = 2
  · rw [h2, Function.update_self] at hn
    obtain rfl := Page.leaf.inj hn
    exact .inl rfl
  · rw [Function.update_of_ne h2] at hn
    by_cases h1 : p = 1
    · rw [h1, Function.update_self] at hn
      cases hn
    · rw [Function.update_of_ne h1, Function.update_of_ne h2, Function.update_of_ne h1, Function.update_of_ne h1] at hn
      cases hn

end Cs564.BTree
