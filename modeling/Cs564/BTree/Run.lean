import Cs564.BTree.NodeLemmas
import Cs564.Lib.Run

/-!
# Running the index code on the plain page store

Equations for `PageStore.layer`, and from them what one call of `insertUnderNode` returns, with the
result of the recursive call given.
-/

namespace Cs564.BTree

@[simp] theorem run_setIndex {σ Ptr : Type} (f : BTreeIndex Ptr → BTreeIndex Ptr) (w : World σ Ptr) :
    setIndex f w = .ok () { w with index := f w.index } := rfl

namespace PageStore

@[simp] theorem layer_readPage (p : PageId) (s : PageStore) : layer.readPage p s = .ok p s := rfl

@[simp] theorem layer_allocPage (s : PageStore) : layer.allocPage s = .ok (s.numPages, s.numPages) s.alloc := rfl

@[simp] theorem layer_unPinPage (p : PageId) (dirty : Bool) (s : PageStore) : layer.unPinPage p dirty s = .ok () s := rfl

@[simp] theorem layer_flushFile (s : PageStore) : layer.flushFile s = .ok () s := rfl

@[simp] theorem deref_layer (p : PageId) (s : PageStore) : deref layer p s = .ok (s.pages p) s := rfl

@[simp] theorem assign_layer (p : PageId) (page : Page) (s : PageStore) :
    assign layer p page s = .ok () (s.write p page) := rfl

@[simp] theorem write_pages (s : PageStore) (p : PageId) (page : Page) :
    (s.write p page).pages = Function.update s.pages p page := rfl

@[simp] theorem write_numPages (s : PageStore) (p : PageId) (page : Page) : (s.write p page).numPages = s.numPages := rfl

@[simp] theorem alloc_pages (s : PageStore) : s.alloc.pages = Function.update s.pages s.numPages .fresh := rfl

@[simp] theorem alloc_numPages (s : PageStore) : s.alloc.numPages = s.numPages + 1 := rfl

end PageStore

open PageStore

theorem onPages_ok {σ Ptr α : Type} {m : EStateM Exc σ α} {w : World σ Ptr} {a : α} {s : σ} (h : m w.pages = .ok a s) :
    onPages m w = .ok a { w with pages := s } := by
  rw [onPages, h]

theorem onPages_error {σ Ptr α : Type} {m : EStateM Exc σ α} {w : World σ Ptr} {e : Exc} {s : σ}
    (h : m w.pages = .error e s) : onPages m w = .error e { w with pages := s } := by
  rw [onPages, h]

private theorem alloc_write_new (s : PageStore) (p : PageId) (page : Page) :
    (s.write p page).alloc.pages s.numPages = .fresh := Function.update_self ..

/-- `insertUnderNode` at a leaf. -/
theorem insertUnderNode_leaf (fuel : Nat) (e : RIDKeyPair) (p : PageId) (s : PageStore) {n : LeafNodeInt}
    (hp : (s.pages p).asLeaf = n) :
    insertUnderNode layer (fuel + 1) e p true s =
      if n.entryNum = leafOccupancy then
        .ok ⟨s.numPages, ((n.withEntry e).rightHalf Page.fresh.asLeaf).keyArray 0⟩
          (((s.write p (.leaf (n.withEntry e))).alloc.write s.numPages
            (.leaf ((n.withEntry e).rightHalf Page.fresh.asLeaf))).write p (.leaf ((n.withEntry e).leftHalf s.numPages)))
      else
        .ok ⟨INVALID_NUMBER, e.key⟩
          ((s.write p (.leaf (n.withEntry e))).write p (.leaf ((n.withEntry e).setBound (n.entryNum + 1)))) := by
  subst hp
  simp only [insertUnderNode, run_bind, layer_readPage, deref_layer, if_true, assign_layer]
  by_cases h : (s.pages p).asLeaf.entryNum = leafOccupancy
  · rw [if_pos h, if_pos h]
    simp only [run_bind, run_pure, layer_allocPage, deref_layer, assign_layer, layer_unPinPage, write_numPages]
    rw [alloc_write_new]
    rfl
  · rw [if_neg h, if_neg h]
    rfl

/-- `insertUnderNode` at a non-leaf, where the call for the child returned `c`. -/
theorem insertUnderNode_nonLeaf (fuel : Nat) (e : RIDKeyPair) (p : PageId) (s : PageStore) {n : NonLeafNodeInt}
    (hp : (s.pages p).asNonLeaf = n) {c : PageKeyPair} {s' : PageStore}
    (hc : insertUnderNode layer fuel e (n.pageNoArray (n.childPos e.key)) (decide (n.level ≠ 0)) s = .ok c s')
    {m : NonLeafNodeInt} (hm : (s'.pages p).asNonLeaf = m) :
    insertUnderNode layer (fuel + 1) e p false s =
      if c.pageNo = INVALID_NUMBER then .ok c s'
      else if m.entryNum = nodeOccupancy + 1 then
        .ok ⟨s'.numPages, (m.withChild c (n.childPos e.key)).newSlotKey⟩
          (((s'.write p (.nonLeaf (m.withChild c (n.childPos e.key)))).alloc.write s'.numPages
            (.nonLeaf ((m.withChild c (n.childPos e.key)).rightHalf Page.fresh.asNonLeaf))).write p
              (.nonLeaf (m.withChild c (n.childPos e.key)).leftHalf))
      else
        .ok ⟨INVALID_NUMBER, e.key⟩
          ((s'.write p (.nonLeaf (m.withChild c (n.childPos e.key)))).write p
            (.nonLeaf ((m.withChild c (n.childPos e.key)).setBound (m.entryNum + 1)))) := by
  subst hp hm
  simp only [insertUnderNode, run_bind, layer_readPage, deref_layer, Bool.false_eq_true, if_false, hc]
  by_cases h0 : c.pageNo = INVALID_NUMBER
  · rw [if_pos h0, if_pos h0]
    rfl
  · rw [if_neg h0, if_neg h0]
    simp only [run_bind, deref_layer, assign_layer]
    by_cases h : (s'.pages p).asNonLeaf.entryNum = nodeOccupancy + 1
    · rw [if_pos h, if_pos h]
      simp only [run_bind, run_pure, layer_allocPage, deref_layer, assign_layer, layer_unPinPage, write_numPages]
      rw [alloc_write_new]
      rfl
    · rw [if_neg h, if_neg h]
      rfl

/-- `insertEntry`, where `insertUnderNode` returned `c` for the root. -/
theorem insertEntry_eq (w : World PageStore PageId) (key : Int) (rid : RecordId) {m : IndexMetaInfo}
    (hm : (w.pages.pages w.index.headerPageNum).asMetaInfo = m) {c : PageKeyPair} {s : PageStore}
    (hc : insertUnderNode layer m.height.toNat ⟨rid, key⟩ w.index.rootPageNum (decide (m.height = 1)) w.pages = .ok c s)
    (hs : (s.pages w.index.headerPageNum).asMetaInfo = m) (hlt : w.index.headerPageNum ≠ s.numPages) :
    insertEntry layer key rid w =
      if c.pageNo = INVALID_NUMBER then .ok () { w with pages := s }
      else
        .ok ()
          { index := { w.index with rootPageNum := s.numPages }
            pages :=
              (s.alloc.write s.numPages
                (.nonLeaf (Page.fresh.asNonLeaf.asNewRoot w.index.rootPageNum c (decide (m.height = 1))))).write
                w.index.headerPageNum (.metaInfo { m with height := m.height + 1, rootPageNo := s.numPages }) } := by
  subst hm
  simp only [insertEntry, insertEntryWithin, run_bind, run_get, onPages, layer_readPage, deref_layer, hc]
  by_cases h0 : c.pageNo = INVALID_NUMBER
  · rw [if_pos h0, if_pos h0]
    rfl
  · rw [if_neg h0, if_neg h0]
    simp only [run_bind, onPages, layer_allocPage, deref_layer, assign_layer, run_setIndex, layer_unPinPage, write_pages,
      alloc_pages, Function.update_self, Function.update_of_ne hlt]
    rw [hs]

/-! ### The bounds on the depth -/

section Depth

variable {σ Ptr : Type} (M : PageLayer σ Ptr)

/-- One more level does not matter unless the depth was too small; by induction on the depth. -/
private theorem insertUnderNode_succ (fuel : Nat) (e : RIDKeyPair) (p : PageId) (isLeaf : Bool) (s : σ) :
    (∃ s', insertUnderNode M fuel e p isLeaf s = .error .outOfFuel s') ∨
      insertUnderNode M (fuel + 1) e p isLeaf s = insertUnderNode M fuel e p isLeaf s := by
  induction fuel generalizing p isLeaf s with
  | zero => exact .inl ⟨s, rfl⟩
  | succ fuel ih =>
    rw [insertUnderNode, insertUnderNode, run_bind, run_bind]
    cases M.readPage p s with
    | error x s₁ => exact .inr rfl
    | ok curPage s₁ =>
      dsimp only
      cases isLeaf with
      | true =>
        rw [if_pos rfl, if_pos rfl]
        exact .inr rfl
      | false =>
        rw [if_neg Bool.false_ne_true, if_neg Bool.false_ne_true, run_bind, run_bind, deref]
        dsimp only
        rw [run_bind, run_bind]
        rcases ih ((M.load curPage s₁).asNonLeaf.pageNoArray ((M.load curPage s₁).asNonLeaf.childPos e.key))
          (decide ((M.load curPage s₁).asNonLeaf.level ≠ 0)) s₁ with ⟨s', hout⟩ | heq
        · rw [hout]
          exact .inl ⟨s', rfl⟩
        · rw [heq]
          exact .inr rfl

theorem insertUnderNode_deeper {fuel fuel' : Nat} (hle : fuel ≤ fuel') (e : RIDKeyPair) (p : PageId) (isLeaf : Bool)
    (s : σ) :
    (∃ s', insertUnderNode M fuel e p isLeaf s = .error .outOfFuel s') ∨
      insertUnderNode M fuel' e p isLeaf s = insertUnderNode M fuel e p isLeaf s := by
  induction fuel', hle using Nat.le_induction with
  | base => exact .inr rfl
  | succ fuel' _ ih =>
    rcases ih with hout | heq
    · exact .inl hout
    · rcases insertUnderNode_succ M fuel' e p isLeaf s with ⟨s', hout⟩ | heq'
      · exact .inl ⟨s', heq ▸ hout⟩
      · exact .inr (heq'.trans heq)

/-- Another bound on the depth gives the same result, unless it is too small. -/
theorem insertEntryWithin_deeper {depth depth' : IndexMetaInfo → Nat} (hle : ∀ m, depth m ≤ depth' m) (key : Int)
    (rid : RecordId) (w : World σ Ptr) :
    (∃ w', insertEntryWithin M depth key rid w = .error .outOfFuel w') ∨
      insertEntryWithin M depth' key rid w = insertEntryWithin M depth key rid w := by
  rw [insertEntryWithin, insertEntryWithin, run_bind, run_bind, run_get]
  dsimp only
  rw [run_bind, run_bind]
  cases onPages (M.readPage w.index.headerPageNum) w with
  | error x w₁ => exact .inr rfl
  | ok metaPage w₁ =>
    dsimp only
    rw [run_bind, run_bind]
    cases onPages (deref M metaPage) w₁ with
    | error x w₂ => exact .inr rfl
    | ok page w₂ =>
      dsimp only
      rw [run_bind, run_bind, onPages, onPages]
      rcases insertUnderNode_deeper M (hle page.asMetaInfo) ⟨rid, key⟩ w.index.rootPageNum
        (decide (page.asMetaInfo.height = 1)) w₂.pages with ⟨s', hout⟩ | heq
      · rw [hout]
        exact .inl ⟨_, rfl⟩
      · rw [heq]
        exact .inr rfl

/-- Two bounds that are both large enough. -/
theorem insertEntryWithin_ok {depth depth' : IndexMetaInfo → Nat} {key : Int} {rid : RecordId} {w w₁ w₂ : World σ Ptr}
    (h₁ : insertEntryWithin M depth key rid w = .ok () w₁) (h₂ : insertEntryWithin M depth' key rid w = .ok () w₂) :
    w₁ = w₂ := by
  have hboth : ∀ {d : IndexMetaInfo → Nat} {v}, (∀ m, d m ≤ max (depth m) (depth' m)) →
      insertEntryWithin M d key rid w = .ok () v →
      insertEntryWithin M (fun m => max (depth m) (depth' m)) key rid w = .ok () v := by
    intro d v hle hrun
    rcases insertEntryWithin_deeper M hle key rid w with ⟨w', hout⟩ | heq
    · rw [hrun] at hout
      cases hout
    · rw [heq, hrun]
  have hleft := hboth (fun m => Nat.le_max_left ..) h₁
  rw [hboth (fun m => Nat.le_max_right ..) h₂] at hleft
  exact (EStateM.Result.ok.inj hleft).2.symm

end Depth

end Cs564.BTree
