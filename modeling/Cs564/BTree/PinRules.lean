import Cs564.BTree.Ledger
import Cs564.BTree.Run

/-!
# Insertions over a layer that counts pins

`Books` says that the calls of a layer move along a list of pins and a list of pages with changes that are not marked,
for as many pins as fit.  Over such a layer an insertion gives back all its pins and marks all its changes
(`Books.insertUnderNode`, `Books.insertEntryWithin`).
-/

namespace Cs564.BTree

/-! ### The data members -/

section At

variable {τ Ptr α β : Type} {this : BTreeIndex Ptr} {P : τ → Prop} {Q : α → τ → Prop} {E : Exc → τ → Prop}
  {post : α → World τ Ptr → Prop} {exc : Exc → World τ Ptr → Prop}

/-- The data members of the index are `this`, and the state below it is as `P` says. -/
def At (this : BTreeIndex Ptr) (P : τ → Prop) (w : World τ Ptr) : Prop := w.index = this ∧ P w.pages

theorem onPages_at {x : EStateM Exc τ α} (h : Triple P x Q E) (hexc : ∀ e w, w.index = this → E e w.pages → exc e w) :
    Triple (At this P) (onPages x) (fun a => At this (Q a)) exc := by
  intro w hw
  have hx := h w.pages hw.2
  rw [onPages]
  cases hrun : x w.pages with
  | ok a s =>
    rw [hrun] at hx
    exact ⟨hw.1, hx⟩
  | error e s =>
    rw [hrun] at hx
    exact hexc e _ hw.1 hx

theorem setIndex_at (f : BTreeIndex Ptr → BTreeIndex Ptr) :
    Triple (At this P) (setIndex f) (fun _ => At (f this) P) exc := by
  intro w hw
  exact ⟨congrArg f hw.1, hw.2⟩

end At

/-! ### Books -/

section Books

variable {τ : Type} {M : PageLayer τ FrameId} {I : List (PageId × FrameId) → List PageId → τ → Prop}
  {fits : List (PageId × FrameId) → Prop} {E : List (PageId × FrameId) → Exc → τ → Prop} {pins : List (PageId × FrameId)}
  {unsaved : List PageId} {p : PageId} {i : FrameId}

/-- The calls of the layer keep the books `I`.  With the pins `pins` they throw as `E pins` says, and one more pin can be
taken when `fits pins`. -/
structure Books (M : PageLayer τ FrameId) (I : List (PageId × FrameId) → List PageId → τ → Prop)
    (fits : List (PageId × FrameId) → Prop) (E : List (PageId × FrameId) → Exc → τ → Prop) : Prop where
  readPage : ∀ {pins unsaved} (p : PageId), fits pins → Triple (I pins unsaved) (M.readPage p)
    (fun i => I ((p, i) :: pins) unsaved) (E pins)
  allocPage : ∀ {pins unsaved}, fits pins → Triple (I pins unsaved) M.allocPage (fun new => I (new :: pins) unsaved) (E pins)
  unPinPage : ∀ {pins unsaved p i} (dirty : Bool) (unsaved' : List PageId),
    (∀ q ∈ unsaved, q ∈ unsaved' ∨ q = p ∧ dirty = true) → (∀ q ∈ unsaved', q ∈ pages pins) → ∀ {exc},
      Triple (I ((p, i) :: pins) unsaved) (M.unPinPage p dirty) (fun _ => I pins unsaved') exc
  assign : ∀ {pins unsaved p i}, (p, i) ∈ pins → ∀ (page : Page) {exc},
    Triple (I pins unsaved) (BTree.assign M i page) (fun _ => I pins (p :: unsaved)) exc
  perm : ∀ {pins pins' unsaved s}, I pins unsaved s → pins'.Perm pins → I pins' unsaved s
  unsaved : ∀ {pins unsaved s}, I pins unsaved s → ∀ q ∈ unsaved, q ∈ pages pins
  pop : ∀ {pins p i e s}, E ((p, i) :: pins) e s → E pins e s
  outOfFuel : ∀ {pins s}, E pins .outOfFuel s

namespace Books

theorem deref {exc : Exc → τ → Prop} (i : FrameId) : Triple (I pins unsaved) (BTree.deref M i)
    (fun _ => I pins unsaved) exc :=
  fun _ h => h

variable (b : Books M I fits E)
include b

/-- The two halves of a split node are written and given back, the new one first. -/
private theorem split {q : PageId} {j : FrameId} (page₁ page₂ : Page) {α : Type} (c : α)
    (hunsaved : ∀ r ∈ unsaved, r ∈ pages pins) {exc : Exc → τ → Prop} :
    Triple (I ((q, j) :: (p, i) :: pins) (p :: unsaved))
      (do BTree.assign M j page₂
          BTree.assign M i page₁
          M.unPinPage q true
          M.unPinPage p true
          pure c)
      (fun _ => I pins unsaved) exc := by
  refine (b.assign List.mem_cons_self page₂).bind fun _ => ?_
  refine (b.assign (List.mem_cons_of_mem _ List.mem_cons_self) page₁).bind fun _ => ?_
  refine Triple.bind (b.unPinPage true (p :: unsaved) (fun r hr => ?_) fun r hr => ?_) fun _ => ?_
  · simp only [List.mem_cons] at hr ⊢
    tauto
  · rw [pages_cons]
    simp only [List.mem_cons] at hr ⊢
    exact hr.imp id (hunsaved r)
  · refine Triple.bind (b.unPinPage true unsaved (fun r hr => ?_) hunsaved) fun _ => .pure fun _ h => h
    rcases List.mem_cons.mp hr with rfl | hr
    · exact .inr ⟨rfl, rfl⟩
    · exact .inl hr

/-- A node that was not split is written and given back. -/
private theorem whole (page : Page) {α : Type} (c : α) (hunsaved : ∀ r ∈ unsaved, r ∈ pages pins) {exc : Exc → τ → Prop} :
    Triple (I ((p, i) :: pins) (p :: unsaved))
      (do BTree.assign M i page
          M.unPinPage p true
          pure c)
      (fun _ => I pins unsaved) exc := by
  refine (b.assign List.mem_cons_self page).bind fun _ => ?_
  refine Triple.bind (b.unPinPage true unsaved (fun r hr => ?_) hunsaved) fun _ => .pure fun _ h => h
  simp only [List.mem_cons] at hr
  tauto

set_option maxRecDepth 4000 in
/-- `insertUnderNode` gives back its pins; by induction on the depth. -/
theorem insertUnderNode (fuel : Nat) (e : RIDKeyPair) (p : PageId) (isLeaf : Bool) (pins : List (PageId × FrameId))
    (unsaved : List PageId) (hfits : ∀ more, more.length ≤ fuel → fits (more ++ pins)) :
    Triple (I pins unsaved) (BTree.insertUnderNode M fuel e p isLeaf) (fun _ => I pins unsaved) (E pins) := by
  induction fuel generalizing p isLeaf pins unsaved with
  | zero => exact .throw fun _ _ => b.outOfFuel
  | succ fuel ih =>
    rw [BTree.insertUnderNode]
    intro s hs
    have hunsaved := b.unsaved hs
    refine Triple.bind (b.readPage p (hfits [] (Nat.zero_le _))) (fun i => ?_) s hs
    have halloc : Triple (I ((p, i) :: pins) (p :: unsaved)) M.allocPage
        (fun new => I (new :: (p, i) :: pins) (p :: unsaved)) (E pins) :=
      (b.allocPage (hfits [(p, i)] (Nat.succ_le_succ (Nat.zero_le _)))).conseq (fun _ h => h) (fun _ _ h => h)
        fun _ _ h => b.pop h
    cases isLeaf with
    | true =>
      rw [if_pos rfl]
      refine Triple.bind (deref i) fun page => ?_
      refine Triple.bind (b.assign List.mem_cons_self _) fun _ => ?_
      split
      · refine Triple.bind halloc fun new => ?_
        refine Triple.bind (deref new.2) fun newPage => ?_
        exact b.split _ _ _ hunsaved
      · exact b.whole _ _ hunsaved
    | false =>
      rw [if_neg Bool.false_ne_true]
      refine Triple.bind (deref i) fun page => ?_
      have hbelow : ∀ more : List (PageId × FrameId), more.length ≤ fuel → fits (more ++ (p, i) :: pins) := by
        intro more hmore
        rw [List.append_cons]
        refine hfits _ ?_
        rw [List.length_append]
        exact Nat.succ_le_succ hmore
      have hcall := (ih (page.asNonLeaf.pageNoArray (page.asNonLeaf.childPos e.key))
        (decide (page.asNonLeaf.level ≠ 0)) ((p, i) :: pins) unsaved hbelow).conseq (fun _ h => h) (fun _ _ h => h)
          fun _ _ h => b.pop h
      refine Triple.bind hcall fun c => ?_
      split
      · refine Triple.bind (b.unPinPage false unsaved (fun r hr => .inl hr) hunsaved) fun _ => .pure fun _ h => h
      · refine Triple.bind (deref i) fun page' => ?_
        refine Triple.bind (b.assign List.mem_cons_self _) fun _ => ?_
        split
        · refine Triple.bind halloc fun new => ?_
          refine Triple.bind (deref new.2) fun newPage => ?_
          exact b.split _ _ _ hunsaved
        · exact b.whole _ _ hunsaved

set_option maxRecDepth 4000 in
/-- `insertEntry`, once the header page has been read. -/
theorem insertEntryWithin {w : World τ FrameId} (depth : IndexMetaInfo → Nat) (key : Int) (rid : RecordId)
    {i : FrameId} {s : τ}
    (hread : M.readPage w.index.headerPageNum w.pages = .ok i s) (hs : I ((w.index.headerPageNum, i) :: pins) unsaved s)
    (hunsaved : ∀ r ∈ unsaved, r ∈ pages pins)
    (hfits : ∀ more, more.length ≤ depth (M.load i s).asMetaInfo + 1 → fits (more ++ pins)) :
    Ends (fun _ w' => (∃ r, w'.index = { w.index with rootPageNum := r }) ∧ I pins unsaved w'.pages)
      (fun e w' => E ((w.index.headerPageNum, i) :: pins) e w'.pages) (BTree.insertEntryWithin M depth key rid w) := by
  rw [BTree.insertEntryWithin, run_bind_ok (run_get w)]
  dsimp only
  rw [run_bind_ok (onPages_ok hread)]
  have hthrows : ∀ (this : BTreeIndex FrameId) e (w' : World τ FrameId), w'.index = this →
      E ((w.index.headerPageNum, i) :: pins) e w'.pages → E ((w.index.headerPageNum, i) :: pins) e w'.pages :=
    fun _ _ _ _ h => h
  have hheader : (w.index.headerPageNum, i) ∈ (w.index.headerPageNum, i) :: pins := List.mem_cons_self
  have hderef : onPages (BTree.deref M i) { w with pages := s } = .ok (M.load i s) { w with pages := s } := rfl
  rw [run_bind_ok hderef]
  have hbelow : ∀ more : List (PageId × FrameId), more.length ≤ depth (M.load i s).asMetaInfo →
      fits (more ++ (w.index.headerPageNum, i) :: pins) := by
    intro more hmore
    rw [List.append_cons]
    refine hfits _ ?_
    rw [List.length_append]
    exact Nat.succ_le_succ hmore
  refine Triple.bind (onPages_at (b.insertUnderNode _ _ _ _ _ _ hbelow) (hthrows _)) (fun newChild => ?_)
    { w with pages := s } ⟨rfl, hs⟩
  split
  · refine (onPages_at (b.unPinPage false unsaved (fun r hr => .inl hr) hunsaved) (hthrows _)).conseq (fun _ h => h)
      (fun _ w' h => ⟨⟨w.index.rootPageNum, h.1⟩, h.2⟩) fun _ _ h => h
  · refine Triple.bind (onPages_at (b.allocPage (hbelow [] (Nat.zero_le _))) (hthrows _)) fun new => ?_
    refine Triple.bind (onPages_at (deref new.2) (hthrows _)) fun newRootPage => ?_
    refine Triple.bind (onPages_at (b.assign List.mem_cons_self _) (hthrows _)) fun _ => ?_
    refine Triple.bind (setIndex_at _) fun _ => ?_
    refine Triple.bind (onPages_at (deref i) (hthrows _)) fun metaPage => ?_
    refine Triple.bind (onPages_at (b.assign (List.mem_cons_of_mem _ hheader) _) (hthrows _)) fun _ => ?_
    -- the header page is given back before the new root
    refine Triple.bind ((onPages_at (b.unPinPage true (new.1 :: unsaved) (fun r hr => ?_) fun r hr => ?_)
      (hthrows _)).weaken fun w' h => ⟨h.1, b.perm h.2 (List.Perm.swap ..)⟩) fun _ => ?_
    · simp only [List.mem_cons] at hr ⊢
      tauto
    · rw [pages_cons]
      simp only [List.mem_cons] at hr ⊢
      exact hr.imp id (hunsaved r)
    · refine (onPages_at (b.unPinPage true unsaved (fun r hr => ?_) hunsaved) (hthrows _)).conseq
        (fun _ h => h) (fun _ w' h => ⟨⟨new.1, h.1⟩, h.2⟩) fun _ _ h => h
      simp only [List.mem_cons] at hr
      tauto

/-! ### The constructor -/

/-- The two pages of a new index stay pinned, and their first bytes are not marked yet. -/
theorem constructPages (hone : fits []) (htwo : ∀ x, fits [x]) (relationName : Nat → Nat) (nameLength : Nat)
    (attrByteOffset : Int) (attrType : Datatype) :
    Triple (fun w => I [] [] w.pages) (BTree.constructPages M relationName nameLength attrByteOffset attrType)
      (fun ids w => w.index.scanExecuting = false ∧ w.index.headerPageNum = ids.1 ∧
        ∃ i j, I [(ids.2, j), (ids.1, i)] [ids.2, ids.1, ids.1] w.pages)
      (fun e w => E [] e w.pages) := by
  have hthrows : ∀ (this : BTreeIndex FrameId) e (w : World τ FrameId), w.index = this → E [] e w.pages → E [] e w.pages :=
    fun _ _ _ _ h => h
  have hthrows₁ : ∀ (x : PageId × FrameId) (this : BTreeIndex FrameId) e (w : World τ FrameId), w.index = this →
      E [x] e w.pages → E [] e w.pages := fun _ _ _ _ _ h => b.pop h
  rw [BTree.constructPages]
  intro w hw
  refine Triple.bind (onPages_at (b.allocPage hone) (hthrows _)) (fun new => ?_) w (⟨rfl, hw⟩ : At w.index (I [] []) w)
  refine Triple.bind (setIndex_at _) fun _ => ?_
  refine Triple.bind (onPages_at (deref _) (hthrows _)) fun page => ?_
  refine Triple.bind (onPages_at (b.assign List.mem_cons_self _) (hthrows _)) fun _ => ?_
  refine Triple.bind (onPages_at (b.allocPage (htwo _)) (hthrows₁ _ _)) fun root => ?_
  refine Triple.bind (onPages_at (b.assign (List.mem_cons_of_mem _ List.mem_cons_self) _) (hthrows _)) fun _ => ?_
  refine Triple.bind (setIndex_at _) fun _ => ?_
  refine Triple.bind (onPages_at (deref _) (hthrows _)) fun page' => ?_
  refine Triple.bind (onPages_at (b.assign List.mem_cons_self _) (hthrows _)) fun _ => ?_
  refine Triple.pure fun w' h => ?_
  obtain ⟨hindex, hpages⟩ := h
  exact ⟨by rw [hindex], by rw [hindex], new.2, root.2, hpages⟩

/-- The two pages are given back with their changes. -/
theorem constructEnd {this : BTreeIndex FrameId} {metaPageId rootPageId : PageId} {j : FrameId} {Q : τ → Prop}
    {exc : Exc → World τ FrameId → Prop} (hflush : Triple (I [] []) M.flushFile (fun _ => Q) fun _ _ => False) :
    Triple (At this (I [(rootPageId, j), (metaPageId, i)] unsaved)) (BTree.constructEnd M metaPageId rootPageId)
      (fun _ => At this Q) exc := by
  intro w hw
  have hunsaved := b.unsaved hw.2
  have hno : ∀ e (w : World τ FrameId), w.index = this → False → exc e w := fun _ _ _ h => h.elim
  have hmeta : Triple (I ((metaPageId, i) :: [(rootPageId, j)]) unsaved) (M.unPinPage metaPageId true)
      (fun _ => I [(rootPageId, j)] [rootPageId]) fun _ _ => False := by
    have hpinned : ∀ q ∈ [rootPageId], q ∈ pages [(rootPageId, j)] := fun q hq => hq
    refine b.unPinPage true [rootPageId] (fun q hq => ?_) hpinned
    have hmem := hunsaved q hq
    simp only [pages, List.map_cons, List.map_nil, List.mem_cons, List.not_mem_nil, or_false] at hmem
    rcases hmem with rfl | rfl
    · exact .inl List.mem_cons_self
    · exact .inr ⟨rfl, rfl⟩
  have hroot : Triple (I [(rootPageId, j)] [rootPageId]) (M.unPinPage rootPageId true) (fun _ => I [] [])
      fun _ _ => False :=
    b.unPinPage true [] (fun q hq => .inr ⟨List.mem_singleton.mp hq, rfl⟩) fun q hq => absurd hq List.not_mem_nil
  rw [BTree.constructEnd]
  refine Triple.bind ((onPages_at hmeta hno).weaken fun w h => ⟨h.1, b.perm h.2 (List.Perm.swap ..)⟩) (fun _ => ?_) w hw
  exact Triple.bind (onPages_at hroot hno) fun _ => onPages_at hflush hno

end Books

end Books

end Cs564.BTree
