import Cs564.BTree.Contents
import Cs564.Lib.CheckedArrays

/-!
# The bounds of the node arrays

The recursion of `insertUnderNode` once more, with every access to the arrays of a node checked: a leaf has 682 slots for
keys and record ids, a non-leaf 1023 slots for keys and 1024 for page numbers.  A node is filled to its last slot before
it is split, and the loops run to its end mark.  On every index the checks find nothing (`insertEntry_inside`).
-/

namespace Cs564.BTree

open PageStore

/-! ### Leaves -/

namespace LeafNodeInt

/-- The number of slots in this node. -/
def checkedEntryNum (curNode : LeafNodeInt) : Option Nat :=
  searchFrom (fun i => do
    let rid ← readAt INTARRAYLEAFSIZE curNode.ridArray i
    return rid.page_number == 0) (leafOccupancy + 1) 0

/-- The position to insert a key. -/
def checkedInsertPos (curNode : LeafNodeInt) (key : Int) : Option Nat :=
  searchFrom (fun i => do
    let currKey ← readAt INTARRAYLEAFSIZE curNode.keyArray i
    if key < currKey then return true
    let rid ← readAt INTARRAYLEAFSIZE curNode.ridArray i
    return rid.page_number == 0) (leafOccupancy + 1) 0

/-- Makes room at `pos` and writes the entry there. -/
def checkedInsertAt (curNode : LeafNodeInt) (entry : RIDKeyPair) (entryNum pos : Nat) : Option LeafNodeInt := do
  let curNode ←
    if pos < leafOccupancy then do
      let keyArray ← copyBlock INTARRAYLEAFSIZE curNode.keyArray pos INTARRAYLEAFSIZE curNode.keyArray (pos + 1)
        ((entryNum : Int) - pos)
      let ridArray ← copyBlock INTARRAYLEAFSIZE curNode.ridArray pos INTARRAYLEAFSIZE curNode.ridArray (pos + 1)
        ((entryNum : Int) - pos)
      pure { curNode with keyArray := keyArray, ridArray := ridArray }
    else pure curNode
  let keyArray ← writeAt INTARRAYLEAFSIZE curNode.keyArray pos entry.key
  let ridArray ← writeAt INTARRAYLEAFSIZE curNode.ridArray pos entry.rid
  return { curNode with keyArray := keyArray, ridArray := ridArray }

/-- Writes the end mark `[INT_MAX, Page::INVALID_NUMBER]` at `i`. -/
def checkedSetBound (curNode : LeafNodeInt) (i : Nat) : Option LeafNodeInt := do
  let rid ← readAt INTARRAYLEAFSIZE curNode.ridArray i
  let ridArray ← writeAt INTARRAYLEAFSIZE curNode.ridArray i { rid with page_number := INVALID_NUMBER }
  let keyArray ← writeAt INTARRAYLEAFSIZE curNode.keyArray i INT_MAX
  return { curNode with keyArray := keyArray, ridArray := ridArray }

/-- The new right sibling of a split leaf. -/
def checkedRightHalf (curNode newRightSibling : LeafNodeInt) : Option LeafNodeInt := do
  let keyArray ← copyBlock INTARRAYLEAFSIZE curNode.keyArray (leafOccupancy / 2 + 1) INTARRAYLEAFSIZE
    newRightSibling.keyArray 0 ((leafOccupancy + 1) / 2 : Nat)
  let ridArray ← copyBlock INTARRAYLEAFSIZE curNode.ridArray (leafOccupancy / 2 + 1) INTARRAYLEAFSIZE
    newRightSibling.ridArray 0 ((leafOccupancy + 1) / 2 : Nat)
  checkedSetBound ⟨keyArray, ridArray, curNode.rightSibPageNo⟩ ((leafOccupancy + 1) / 2)

/-- What stays in a split leaf. -/
def checkedLeftHalf (curNode : LeafNodeInt) (newPageId : PageId) : Option LeafNodeInt :=
  checkedSetBound { curNode with rightSibPageNo := newPageId } (leafOccupancy / 2 + 1)

end LeafNodeInt

section Leaf

variable {n : LeafNodeInt} {es : List RIDKeyPair}

private theorem leafSize_eq : INTARRAYLEAFSIZE = 682 := rfl

theorem LeafHolds.checkedEntryNum (h : LeafHolds n es) : n.checkedEntryNum = some n.entryNum := by
  have hsize := h.size
  have hnum := h.entryNum_eq
  have htest : ∀ m < leafOccupancy + 1, (do
      let rid ← readAt INTARRAYLEAFSIZE n.ridArray m
      return rid.page_number == 0) = some ((n.ridArray m).page_number == 0) := fun m hm => by
    have hlt : m < INTARRAYLEAFSIZE := hm
    rw [readAt_eq hlt]
    rfl
  exact searchFrom_firstIndex htest (show n.entryNum < _ by omega)

theorem LeafHolds.insertPos_le (h : LeafHolds n es) (key : Int) : n.insertPos key ≤ es.length := by
  rw [h.insertPos_eq]
  exact (List.takeWhile_sublist _).length_le

theorem LeafHolds.checkedInsertPos (h : LeafHolds n es) (key : Int) :
    n.checkedInsertPos key = some (n.insertPos key) := by
  have hsize := h.size
  have hpos := h.insertPos_le key
  have htest : ∀ m < leafOccupancy + 1, (do
      let currKey ← readAt INTARRAYLEAFSIZE n.keyArray m
      if key < currKey then return true
      let rid ← readAt INTARRAYLEAFSIZE n.ridArray m
      return rid.page_number == 0) = some (decide (key < n.keyArray m) || (n.ridArray m).page_number == 0) := fun m hm => by
    have hlt : m < INTARRAYLEAFSIZE := hm
    rw [readAt_eq hlt, readAt_eq hlt]
    by_cases hkey : key < n.keyArray m
    · simp [hkey]
    · simp [hkey]
  exact searchFrom_firstIndex htest (show n.insertPos key < _ by omega)

theorem LeafNodeInt.checkedInsertAt_eq (n : LeafNodeInt) (e : RIDKeyPair) {entryNum pos : Nat} (hpos : pos ≤ entryNum)
    (hnum : entryNum ≤ leafOccupancy) : n.checkedInsertAt e entryNum pos = some (n.insertAt e entryNum pos) := by
  have hsize := leafSize_eq
  have hocc := leafOccupancy_eq
  have hwrite : ∀ m : LeafNodeInt, (do
      let keyArray ← writeAt INTARRAYLEAFSIZE m.keyArray pos e.key
      let ridArray ← writeAt INTARRAYLEAFSIZE m.ridArray pos e.rid
      return { m with keyArray := keyArray, ridArray := ridArray }) = some
        { m with keyArray := Function.update m.keyArray pos e.key, ridArray := Function.update m.ridArray pos e.rid } := by
    intro m
    rw [writeAt_eq (by omega), writeAt_eq (by omega)]
    rfl
  unfold LeafNodeInt.checkedInsertAt LeafNodeInt.insertAt
  by_cases hp : pos < leafOccupancy
  · simp only [if_pos hp]
    rw [copyBlock_eq (by omega) (by omega) (by omega), copyBlock_eq (by omega) (by omega) (by omega)]
    exact hwrite _
  · simp only [if_neg hp]
    exact hwrite n

theorem LeafNodeInt.checkedSetBound_eq (n : LeafNodeInt) {i : Nat} (hi : i ≤ leafOccupancy) :
    n.checkedSetBound i = some (n.setBound i) := by
  have hlt : i < INTARRAYLEAFSIZE := Nat.lt_succ_of_le hi
  rw [LeafNodeInt.checkedSetBound, readAt_eq hlt, Option.bind_eq_bind, Option.bind_some, writeAt_eq hlt, writeAt_eq hlt]
  rfl

theorem LeafNodeInt.checkedRightHalf_eq (n m : LeafNodeInt) : n.checkedRightHalf m = some (n.rightHalf m) := by
  have hsize := leafSize_eq
  unfold LeafNodeInt.checkedRightHalf LeafNodeInt.rightHalf
  rw [copyBlock_eq (by simp) (by simp [hsize]) (by simp [hsize]),
    copyBlock_eq (by simp) (by simp [hsize]) (by simp [hsize])]
  simp only [Option.bind_eq_bind, Option.bind_some]
  exact LeafNodeInt.checkedSetBound_eq _ (show (leafOccupancy + 1) / 2 ≤ leafOccupancy by simp)

theorem LeafNodeInt.checkedLeftHalf_eq (n : LeafNodeInt) (q : PageId) : n.checkedLeftHalf q = some (n.leftHalf q) :=
  LeafNodeInt.checkedSetBound_eq _ (show leafOccupancy / 2 + 1 ≤ leafOccupancy by simp)

end Leaf

/-! ### Non-leaves -/

namespace NonLeafNodeInt

/-- The position of the page number to go down the tree. -/
def checkedChildPos (curNode : NonLeafNodeInt) (key : Int) : Option Nat :=
  searchFrom (fun i => do
    let currKey ← readAt INTARRAYNONLEAFSIZE curNode.keyArray i
    if key < currKey then return true
    let pageNo ← readAt (INTARRAYNONLEAFSIZE + 1) curNode.pageNoArray (i + 1)
    return pageNo == 0) (nodeOccupancy + 1) 0

/-- How many children the node has. -/
def checkedEntryNum (curNode : NonLeafNodeInt) : Option Nat :=
  searchFrom (fun i => do
    let pageNo ← readAt (INTARRAYNONLEAFSIZE + 1) curNode.pageNoArray i
    return pageNo == INVALID_NUMBER) (nodeOccupancy + 2) 0

/-- Makes room behind child `pos` and writes the new child there. -/
def checkedInsertAt (curNode : NonLeafNodeInt) (newChild : PageKeyPair) (entryNum pos : Nat) : Option NonLeafNodeInt := do
  let curNode ←
    if pos < nodeOccupancy then do
      let keyArray ← copyBlock INTARRAYNONLEAFSIZE curNode.keyArray pos INTARRAYNONLEAFSIZE curNode.keyArray (pos + 1)
        ((entryNum : Int) - 1 - pos)
      let pageNoArray ← copyBlock (INTARRAYNONLEAFSIZE + 1) curNode.pageNoArray (pos + 1) (INTARRAYNONLEAFSIZE + 1)
        curNode.pageNoArray (pos + 2) ((entryNum : Int) - 1 - pos)
      pure { curNode with keyArray := keyArray, pageNoArray := pageNoArray }
    else pure curNode
  let keyArray ← writeAt INTARRAYNONLEAFSIZE curNode.keyArray pos newChild.key
  let pageNoArray ← writeAt (INTARRAYNONLEAFSIZE + 1) curNode.pageNoArray (pos + 1) newChild.pageNo
  return { curNode with keyArray := keyArray, pageNoArray := pageNoArray }

/-- Writes the end mark behind the `children`-th child. -/
def checkedSetBound (curNode : NonLeafNodeInt) (children : Nat) : Option NonLeafNodeInt := do
  let pageNoArray ← writeAt (INTARRAYNONLEAFSIZE + 1) curNode.pageNoArray children INVALID_NUMBER
  let keyArray ← writeAt INTARRAYNONLEAFSIZE curNode.keyArray (children - 1) INT_MAX
  return { curNode with keyArray := keyArray, pageNoArray := pageNoArray }

/-- The new right sibling of a split node. -/
def checkedRightHalf (curNode newRightSibling : NonLeafNodeInt) : Option NonLeafNodeInt := do
  let keyArray ← copyBlock INTARRAYNONLEAFSIZE curNode.keyArray ((nodeOccupancy + 1) / 2 + 1) INTARRAYNONLEAFSIZE
    newRightSibling.keyArray 0 (nodeOccupancy / 2 : Nat)
  let pageNoArray ← copyBlock (INTARRAYNONLEAFSIZE + 1) curNode.pageNoArray ((nodeOccupancy + 1) / 2 + 1)
    (INTARRAYNONLEAFSIZE + 1) newRightSibling.pageNoArray 0 (nodeOccupancy / 2 + 1 : Nat)
  checkedSetBound ⟨curNode.level, keyArray, pageNoArray⟩ (nodeOccupancy / 2 + 1)

/-- What stays in a split node. -/
def checkedLeftHalf (curNode : NonLeafNodeInt) : Option NonLeafNodeInt :=
  curNode.checkedSetBound ((nodeOccupancy + 1) / 2 + 1)

end NonLeafNodeInt

section NonLeaf

variable {n : NonLeafNodeInt} {keys : List Int} {kids : List PageId}

private theorem nonLeafSize_eq : INTARRAYNONLEAFSIZE = 1023 := rfl

theorem NodeHolds.childPos_lt (h : NodeHolds n keys kids) (key : Int) : n.childPos key < kids.length := by
  have hlen := h.len
  have hle := (keys.takeWhile_sublist fun x => decide (x ≤ key)).length_le
  rw [h.childPos_eq]
  omega

theorem NodeHolds.checkedChildPos (h : NodeHolds n keys kids) (key : Int) :
    n.checkedChildPos key = some (n.childPos key) := by
  have hsize := h.size
  have hpos := h.childPos_lt key
  have htest : ∀ m < nodeOccupancy + 1, (do
      let currKey ← readAt INTARRAYNONLEAFSIZE n.keyArray m
      if key < currKey then return true
      let pageNo ← readAt (INTARRAYNONLEAFSIZE + 1) n.pageNoArray (m + 1)
      return pageNo == 0) = some (decide (key < n.keyArray m) || n.pageNoArray (m + 1) == 0) := fun m hm => by
    have hlt : m < INTARRAYNONLEAFSIZE := hm
    rw [readAt_eq hlt, readAt_eq (Nat.succ_lt_succ hlt)]
    by_cases hkey : key < n.keyArray m
    · simp [hkey]
    · simp [hkey]
  exact searchFrom_firstIndex htest (show n.childPos key < _ by omega)

theorem NodeHolds.checkedEntryNum (h : NodeHolds n keys kids) : n.checkedEntryNum = some n.entryNum := by
  have hsize := h.size
  have hnum := h.entryNum_eq
  have htest : ∀ m < nodeOccupancy + 2, (do
      let pageNo ← readAt (INTARRAYNONLEAFSIZE + 1) n.pageNoArray m
      return pageNo == INVALID_NUMBER) = some (n.pageNoArray m == INVALID_NUMBER) := fun m hm => by
    have hlt : m < INTARRAYNONLEAFSIZE + 1 := hm
    rw [readAt_eq hlt]
    rfl
  exact searchFrom_firstIndex htest (show n.entryNum < _ by omega)

theorem NonLeafNodeInt.checkedInsertAt_eq (n : NonLeafNodeInt) (c : PageKeyPair) {entryNum pos : Nat}
    (hpos : pos < entryNum) (hnum : entryNum ≤ nodeOccupancy + 1) :
    n.checkedInsertAt c entryNum pos = some (n.insertAt c entryNum pos) := by
  have hsize := nonLeafSize_eq
  have hocc := nodeOccupancy_eq
  have hwrite : ∀ m : NonLeafNodeInt, (do
      let keyArray ← writeAt INTARRAYNONLEAFSIZE m.keyArray pos c.key
      let pageNoArray ← writeAt (INTARRAYNONLEAFSIZE + 1) m.pageNoArray (pos + 1) c.pageNo
      return { m with keyArray := keyArray, pageNoArray := pageNoArray }) = some
        { m with
          keyArray := Function.update m.keyArray pos c.key
          pageNoArray := Function.update m.pageNoArray (pos + 1) c.pageNo } := by
    intro m
    rw [writeAt_eq (by omega), writeAt_eq (by omega)]
    rfl
  unfold NonLeafNodeInt.checkedInsertAt NonLeafNodeInt.insertAt
  by_cases hp : pos < nodeOccupancy
  · simp only [if_pos hp]
    rw [copyBlock_eq (by omega) (by omega) (by omega), copyBlock_eq (by omega) (by omega) (by omega)]
    exact hwrite _
  · simp only [if_neg hp]
    exact hwrite n

theorem NonLeafNodeInt.checkedSetBound_eq (n : NonLeafNodeInt) {children : Nat} (hc : children ≤ nodeOccupancy + 1) :
    n.checkedSetBound children = some (n.setBound children) := by
  have hsize := nonLeafSize_eq
  have hocc := nodeOccupancy_eq
  rw [NonLeafNodeInt.checkedSetBound, writeAt_eq (by omega), writeAt_eq (by omega)]
  rfl

theorem NonLeafNodeInt.checkedRightHalf_eq (n m : NonLeafNodeInt) : n.checkedRightHalf m = some (n.rightHalf m) := by
  have hsize := nonLeafSize_eq
  unfold NonLeafNodeInt.checkedRightHalf NonLeafNodeInt.rightHalf
  rw [copyBlock_eq (by simp) (by simp [hsize]) (by simp [hsize]),
    copyBlock_eq (by simp) (by simp [hsize]) (by simp [hsize])]
  simp only [Option.bind_eq_bind, Option.bind_some]
  exact NonLeafNodeInt.checkedSetBound_eq _ (show nodeOccupancy / 2 + 1 ≤ nodeOccupancy + 1 by simp)

theorem NonLeafNodeInt.checkedLeftHalf_eq (n : NonLeafNodeInt) : n.checkedLeftHalf = some n.leftHalf :=
  NonLeafNodeInt.checkedSetBound_eq _ (show (nodeOccupancy + 1) / 2 + 1 ≤ nodeOccupancy + 1 by simp)

end NonLeaf

/-! ### The recursion -/

/-- How checked code ends if it does not return. -/
inductive Fault
  | overrun
  | exc (e : Exc)
deriving DecidableEq, Repr

section Code

variable {σ Ptr α : Type} (L : PageLayer σ Ptr)

/-- A call of the layer below. -/
def call (x : EStateM Exc σ α) : EStateM Fault σ α := fun s =>
  match x s with
  | .ok a s => .ok a s
  | .error e s => .error (.exc e) s

/-- Work on the arrays of a node. -/
def inside (x : Option α) : EStateM Fault σ α :=
  match x with
  | some a => pure a
  | none => throw .overrun

/-- `BTreeIndex::insertUnderNode`, with the bounds of the arrays. -/
def checkedInsertUnderNode : Nat → RIDKeyPair → PageId → Bool → EStateM Fault σ PageKeyPair
  | 0, _, _, _ => throw (.exc .outOfFuel)
  | fuel + 1, entry, curPageId, isLeaf => do
    let curPage ← call (L.readPage curPageId)
    if isLeaf then
      let curNode := (← call (deref L curPage)).asLeaf
      let entryNum ← inside curNode.checkedEntryNum
      let pos ← inside (curNode.checkedInsertPos entry.key)
      let curNode ← inside (curNode.checkedInsertAt entry entryNum pos)
      call (assign L curPage (.leaf curNode))
      if entryNum = leafOccupancy then
        let (newPageId, newPage) ← call L.allocPage
        let newRightSibling ← inside (curNode.checkedRightHalf (← call (deref L newPage)).asLeaf)
        call (assign L newPage (.leaf newRightSibling))
        let curNode ← inside (curNode.checkedLeftHalf newPageId)
        call (assign L curPage (.leaf curNode))
        call (L.unPinPage newPageId true)
        let newKey ← inside (readAt INTARRAYLEAFSIZE newRightSibling.keyArray 0)
        call (L.unPinPage curPageId true)
        return ⟨newPageId, newKey⟩
      else
        let curNode ← inside (curNode.checkedSetBound (entryNum + 1))
        call (assign L curPage (.leaf curNode))
        call (L.unPinPage curPageId true)
        return ⟨INVALID_NUMBER, entry.key⟩
    else
      let curNode := (← call (deref L curPage)).asNonLeaf
      let pos ← inside (curNode.checkedChildPos entry.key)
      let childPageId ← inside (readAt (INTARRAYNONLEAFSIZE + 1) curNode.pageNoArray pos)
      let newChild ← checkedInsertUnderNode fuel entry childPageId (decide (curNode.level ≠ 0))
      if newChild.pageNo = INVALID_NUMBER then
        call (L.unPinPage curPageId false)
        return newChild
      let curNode := (← call (deref L curPage)).asNonLeaf
      let entryNum ← inside curNode.checkedEntryNum
      let curNode ← inside (curNode.checkedInsertAt newChild entryNum pos)
      call (assign L curPage (.nonLeaf curNode))
      if entryNum = nodeOccupancy + 1 then
        let (newPageId, newPage) ← call L.allocPage
        let newSlotKey ← inside (readAt INTARRAYNONLEAFSIZE curNode.keyArray ((nodeOccupancy + 1) / 2))
        let newRightSibling ← inside (curNode.checkedRightHalf (← call (deref L newPage)).asNonLeaf)
        call (assign L newPage (.nonLeaf newRightSibling))
        let curNode ← inside curNode.checkedLeftHalf
        call (assign L curPage (.nonLeaf curNode))
        call (L.unPinPage newPageId true)
        call (L.unPinPage curPageId true)
        return ⟨newPageId, newSlotKey⟩
      else
        let curNode ← inside (curNode.checkedSetBound (entryNum + 1))
        call (assign L curPage (.nonLeaf curNode))
        call (L.unPinPage curPageId true)
        return ⟨INVALID_NUMBER, entry.key⟩

/-- A call to the layer below, from a method of the index. -/
def checkedOnPages (m : EStateM Fault σ α) : EStateM Fault (World σ Ptr) α := fun w =>
  match m w.pages with
  | .ok a s => .ok a { w with pages := s }
  | .error e s => .error e { w with pages := s }

/-- The new root over a split root. -/
def NonLeafNodeInt.checkedAsNewRoot (newRootNode : NonLeafNodeInt) (rootPageNum : PageId) (newChild : PageKeyPair)
    (isLeaf : Bool) : Option NonLeafNodeInt := do
  let pageNoArray ← writeAt (INTARRAYNONLEAFSIZE + 1) newRootNode.pageNoArray 0 rootPageNum
  let keyArray ← writeAt INTARRAYNONLEAFSIZE newRootNode.keyArray 0 newChild.key
  let pageNoArray ← writeAt (INTARRAYNONLEAFSIZE + 1) pageNoArray 1 newChild.pageNo
  return ⟨if isLeaf then 1 else 0, keyArray, pageNoArray⟩

/-- `BTreeIndex::insertEntry`, with the bounds of the arrays. -/
def checkedInsertEntry (key : Int) (rid : RecordId) : EStateM Fault (World σ Ptr) Unit := do
  let this := (← get).index
  let metaPage ← checkedOnPages (call (L.readPage this.headerPageNum))
  let metaInfo := (← checkedOnPages (call (deref L metaPage))).asMetaInfo
  let isLeaf := decide (metaInfo.height = 1)
  let newChild ← checkedOnPages (checkedInsertUnderNode L metaInfo.height.toNat ⟨rid, key⟩ this.rootPageNum isLeaf)
  if newChild.pageNo = INVALID_NUMBER then
    checkedOnPages (call (L.unPinPage this.headerPageNum false))
  else
    let (newRootPageId, newRootPage) ← checkedOnPages (call L.allocPage)
    let newRootNode := (← checkedOnPages (call (deref L newRootPage))).asNonLeaf
    let newRootNode ← checkedOnPages (inside (newRootNode.checkedAsNewRoot this.rootPageNum newChild isLeaf))
    checkedOnPages (call (assign L newRootPage (.nonLeaf newRootNode)))
    modify fun w => { w with index := { w.index with rootPageNum := newRootPageId } }
    let metaInfo := (← checkedOnPages (call (deref L metaPage))).asMetaInfo
    checkedOnPages (call (assign L metaPage
      (.metaInfo { metaInfo with height := metaInfo.height + 1, rootPageNo := newRootPageId })))
    checkedOnPages (call (L.unPinPage this.headerPageNum true))
    checkedOnPages (call (L.unPinPage newRootPageId true))

end Code

section Layer

variable {α : Type} (s : PageStore) (p : PageId)

@[simp] private theorem call_readPage : call (layer.readPage p) s = .ok p s := rfl

@[simp] private theorem call_deref : call (deref layer p) s = .ok (s.pages p) s := rfl

@[simp] private theorem call_assign (page : Page) : call (assign layer p page) s = .ok () (s.write p page) := rfl

@[simp] private theorem call_allocPage : call layer.allocPage s = .ok (s.numPages, s.numPages) s.alloc := rfl

@[simp] private theorem call_unPinPage (dirty : Bool) : call (layer.unPinPage p dirty) s = .ok () s := rfl

@[simp] private theorem run_modify {σ : Type} (f : σ → σ) (s : σ) :
    (modify f : EStateM Fault σ Unit) s = .ok () (f s) := rfl

@[simp] private theorem inside_some (a : α) : (inside (some a) : EStateM Fault PageStore α) s = .ok a s := rfl

end Layer

section Recursion

variable {s : PageStore} {h : Nat} {root : Bool} {t : Branch} {e : RIDKeyPair}

private theorem checked_leaf (fuel : Nat) (p : PageId) {n : LeafNodeInt} {es : List RIDKeyPair}
    (hp : s.pages p = .leaf n) (hn : LeafHolds n es) :
    checkedInsertUnderNode layer (fuel + 1) e p true s = call (insertUnderNode layer (fuel + 1) e p true) s := by
  have hnode : (s.pages p).asLeaf = n := by rw [hp, asLeaf_leaf]
  have hsize := hn.size
  have hnum := hn.entryNum_eq
  have hpos := hn.insertPos_le e.key
  have hinsert : n.checkedInsertAt e n.entryNum (n.insertPos e.key) = some (n.withEntry e) :=
    LeafNodeInt.checkedInsertAt_eq n e (by omega) (by omega)
  rw [call, insertUnderNode_leaf fuel e p s hnode]
  simp only [checkedInsertUnderNode, run_bind, if_true, call_readPage, call_deref, hnode, hn.checkedEntryNum,
    hn.checkedInsertPos, hinsert, inside_some, call_assign]
  by_cases hfull : n.entryNum = leafOccupancy
  · have hfresh : (s.write p (.leaf (n.withEntry e))).alloc.pages s.numPages = .fresh := Function.update_self ..
    simp only [if_pos hfull, run_bind, call_allocPage, call_deref, write_numPages, hfresh,
      LeafNodeInt.checkedRightHalf_eq, LeafNodeInt.checkedLeftHalf_eq, inside_some, call_assign, call_unPinPage,
      readAt_eq (show 0 < INTARRAYLEAFSIZE by decide), run_pure]
  · have hbound : (n.withEntry e).checkedSetBound (n.entryNum + 1) = some ((n.withEntry e).setBound (n.entryNum + 1)) :=
      LeafNodeInt.checkedSetBound_eq _ (by omega)
    simp only [if_neg hfull, run_bind, hbound, inside_some, call_assign, call_unPinPage, run_pure]

/-- The call at a non-leaf, where the checks find nothing in the call for the child. -/
private theorem checked_nonLeaf (fuel : Nat) (p : PageId) {n : NonLeafNodeInt} {keys : List Int} {kids : List PageId}
    (hp : s.pages p = .nonLeaf n) (hn : NodeHolds n keys kids) {c : PageKeyPair} {s' : PageStore}
    (hchild : insertUnderNode layer fuel e (n.pageNoArray (n.childPos e.key)) (decide (n.level ≠ 0)) s = .ok c s')
    (hchecked : checkedInsertUnderNode layer fuel e (n.pageNoArray (n.childPos e.key)) (decide (n.level ≠ 0)) s = .ok c s')
    (hp' : s'.pages p = .nonLeaf n) :
    checkedInsertUnderNode layer (fuel + 1) e p false s = call (insertUnderNode layer (fuel + 1) e p false) s := by
  have hnode : (s.pages p).asNonLeaf = n := by rw [hp, asNonLeaf_nonLeaf]
  have hnode' : (s'.pages p).asNonLeaf = n := by rw [hp', asNonLeaf_nonLeaf]
  have hsize := hn.size
  have hnum := hn.entryNum_eq
  have hocc := nodeOccupancy_eq
  have hpos := hn.childPos_lt e.key
  have hread : readAt (INTARRAYNONLEAFSIZE + 1) n.pageNoArray (n.childPos e.key) = some _ :=
    readAt_eq (show n.childPos e.key < 1024 by omega)
  rw [call, insertUnderNode_nonLeaf fuel e p s hnode hchild hnode']
  simp only [checkedInsertUnderNode, run_bind, Bool.false_eq_true, if_false, call_readPage, call_deref, hnode,
    hn.checkedChildPos, hread, inside_some, hchecked]
  by_cases hsame : c.pageNo = INVALID_NUMBER
  · simp only [if_pos hsame, run_bind, call_unPinPage, run_pure]
  · have hinsert : n.checkedInsertAt c n.entryNum (n.childPos e.key) = some (n.withChild c (n.childPos e.key)) :=
      NonLeafNodeInt.checkedInsertAt_eq n c (by omega) (by omega)
    simp only [if_neg hsame, run_bind, call_deref, hnode', hn.checkedEntryNum, hinsert, inside_some, call_assign]
    by_cases hfull : n.entryNum = nodeOccupancy + 1
    · have hfresh : (s'.write p (.nonLeaf (n.withChild c (n.childPos e.key)))).alloc.pages s'.numPages = .fresh :=
        Function.update_self ..
      have hslot : readAt INTARRAYNONLEAFSIZE (n.withChild c (n.childPos e.key)).keyArray ((nodeOccupancy + 1) / 2) =
          some (n.withChild c (n.childPos e.key)).newSlotKey := readAt_eq (by decide)
      simp only [if_pos hfull, run_bind, call_allocPage, call_deref, write_numPages, hfresh, hslot,
        NonLeafNodeInt.checkedRightHalf_eq, NonLeafNodeInt.checkedLeftHalf_eq, inside_some, call_assign, call_unPinPage,
        run_pure]
    · have hbound : (n.withChild c (n.childPos e.key)).checkedSetBound (n.entryNum + 1) =
          some ((n.withChild c (n.childPos e.key)).setBound (n.entryNum + 1)) :=
        NonLeafNodeInt.checkedSetBound_eq _ (by omega)
      simp only [if_neg hfull, run_bind, hbound, inside_some, call_assign, call_unPinPage, run_pure]

/-- The checks find nothing on the way down to the leaf and up again; by induction on the levels. -/
theorem checkedInsertUnderNode_eq (hr : Ready s h root t e) :
    checkedInsertUnderNode layer (h + 1) e t.page (h == 0) s = call (insertUnderNode layer (h + 1) e t.page (h == 0)) s := by
  induction h generalizing root t with
  | zero =>
    have hsub : ∃ n es, IsLeaf s root t n es := hr.subtree
    obtain ⟨n, es, hl⟩ := hsub
    exact checked_leaf 0 t.page hl.page hl.holds
  | succ h ih =>
    obtain ⟨n, keys, subs, hn, hsubs⟩ := hr.subtree
    obtain ⟨A, u, B, rfl, -, hpage, -⟩ := hn.childPos_split hr.sorted e.key
    have hu : u ∈ A ++ u :: B := by simp
    have hready : Ready s h false u e := hr.sub hn hsubs
    obtain ⟨c, s', hrun, hinserted⟩ := insertUnderNode_spec hready
    have hlevel : decide (n.level ≠ 0) = (h == 0) := by
      rw [hn.level]
      cases h <;> rfl
    have hframe : s'.pages t.page = s.pages t.page := by
      obtain ⟨ts, hgrows⟩ := hinserted.grows
      exact hgrows.frame _ hr.page_lt (hn.sub_page_ne hr.nodup hu)
    have hchild := ih hready
    rw [call, hrun] at hchild
    rw [← hpage, ← hlevel] at hrun hchild
    exact checked_nonLeaf (h + 1) t.page hn.page hn.holds hrun hchild (hframe.trans hn.page)

end Recursion

section Insertion

variable {w : World PageStore PageId} {h : Nat} {t : Branch} {rid : RecordId}

private theorem checkedAsNewRoot_eq (n : NonLeafNodeInt) (p : PageId) (c : PageKeyPair) (isLeaf : Bool) :
    n.checkedAsNewRoot p c isLeaf = some (n.asNewRoot p c isLeaf) := by
  rw [NonLeafNodeInt.checkedAsNewRoot, writeAt_eq (by decide), Option.bind_eq_bind, Option.bind_some,
    writeAt_eq (by decide), Option.bind_eq_bind, Option.bind_some, writeAt_eq (by decide)]
  rfl

/-- On an index that is a tree. -/
private theorem Tree.checkedInsertEntry_eq (ht : Tree w h t) (key : Int) (hrid : rid.page_number ≠ INVALID_NUMBER) :
    checkedInsertEntry layer key rid w = call (BTree.insertEntry layer key rid) w := by
  obtain ⟨m, hm, hheight, -⟩ := ht.header
  obtain ⟨c, s, hcall, hinserted⟩ := insertUnderNode_spec (ht.ready key hrid)
  have hchecked := checkedInsertUnderNode_eq (ht.ready key hrid)
  rw [call, hcall] at hchecked
  have hmeta : (w.pages.pages w.index.headerPageNum).asMetaInfo = m := by rw [hm, asMetaInfo_metaInfo]
  have hfuel : m.height.toNat = h + 1 := by rw [hheight]; omega
  have hleaf : decide (m.height = 1) = (h == 0) := hmeta ▸ ht.isRootLeaf_eq
  obtain ⟨ts, hgrows⟩ := hinserted.grows
  have hmeta' : (s.pages w.index.headerPageNum).asMetaInfo = m := by
    rw [hgrows.frame _ ht.header_lt ht.header_notMem, hmeta]
  have hne : w.index.headerPageNum ≠ s.numPages := Nat.ne_of_lt (Nat.lt_of_lt_of_le ht.header_lt hgrows.mono)
  rw [← hfuel, ← hleaf, ← ht.rootPageNum] at hcall hchecked
  rw [call, insertEntry_eq w key rid hmeta hcall hmeta' hne]
  simp only [checkedInsertEntry, run_bind, run_get, checkedOnPages, call_readPage, call_deref, hmeta, hchecked]
  by_cases hsame : c.pageNo = INVALID_NUMBER
  · simp only [if_pos hsame]
    rfl
  · simp only [if_neg hsame, run_bind, checkedOnPages, call_allocPage, call_deref, checkedAsNewRoot_eq, inside_some,
      call_assign, call_unPinPage, run_modify, write_pages, alloc_pages, Function.update_self, Function.update_of_ne hne]
    rw [hmeta']

end Insertion

/-- On every index, the checks of `insertEntry` find nothing: it returns as the code without them does. -/
theorem insertEntry_inside (index : BTreeIndex PageId) (relationName : Nat → Nat) (nameLength : Nat)
    (attrByteOffset : Int) (attrType : Datatype) (rel more : List (Int × RecordId))
    (hv : ∀ e ∈ rel ++ more, e.2.page_number ≠ INVALID_NUMBER) :
    ∃ w, (construct layer relationName nameLength attrByteOffset attrType rel >>= fun _ =>
          insertAll layer more) ⟨index, created⟩ = .ok () w ∧
      ∀ (key : Int) (rid : RecordId), rid.page_number ≠ INVALID_NUMBER →
        ∃ w', insertEntry layer key rid w = .ok () w' ∧ checkedInsertEntry layer key rid w = .ok () w' := by
  obtain ⟨w, h, t, hrun, ht, -⟩ := built index relationName nameLength attrByteOffset attrType rel more hv
  refine ⟨w, hrun, fun key rid hrid => ?_⟩
  obtain ⟨r, s, h', t', hinsert, -⟩ := ht.insertEntry key hrid
  have hchecked := ht.checkedInsertEntry_eq key hrid
  rw [call, hinsert] at hchecked
  exact ⟨_, hinsert, hchecked⟩

theorem insertEntry_inside_two :
    ∃ w, (construct layer (fun _ => 0) 0 0 .INTEGER [(7, ⟨1, 1, 0⟩)] >>= fun _ =>
          insertAll layer [(5, ⟨1, 2, 0⟩)]) ⟨uninitialized, created⟩ = .ok () w ∧
      ∀ (key : Int) (rid : RecordId), rid.page_number ≠ INVALID_NUMBER →
        ∃ w', insertEntry layer key rid w = .ok () w' ∧ checkedInsertEntry layer key rid w = .ok () w' :=
  insertEntry_inside uninitialized _ _ _ _ _ _ (by decide)

end Cs564.BTree
