import Cs564.BTree.Nodes

/-!
# The B+ tree index

The methods of `BTreeIndex` (`btree.cpp`).  The index reaches its pages through the buffer manager only: it asks for
a page by number, gets a pointer, reads and writes through the pointer, and unpins the page by number.  `PageLayer`
is that interface, and the code is written over it.  `PageStore.layer` is the plain store in which a page that was
allocated stays in memory for ever.
-/

namespace Cs564.BTree

/-- The exceptions an index call can end with.  `outOfFuel` stands for a recursion or a loop that did not come to its
end in the given number of rounds, and `indeterminate` for code that goes on with bytes that were never set. -/
inductive Exc
  | badOpcodes
  | badScanrange
  | noSuchKeyFound
  | scanNotInitialized
  | indexScanCompleted
  | bufferExceeded
  | pageNotPinned
  | pagePinned
  | badBuffer
  | hashNotFound
  | hashAlreadyPresent
  | invalidPage
  | indeterminate
  | outOfFuel
deriving DecidableEq, Repr

/-- The calls of the buffer manager for the index file, and the access through the page pointers it returns. -/
structure PageLayer (σ Ptr : Type) where
  readPage : PageId → EStateM Exc σ Ptr
  allocPage : EStateM Exc σ (PageId × Ptr)
  unPinPage : PageId → Bool → EStateM Exc σ Unit
  flushFile : EStateM Exc σ Unit
  load : Ptr → σ → Page
  store : Ptr → Page → σ → σ

/-- `enum Operator`. -/
inductive Operator | LT | LTE | GTE | GT
deriving DecidableEq, Repr

/-- The data members of `BTreeIndex`; `leafOccupancy` and `nodeOccupancy` are constants. -/
structure BTreeIndex (Ptr : Type) where
  headerPageNum : PageId
  rootPageNum : PageId
  attributeType : Datatype
  attrByteOffset : Int
  scanExecuting : Bool
  nextEntry : Int
  currentPageNum : PageId
  currentPageData : Ptr
  lowValInt : Int
  highValInt : Int
  lowOp : Operator
  highOp : Operator

/-- An index and the pages under it. -/
structure World (σ Ptr : Type) where
  index : BTreeIndex Ptr
  pages : σ

section Methods

variable {σ Ptr : Type} (L : PageLayer σ Ptr)

/-- The page behind a pointer. -/
def deref (p : Ptr) : EStateM Exc σ Page := fun s => .ok (L.load p s) s

/-- Writing through a pointer. -/
def assign (p : Ptr) (page : Page) : EStateM Exc σ Unit := fun s => .ok () (L.store p page s)

/-- A call to the layer below, from a method of the index. -/
def onPages {α : Type} (m : EStateM Exc σ α) : EStateM Exc (World σ Ptr) α := fun w =>
  match m w.pages with
  | .ok a s => .ok a { w with pages := s }
  | .error e s => .error e { w with pages := s }

/-- Changing the data members of the index. -/
def setIndex (f : BTreeIndex Ptr → BTreeIndex Ptr) : EStateM Exc (World σ Ptr) Unit := fun w =>
  .ok () { w with index := f w.index }

/-! ### Insertion -/

/-- `BTreeIndex::insertUnderNode`.  The first argument bounds the depth of the recursion; the new child is returned
where the source sets it through a pointer. -/
def insertUnderNode : Nat → RIDKeyPair → PageId → Bool → EStateM Exc σ PageKeyPair
  | 0, _, _, _ => throw .outOfFuel
  | fuel + 1, entry, curPageId, isLeaf => do
    let curPage ← L.readPage curPageId
    if isLeaf then
      let curNode := (← deref L curPage).asLeaf
      let entryNum := curNode.entryNum
      let curNode := curNode.insertAt entry entryNum (curNode.insertPos entry.key)
      assign L curPage (.leaf curNode)
      if entryNum = leafOccupancy then
        let (newPageId, newPage) ← L.allocPage
        let newRightSibling := curNode.rightHalf (← deref L newPage).asLeaf
        assign L newPage (.leaf newRightSibling)
        assign L curPage (.leaf (curNode.leftHalf newPageId))
        L.unPinPage newPageId true
        L.unPinPage curPageId true
        return ⟨newPageId, newRightSibling.keyArray 0⟩
      else
        assign L curPage (.leaf (curNode.setBound (entryNum + 1)))
        L.unPinPage curPageId true
        return ⟨INVALID_NUMBER, entry.key⟩
    else
      let curNode := (← deref L curPage).asNonLeaf
      let pos := curNode.childPos entry.key
      let newChild ← insertUnderNode fuel entry (curNode.pageNoArray pos) (decide (curNode.level ≠ 0))
      if newChild.pageNo = INVALID_NUMBER then
        L.unPinPage curPageId false
        return newChild
      let curNode := (← deref L curPage).asNonLeaf
      let entryNum := curNode.entryNum
      let curNode := curNode.insertAt newChild entryNum pos
      assign L curPage (.nonLeaf curNode)
      if entryNum = nodeOccupancy + 1 then
        let (newPageId, newPage) ← L.allocPage
        let newRightSibling := curNode.rightHalf (← deref L newPage).asNonLeaf
        assign L newPage (.nonLeaf newRightSibling)
        assign L curPage (.nonLeaf curNode.leftHalf)
        L.unPinPage newPageId true
        L.unPinPage curPageId true
        return ⟨newPageId, curNode.newSlotKey⟩
      else
        assign L curPage (.nonLeaf (curNode.setBound (entryNum + 1)))
        L.unPinPage curPageId true
        return ⟨INVALID_NUMBER, entry.key⟩

/-- `BTreeIndex::insertEntry`.  The argument `depth` bounds the depth of its recursion. -/
def insertEntryWithin (depth : IndexMetaInfo → Nat) (key : Int) (rid : RecordId) : EStateM Exc (World σ Ptr) Unit := do
  let this := (← get).index
  let metaPage ← onPages (L.readPage this.headerPageNum)
  let metaInfo := (← onPages (deref L metaPage)).asMetaInfo
  let isLeaf := decide (metaInfo.height = 1)
  let newChild ← onPages (insertUnderNode L (depth metaInfo) ⟨rid, key⟩ this.rootPageNum isLeaf)
  if newChild.pageNo = INVALID_NUMBER then
    onPages (L.unPinPage this.headerPageNum false)
  else
    let (newRootPageId, newRootPage) ← onPages L.allocPage
    let newRootNode := (← onPages (deref L newRootPage)).asNonLeaf
    onPages (assign L newRootPage (.nonLeaf (newRootNode.asNewRoot this.rootPageNum newChild isLeaf)))
    setIndex fun this => { this with rootPageNum := newRootPageId }
    let metaInfo := (← onPages (deref L metaPage)).asMetaInfo
    onPages (assign L metaPage
      (.metaInfo { metaInfo with height := metaInfo.height + 1, rootPageNo := newRootPageId }))
    onPages (L.unPinPage this.headerPageNum true)
    onPages (L.unPinPage newRootPageId true)

/-- `BTreeIndex::insertEntry`.  The recursion goes as deep as the tree is high. -/
def insertEntry (key : Int) (rid : RecordId) : EStateM Exc (World σ Ptr) Unit :=
  insertEntryWithin L (fun metaInfo => metaInfo.height.toNat) key rid

/-! ### Scans -/

/-- `BTreeIndex::endScan`. -/
def endScan : EStateM Exc (World σ Ptr) Unit := do
  let this := (← get).index
  if this.scanExecuting = false then throw .scanNotInitialized
  setIndex fun this => { this with scanExecuting := false }
  onPages (L.unPinPage this.currentPageNum false)

/-- The loop over the entries of a non-leaf in `startScan`: the child to go to. -/
def scanChild (currNonLeafNode : NonLeafNodeInt) (lowValInt : Int) : PageId :=
  let entryId := firstIndex (fun i => decide (lowValInt ≤ currNonLeafNode.keyArray i) || i == nodeOccupancy - 1)
    nodeOccupancy
  let childEntryId := if lowValInt < currNonLeafNode.keyArray entryId then entryId else entryId + 1
  let childPageNum := currNonLeafNode.pageNoArray childEntryId
  if childPageNum = INVALID_NUMBER then currNonLeafNode.pageNoArray entryId else childPageNum

/-- The loop `while (!leaf)` of `startScan`, from a non-leaf on.  The level of the node is read through its pointer
after the child was read. -/
def scanDescend : Nat → Ptr → EStateM Exc (World σ Ptr) Unit
  | 0, _ => throw .outOfFuel
  | fuel + 1, currNonLeafNode => do
    let this := (← get).index
    let childPageNum := scanChild (← onPages (deref L currNonLeafNode)).asNonLeaf this.lowValInt
    onPages (L.unPinPage this.currentPageNum false)
    setIndex fun this => { this with currentPageNum := childPageNum }
    let currentPageData ← onPages (L.readPage childPageNum)
    setIndex fun this => { this with currentPageData := currentPageData }
    if (← onPages (deref L currNonLeafNode)).asNonLeaf.level = 1 then return ()
    else scanDescend fuel currentPageData

/-- How the loop over the entries of the leaf in `startScan` ends. -/
inductive FirstEntry
  | found (entryId : Nat)
  | notHere
  | keyAboveRange
deriving DecidableEq, Repr

/-- The loop over the entries of the leaf in `startScan`, from `entryId` on, `rounds` rounds before its end. -/
def firstEntry (leaf : LeafNodeInt) (lowValInt highValInt : Int) (lowOp : Operator) : Nat → Nat → FirstEntry
  | 0, _ => .notHere
  | rounds + 1, entryId =>
    let currKey := leaf.keyArray entryId
    if highValInt < currKey then .keyAboveRange
    else if (leaf.ridArray entryId).page_number = INVALID_NUMBER then .notHere
    else if (lowValInt < currKey ∧ currKey < highValInt) ∨ (currKey = lowValInt ∧ lowOp = .GTE) then .found entryId
    else firstEntry leaf lowValInt highValInt lowOp rounds (entryId + 1)

/-- The rest of `startScan`, once the leaf that may contain the first wanted entry was reached. -/
def scanLeaf : EStateM Exc (World σ Ptr) Unit := do
  let this := (← get).index
  let leaf := (← onPages (deref L this.currentPageData)).asLeaf
  setIndex fun this => { this with nextEntry := -1 }
  match firstEntry leaf this.lowValInt this.highValInt this.lowOp leafOccupancy 0 with
  | .keyAboveRange => throw .noSuchKeyFound
  | .found entryId => setIndex fun this => { this with nextEntry := entryId }
  | .notHere =>
    if leaf.rightSibPageNo = INVALID_NUMBER then throw .noSuchKeyFound
    onPages (L.unPinPage this.currentPageNum false)
    let leaf := (← onPages (deref L this.currentPageData)).asLeaf
    setIndex fun this => { this with currentPageNum := leaf.rightSibPageNo }
    let currentPageData ← onPages (L.readPage leaf.rightSibPageNo)
    setIndex fun this => { this with currentPageData := currentPageData, nextEntry := 0 }

/-- `BTreeIndex::startScan`.  The argument `fuel` bounds the rounds of its loop over the levels of the tree. -/
def startScan (fuel : Nat) (lowValParm : Int) (lowOpParm : Operator) (highValParm : Int) (highOpParm : Operator) :
    EStateM Exc (World σ Ptr) Unit := do
  if lowOpParm ≠ .GT ∧ lowOpParm ≠ .GTE then throw .badOpcodes
  if highOpParm ≠ .LT ∧ highOpParm ≠ .LTE then throw .badOpcodes
  setIndex fun this =>
    { this with lowOp := lowOpParm, highOp := highOpParm, lowValInt := lowValParm, highValInt := highValParm }
  if highValParm < lowValParm then throw .badScanrange
  if (← get).index.scanExecuting then endScan L
  setIndex fun this => { this with scanExecuting := true, currentPageNum := this.headerPageNum }
  let this := (← get).index
  let metaPage ← onPages (L.readPage this.headerPageNum)
  setIndex fun this => { this with currentPageData := metaPage }
  let isRootLeaf := decide ((← onPages (deref L metaPage)).asMetaInfo.height = 1)
  onPages (L.unPinPage this.headerPageNum false)
  setIndex fun this => { this with currentPageNum := this.rootPageNum }
  let currentPageData ← onPages (L.readPage this.rootPageNum)
  setIndex fun this => { this with currentPageData := currentPageData }
  if isRootLeaf = false then scanDescend L fuel currentPageData
  scanLeaf L

/-- The test of `scanNext` whether a key is still within the boundary. -/
def withinHigh (this : BTreeIndex Ptr) (nextKey : Int) : Prop :=
  nextKey < this.highValInt ∨ (nextKey = this.highValInt ∧ this.highOp = .LTE)

instance (this : BTreeIndex Ptr) (nextKey : Int) : Decidable (withinHigh this nextKey) :=
  inferInstanceAs (Decidable (_ ∨ _))

/-- `BTreeIndex::scanNext`. -/
def scanNext : EStateM Exc (World σ Ptr) RecordId := do
  let this := (← get).index
  if this.scanExecuting = false then throw .scanNotInitialized
  if this.nextEntry = -1 then throw .indexScanCompleted
  let leaf := (← onPages (deref L this.currentPageData)).asLeaf
  let nextEntry := this.nextEntry.toNat
  let outRid := leaf.ridArray nextEntry
  if (leaf.ridArray (nextEntry + 1)).page_number = INVALID_NUMBER then
    if leaf.rightSibPageNo = INVALID_NUMBER then
      setIndex fun this => { this with nextEntry := -1 }
      return outRid
    onPages (L.unPinPage this.currentPageNum false)
    let rightSibPageNo := (← onPages (deref L this.currentPageData)).asLeaf.rightSibPageNo
    setIndex fun this => { this with currentPageNum := rightSibPageNo }
    let currentPageData ← onPages (L.readPage rightSibPageNo)
    setIndex fun this => { this with currentPageData := currentPageData }
    let nextKey := (← onPages (deref L currentPageData)).asLeaf.keyArray 0
    setIndex fun this => { this with nextEntry := if withinHigh this nextKey then 0 else -1 }
    return outRid
  else
    let nextKey := leaf.keyArray (nextEntry + 1)
    setIndex fun this => { this with nextEntry := if withinHigh this nextKey then this.nextEntry + 1 else -1 }
    return outRid

/-! ### Construction -/

/-- A sequence of insertions. -/
def insertAll : List (Int × RecordId) → EStateM Exc (World σ Ptr) Unit
  | [] => pure ()
  | (key, rid) :: entries => do
    insertEntry L key rid
    insertAll entries

/-- The part of the constructor that builds a new index file, in front of its first `insertEntry`: the numbers of the
header page and the root page. -/
def constructPages (relationName : Nat → Nat) (nameLength : Nat) (attrByteOffset : Int) (attrType : Datatype) :
    EStateM Exc (World σ Ptr) (PageId × PageId) := do
  let (metaPageId, metaPage) ← onPages L.allocPage
  setIndex fun this => { this with attributeType := attrType, attrByteOffset := attrByteOffset, scanExecuting := false
                                   headerPageNum := metaPageId }
  let metaInfo := (← onPages (deref L metaPage)).asMetaInfo
  let metaInfo :=
    { metaInfo with
      relationName := fun i => if i < min nameLength 20 then relationName i else metaInfo.relationName i
      attrByteOffset := attrByteOffset
      attrType := attrType }
  onPages (assign L metaPage (.metaInfo metaInfo))
  let (rootPageId, rootPage) ← onPages L.allocPage
  onPages (assign L metaPage (.metaInfo { metaInfo with rootPageNo := rootPageId, height := 1 }))
  setIndex fun this => { this with rootPageNum := rootPageId }
  let rootNode := (← onPages (deref L rootPage)).asLeaf
  onPages (assign L rootPage (.leaf ({ rootNode with rightSibPageNo := INVALID_NUMBER }.setBound 0)))
  return (metaPageId, rootPageId)

/-- The same part, behind its last `insertEntry`. -/
def constructEnd (metaPageId rootPageId : PageId) : EStateM Exc (World σ Ptr) Unit := do
  onPages (L.unPinPage metaPageId true)
  onPages (L.unPinPage rootPageId true)
  onPages L.flushFile

/-- The part of the constructor that builds a new index file, for a relation whose records have the given keys and
record ids.  The pages of the relation are left out: over a pool, `FileScan` has one of them pinned during the insertions,
in a frame of its own beside those of the header page and the root page. -/
def construct (relationName : Nat → Nat) (nameLength : Nat) (attrByteOffset : Int) (attrType : Datatype)
    (entries : List (Int × RecordId)) : EStateM Exc (World σ Ptr) Unit := do
  let (metaPageId, rootPageId) ← constructPages L relationName nameLength attrByteOffset attrType
  insertAll L entries
  constructEnd L metaPageId rootPageId

/-- The part of the constructor that opens an index file that exists; `getFirstPageNo` is the file's. -/
def reopen (getFirstPageNo : EStateM Exc σ PageId) (attrByteOffset : Int) (attrType : Datatype) :
    EStateM Exc (World σ Ptr) Unit := do
  setIndex fun this => { this with attributeType := attrType, attrByteOffset := attrByteOffset, scanExecuting := false }
  let headerPageNum ← onPages getFirstPageNo
  setIndex fun this => { this with headerPageNum := headerPageNum }
  let metaPage ← onPages (L.readPage headerPageNum)
  let metaInfo := (← onPages (deref L metaPage)).asMetaInfo
  setIndex fun this => { this with rootPageNum := metaInfo.rootPageNo }
  onPages (L.unPinPage headerPageNum false)

/-- `BTreeIndex::~BTreeIndex`. -/
def destroy : EStateM Exc (World σ Ptr) Unit := do
  onPages L.flushFile
  setIndex fun this => { this with scanExecuting := false }

end Methods

/-! ### The plain page store -/

/-- A page store in which every page stays in memory for ever.  The number of pages is not bounded, where the source has 32
bits for it. -/
structure PageStore where
  numPages : Nat
  pages : PageId → Page

namespace PageStore

/-- A file that was just created: page 0 is the file header. -/
def created : PageStore := ⟨1, fun _ => .fresh⟩

def write (s : PageStore) (p : PageId) (page : Page) : PageStore := { s with pages := Function.update s.pages p page }

/-- `BlobFile::allocatePage`: the next page number, with the bytes of a fresh `Page()`. -/
def alloc (s : PageStore) : PageStore := ⟨s.numPages + 1, Function.update s.pages s.numPages .fresh⟩

/-- The page store as the layer below the index: the pointer to a page is its number.  A page that was never
allocated is read as a fresh `Page()`, which is what `BlobFile::readPage` returns when nothing could be read. -/
def layer : PageLayer PageStore PageId where
  readPage p := pure p
  allocPage := fun s => .ok (s.numPages, s.numPages) s.alloc
  unPinPage _ _ := pure ()
  flushFile := pure ()
  load p s := s.pages p
  store p page s := s.write p page

end PageStore

end Cs564.BTree
