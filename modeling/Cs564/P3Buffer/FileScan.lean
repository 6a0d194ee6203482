import Cs564.P3Buffer.PageFiles
import Cs564.SlottedPage.Iterator

/-!
# File scans

`FileScan` (`filescan.h`, `filescan.cpp` of `p3`), with the `FileIterator` and the `PageIterator` that it holds.  A page
pointer is the number of the frame it points into.  `moments` is no part of the program: it keeps the manager as it was
after each call of it, the latest first.
-/

namespace Cs564.P3

open P2 (BufError BufMgr BufM onFile)

/-- What `scanNext` and `getRecord` throw; `nullPointer` stands for the use of a pointer that is not set. -/
inductive ScanError (F : Type) where
  | endOfFile
  | nullPointer
  | buf (e : BufError F)
  | file (e : FileError)
  | page (e : PageError)

/-- `PageIterator`. -/
structure PageIterator where
  page_ : Option FrameId
  current_record_ : RecordId

/-- `PageIterator()`. -/
def PageIterator.empty : PageIterator :=
  { page_ := none, current_record_ := { page_number := INVALID_NUMBER, slot_number := INVALID_SLOT, padding := 0 } }

/-- `FileScan`; of `filePageIter` it has the `current_page_number_`. -/
structure FileScan (F : Type) where
  file : F
  curPage : Option FrameId
  filePageIter : PageId
  pageRecordIter : PageIterator
  curDirtyFlag : Bool

/-- A scan over the manager. -/
structure ScanState (F N : Type) where
  bufMgr : BufMgr F Page (N → PageFile)
  scan : FileScan F
  moments : List (BufMgr F Page (N → PageFile))

/-- Code of a scan. -/
abbrev ScanM (F N : Type) := EStateM (ScanError F) (ScanState F N)

section Code

variable {F N α : Type} [DecidableEq F] [DecidableEq N]

/-- A call of the manager. -/
def callBufMgr (code : BufM F Page (N → PageFile) α) : ScanM F N α := fun s =>
  match code s.bufMgr with
  | .ok a mgr => .ok a { s with bufMgr := mgr, moments := mgr :: s.moments }
  | .error e mgr => .error (.buf e) { s with bufMgr := mgr, moments := mgr :: s.moments }

/-- A call of the file of the scan. -/
def callFile (filename : F → N) (code : FileM α) : ScanM F N α := fun s =>
  match onFile (filename s.scan.file) code s.bufMgr.files with
  | .ok a files => .ok a { s with bufMgr := { s.bufMgr with files := files } }
  | .error e files => .error (.file e) { s with bufMgr := { s.bufMgr with files := files } }

/-- A change of the scan. -/
def setScan (f : FileScan F → FileScan F) : ScanM F N Unit := modify fun s => { s with scan := f s.scan }

/-- The page that a pointer points to. -/
def pageOf (pointer : Option FrameId) : ScanM F N Page := do
  let s ← get
  match pointer with
  | some fid => return s.bufMgr.bufPool fid
  | none => throw .nullPointer

variable (filename : F → N) (hash : F → PageId → Nat)

/-- `file->begin()`. -/
def fileBegin : ScanM F N PageId := do
  let header ← callFile filename PageFile.readHeader
  return header.first_used_page

/-- `(*filePageIter).page_number()`. -/
def currentPageNumber : ScanM F N PageId := do
  let s ← get
  let page ← callFile filename (PageFile.readPage s.scan.filePageIter)
  return page.page_number

/-- `filePageIter++`. -/
def nextPage : ScanM F N Unit := do
  let s ← get
  let header ← callFile filename (PageFile.readPageHeader s.scan.filePageIter)
  setScan fun scan => { scan with filePageIter := header.next_page_number }

/-- `bufMgr->readPage(file, (*filePageIter).page_number(), curPage)`. -/
def readCurrentPage : ScanM F N Unit := do
  let s ← get
  let pageNo ← currentPageNumber filename
  let fid ← callBufMgr (readPage (pageFiles filename) hash s.scan.file pageNo)
  setScan fun scan => { scan with curPage := some fid }

/-- `bufMgr->unPinPage(file, (*filePageIter).page_number(), curDirtyFlag)`. -/
def unPinCurrentPage : ScanM F N Unit := do
  let s ← get
  let pageNo ← currentPageNumber filename
  callBufMgr (unPinPage hash s.scan.file pageNo s.scan.curDirtyFlag)

/-- `pageRecordIter = curPage->begin()`. -/
def beginRecords : ScanM F N Unit := do
  let s ← get
  let page ← pageOf s.scan.curPage
  setScan fun scan => { scan with
    pageRecordIter := { page_ := s.scan.curPage, current_record_ := page.recordAt (page.getNextUsedSlot INVALID_SLOT) } }

/-- `pageRecordIter++`. -/
def nextRecord : ScanM F N Unit := do
  let s ← get
  let iter := s.scan.pageRecordIter
  let page ← pageOf iter.page_
  setScan fun scan => { scan with
    pageRecordIter := { iter with
      current_record_ := page.recordAt (page.getNextUsedSlot iter.current_record_.slot_number) } }

/-- `pageRecordIter == curPage->end()`. -/
def atPageEnd : ScanM F N Bool := do
  let s ← get
  let iter := s.scan.pageRecordIter
  let page ← pageOf iter.page_
  let curPage ← pageOf s.scan.curPage
  return page.page_number = curPage.page_number ∧ iter.current_record_.page_number = curPage.page_number ∧
    iter.current_record_.slot_number = INVALID_SLOT

/-- `getRecord`, and `*pageRecordIter`. -/
def getRecord : ScanM F N (List UInt8) := do
  let s ← get
  let page ← pageOf s.scan.pageRecordIter.page_
  match page.getRecord s.scan.pageRecordIter.current_record_ with
  | .ok record => return record
  | .error e => throw (.page e)

/-- The end of `scanNext`: the record is read, and its id is the result. -/
def currentRecord : ScanM F N RecordId := do
  let _rec ← getRecord
  let s ← get
  return s.scan.pageRecordIter.current_record_

/-- The loop of `scanNext`.  Each round goes to another page of the file; a loop of more rounds than there are pages does
not end. -/
def findRecord : Nat → ScanM F N RecordId
  | 0 => throw (.file .outOfFuel)
  | fuel + 1 => do
    let atEnd ← atPageEnd
    if atEnd then
      unPinCurrentPage filename hash
      setScan fun scan => { scan with curPage := none, curDirtyFlag := false }
      nextPage filename
      let s ← get
      if s.scan.filePageIter = INVALID_NUMBER then throw .endOfFile
      else do
        readCurrentPage filename hash
        beginRecords
        findRecord fuel
    else currentRecord

/-- The general part of `scanNext`. -/
def scanOn : ScanM F N RecordId := do
  nextRecord
  let s ← get
  findRecord filename hash ((s.bufMgr.files (filename s.scan.file)).header.num_pages + 1)

/-- `scanNext`, with `outRid`. -/
def scanNext : ScanM F N RecordId := do
  let s ← get
  if s.scan.filePageIter = INVALID_NUMBER then throw .endOfFile
  else if s.scan.curPage = none then
    let first ← fileBegin filename
    setScan fun scan => { scan with filePageIter := first }
    if first = INVALID_NUMBER then throw .endOfFile
    else do
      readCurrentPage filename hash
      setScan fun scan => { scan with curDirtyFlag := false }
      beginRecords
      let atEnd ← atPageEnd
      -- a first page without records is left to the general part
      if atEnd then scanOn filename hash else currentRecord
  else scanOn filename hash

/-- `FileScan(name, bufferMgr)`, where `file` is the new object. -/
def openScan (file : F) (bufferMgr : BufMgr F Page (N → PageFile)) : EStateM.Result (ScanError F) (ScanState F N) Unit :=
  (do let first ← fileBegin filename
      setScan fun scan => { scan with filePageIter := first } : ScanM F N Unit)
    { bufMgr := bufferMgr
      scan := { file := file, curPage := none, filePageIter := INVALID_NUMBER,
                pageRecordIter := .empty, curDirtyFlag := false }
      moments := [bufferMgr] }

end Code

end Cs564.P3
