import Cs564.Lib.Run
import Cs564.P2Buffer.HashTable

/-!
# The buffer manager of `p2`

`BufMgr` (`buffer.h`, `buffer.cpp`) over a file layer: the manager uses the `File` objects through the calls of
`FileLayer` only, and of a page only its number.  A page pointer is the number of the frame it points into.  `pinCnt` is
a natural number, as it is not decreased below 0; it is not bounded, nor are `numBufs` and `clockHand`, where the source
has 32 bits.

The file of `File()` has no name and no stream.  `flushFile` can be called with it; `unPinPage` does nothing with it, and the
other calls, which go on to its stream, are undefined.

A call that throws leaves the manager as it is then.
-/

namespace Cs564.P2

/-- The calls of the files that the manager makes, on the state `σ` of all files; `P` is the type of pages. -/
structure FileLayer (F P σ : Type) where
  readPage : F → PageId → EStateM FileError σ P
  writePage : F → P → EStateM FileError σ Unit
  allocatePage : F → EStateM FileError σ P
  deletePage : F → PageId → EStateM FileError σ Unit
  page_number : P → PageId

/-- `BufDesc`; `file` is `none` for the file of `File()`, which has no name. -/
structure BufDesc (F : Type) where
  file : Option F
  pageNo : PageId
  pinCnt : Nat
  dirty : Bool
  valid : Bool
  refbit : Bool
deriving DecidableEq

namespace BufDesc

variable {F : Type}

/-- `clear`. -/
def clear : BufDesc F :=
  { file := none, pageNo := INVALID_NUMBER, pinCnt := 0, dirty := false, valid := false, refbit := false }

/-- `Set`. -/
def Set (file : F) (pageNum : PageId) : BufDesc F :=
  { file := some file, pageNo := pageNum, pinCnt := 1, dirty := false, valid := true, refbit := true }

end BufDesc

/-- `BufMgr`, with the files under it. -/
structure BufMgr (F P σ : Type) where
  clockHand : FrameId
  numBufs : Nat
  hashTable : BufHashTbl F
  bufDescTable : FrameId → BufDesc F
  bufPool : FrameId → P
  files : σ

/-- `HASHTABLE_SZ`. -/
def HASHTABLE_SZ (bufs : Nat) : Nat := bufs * 6 / 5 / 2 * 2 + 1

namespace BufMgr

/-- `BufMgr(bufs)`; `page` is `Page()`. -/
def new {F P σ : Type} (bufs : Nat) (page : P) (files : σ) : BufMgr F P σ :=
  { clockHand := bufs - 1
    numBufs := bufs
    hashTable := .new F (HASHTABLE_SZ bufs)
    bufDescTable := fun _ => .clear
    bufPool := fun _ => page
    files := files }

end BufMgr

/-- Code of the manager. -/
abbrev BufM (F P σ : Type) := EStateM (BufError F) (BufMgr F P σ)

section Code

variable {F P σ : Type} [DecidableEq F]

/-- A call of a file. -/
def onFiles {α : Type} (call : EStateM FileError σ α) : BufM F P σ α := fun mgr =>
  match call mgr.files with
  | .ok a files => .ok a { mgr with files := files }
  | .error e files => .error (.file e) { mgr with files := files }

/-- A change of the hash table that may throw. -/
def onTable (call : BufHashTbl F → Except (BufError F) (BufHashTbl F)) : BufM F P σ Unit := fun mgr =>
  match call mgr.hashTable with
  | .ok table => .ok () { mgr with hashTable := table }
  | .error e => .error e mgr

/-- `bufDescTable[fid] = desc`. -/
def setDesc (fid : FrameId) (desc : BufDesc F) : BufM F P σ Unit :=
  modify fun mgr => { mgr with bufDescTable := Function.update mgr.bufDescTable fid desc }

/-- `bufPool[fid] = page`. -/
def setPage (fid : FrameId) (page : P) : BufM F P σ Unit :=
  modify fun mgr => { mgr with bufPool := Function.update mgr.bufPool fid page }

/-- `advanceClock`. -/
def advanceClock : BufM F P σ Unit :=
  modify fun mgr => { mgr with clockHand := (mgr.clockHand + 1) % mgr.numBufs }

variable (L : FileLayer F P σ) (hash : F → PageId → Nat)

/-- A dirty page is written to its file. -/
def writeBack (file : F) (fid : FrameId) : BufM F P σ Unit := do
  let mgr ← get
  if (mgr.bufDescTable fid).dirty then onFiles (L.writePage file (mgr.bufPool fid)) else return ()

/-- The end of `allocBuf`, for the frame with an unpinned page. -/
def evict (fid : FrameId) : BufM F P σ Unit := do
  let mgr ← get
  match (mgr.bufDescTable fid).file with
  | none => throw .noFile
  | some file =>
    writeBack L file fid
    onTable fun table => table.remove hash file (mgr.bufDescTable fid).pageNo
    setDesc fid .clear

/-- The loop of `allocBuf`, for at most `fuel` frames. -/
def clockLoop (start : FrameId) : Nat → Nat → BufM F P σ FrameId
  | 0, loop => if loop < 3 then throw .outOfFuel else throw .bufferExceeded
  | fuel + 1, loop =>
    if loop < 3 then do
      let mgr ← get
      let loop := if start = mgr.clockHand then loop + 1 else loop
      let t_frame := mgr.bufDescTable mgr.clockHand
      if t_frame.valid then
        if t_frame.refbit then
          setDesc mgr.clockHand { t_frame with refbit := false }
          advanceClock
          clockLoop start fuel loop
        else if t_frame.pinCnt > 0 then
          advanceClock
          clockLoop start fuel loop
        else
          evict L hash mgr.clockHand
          return mgr.clockHand
      else return mgr.clockHand
    else throw .bufferExceeded

/-- `allocBuf`.  The loop meets every frame twice, and the first one a third time. -/
def allocBuf : BufM F P σ FrameId := do
  advanceClock
  let mgr ← get
  clockLoop L hash mgr.clockHand (2 * mgr.numBufs + 1) 0

/-- `readPage`. -/
def readPage (file : F) (pageNo : PageId) : BufM F P σ FrameId := do
  let mgr ← get
  match mgr.hashTable.lookup hash file pageNo with
  | .ok fid =>
    let desc := mgr.bufDescTable fid
    setDesc fid { desc with refbit := true, pinCnt := desc.pinCnt + 1 }
    return fid
  | .error _ =>
    let fid ← allocBuf L hash
    let page ← onFiles (L.readPage file pageNo)
    setPage fid page
    onTable fun table => table.insert hash file pageNo fid
    setDesc fid (.Set file pageNo)
    return fid

/-- `unPinPage`. -/
def unPinPage (file : F) (pageNo : PageId) (dirty : Bool) : BufM F P σ Unit := do
  let mgr ← get
  match mgr.hashTable.lookup hash file pageNo with
  | .ok fid =>
    let desc := mgr.bufDescTable fid
    if desc.pinCnt = 0 then throw (.pageNotPinned file pageNo fid)
    else setDesc fid { desc with pinCnt := desc.pinCnt - 1, dirty := if dirty then true else desc.dirty }
  | .error _ => return ()

/-- `allocPage`, with `pageNo` and the pointer. -/
def allocPage (file : F) : BufM F P σ (PageId × FrameId) := do
  let fid ← allocBuf L hash
  let page ← onFiles (L.allocatePage file)
  setPage fid page
  onTable fun table => table.insert hash file (L.page_number page) fid
  setDesc fid (.Set file (L.page_number page))
  return (L.page_number page, fid)

/-- `flushFile`, for one frame. -/
def flushFrame (file : Option F) (fid : FrameId) : BufM F P σ Unit := do
  let mgr ← get
  let bufDesc := mgr.bufDescTable fid
  if bufDesc.file = file then
    if !bufDesc.valid then throw (.badBuffer fid bufDesc.dirty bufDesc.valid bufDesc.refbit)
    else match file with
      | none => throw .noFile
      | some file =>
        if bufDesc.pinCnt > 0 then throw (.pagePinned file bufDesc.pageNo fid)
        else do
          writeBack L file fid
          setDesc fid { bufDesc with dirty := false }
          onTable fun table => table.remove hash file bufDesc.pageNo
          setDesc fid .clear
  else return ()

/-- The loop of `flushFile`. -/
def flushFrames (file : Option F) : List FrameId → BufM F P σ Unit
  | [] => return ()
  | fid :: fids => do
    flushFrame L hash file fid
    flushFrames file fids

/-- `flushFile`; the file may be that of `File()`, which cleared frames have. -/
def flushFile (file : Option F) : BufM F P σ Unit := do
  let mgr ← get
  flushFrames L hash file (List.range mgr.numBufs)

/-- `disposePage`. -/
def disposePage (file : F) (pageNo : PageId) : BufM F P σ Unit := do
  let mgr ← get
  match mgr.hashTable.lookup hash file pageNo with
  | .ok fid =>
    setDesc fid .clear
    onTable fun table => table.remove hash file pageNo
    onFiles (L.deletePage file pageNo)
  | .error _ => onFiles (L.deletePage file pageNo)

end Code

end Cs564.P2
