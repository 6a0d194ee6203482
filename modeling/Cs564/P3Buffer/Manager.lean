import Cs564.P2Buffer.Manager

/-!
# The buffer manager of `p3`

`BufMgr` of `p3` (`buffer.h`, `buffer.cpp`).  Its hash table and its frame table are those of `p2`, except that files are
told apart by the `File` objects and not by their names: `F` is the type of the objects, and the key of a page is the
address of its object.  Several objects may be open on one file.  The operations are `p2`'s with other code.
-/

namespace Cs564.P3

open P2 (BufError BufHashTbl BufDesc BufMgr BufM onFiles onTable setDesc setPage advanceClock)

/-- The calls of a `File` object that the manager makes, on the state `σ` of all files; `P` is the type of pages. -/
structure FileLayer (F P σ : Type) where
  readPage : F → PageId → EStateM FileError σ P
  writePage : F → PageId → P → EStateM FileError σ Unit
  allocatePage : F → EStateM FileError σ (PageId × P)
  deletePage : F → PageId → EStateM FileError σ Unit

/-- `hash`, with the addresses of the objects. -/
def hash {F : Type} (address : F → Nat) (file : F) (pageNo : PageId) : Nat := u32 (address file + pageNo)

/-- The size of the hash table for `bufs` frames. -/
def htsize (bufs : Nat) : Nat := bufs * 6 / 5 * 2 / 2 + 1

/-- `BufMgr(bufs)`; `page` is `Page()`. -/
def newBufMgr {F P σ : Type} (bufs : Nat) (page : P) (files : σ) : BufMgr F P σ :=
  { clockHand := bufs - 1
    numBufs := bufs
    hashTable := .new F (htsize bufs)
    bufDescTable := fun _ => .clear
    bufPool := fun _ => page
    files := files }

section Code

variable {F P σ : Type} [DecidableEq F] (L : FileLayer F P σ) (hash : F → PageId → Nat)

/-- The loop of `allocBuf`, `rounds` rounds before its end: `found` and `numScanned`. -/
def clockLoop : Nat → Nat → BufM F P σ (Bool × Nat)
  | 0, numScanned => return (false, numScanned)
  | rounds + 1, numScanned => do
    advanceClock
    let mgr ← get
    let desc := mgr.bufDescTable mgr.clockHand
    if desc.valid = false then return (false, numScanned + 1)
    else if desc.refbit = false then
      if desc.pinCnt = 0 then
        match desc.file with
        | none => throw .noFile
        | some file =>
          onTable fun table => table.remove hash file desc.pageNo
          return (true, numScanned + 1)
      else clockLoop rounds (numScanned + 1)
    else
      setDesc mgr.clockHand { desc with refbit := false }
      clockLoop rounds (numScanned + 1)

/-- A dirty page is written to its file. -/
def writeBack (fid : FrameId) : BufM F P σ Unit := do
  let mgr ← get
  let desc := mgr.bufDescTable fid
  if desc.dirty then
    match desc.file with
    | none => throw .noFile
    | some file => onFiles (L.writePage file desc.pageNo (mgr.bufPool fid))
  else return ()

/-- `allocBuf`. -/
def allocBuf : BufM F P σ FrameId := do
  let mgr ← get
  let scanned ← clockLoop hash (2 * mgr.numBufs) 0
  if scanned.1 = false ∧ 2 * mgr.numBufs ≤ scanned.2 then throw .bufferExceeded
  else do
    let mgr ← get
    writeBack L mgr.clockHand
    setDesc mgr.clockHand .clear
    return mgr.clockHand

/-- `readPage`. -/
def readPage (file : F) (pageNo : PageId) : BufM F P σ FrameId := do
  let mgr ← get
  match mgr.hashTable.lookup hash file pageNo with
  | .ok fid =>
    let desc := mgr.bufDescTable fid
    setDesc fid { desc with refbit := true, pinCnt := desc.pinCnt + 1 }
    return fid
  | .error _ =>
    let fid ← allocBuf L hash
    let page ← onFiles (L.readPage file pageNo)
    setPage fid page
    setDesc fid (.Set file pageNo)
    onTable fun table => table.insert hash file pageNo fid
    return fid

/-- `unPinPage`. -/
def unPinPage (file : F) (pageNo : PageId) (dirty : Bool) : BufM F P σ Unit := do
  let mgr ← get
  match mgr.hashTable.lookup hash file pageNo with
  | .ok fid =>
    let desc := { mgr.bufDescTable fid with dirty := if dirty then true else (mgr.bufDescTable fid).dirty }
    -- the mark is made before the pins are looked at
    setDesc fid desc
    if desc.pinCnt = 0 then throw (.pageNotPinned file pageNo fid)
    else setDesc fid { desc with pinCnt := desc.pinCnt - 1 }
  | .error e => throw e

/-- `allocPage`, with `pageNo` and the pointer. -/
def allocPage (file : F) : BufM F P σ (PageId × FrameId) := do
  let fid ← allocBuf L hash
  let new ← onFiles (L.allocatePage file)
  setPage fid new.2
  setDesc fid (.Set file new.1)
  onTable fun table => table.insert hash file new.1 fid
  return (new.1, fid)

/-- `flushFile`, for one frame. -/
def flushFrame (file : F) (fid : FrameId) : BufM F P σ Unit := do
  let mgr ← get
  let tmpbuf := mgr.bufDescTable fid
  if tmpbuf.file = some file ∧ tmpbuf.valid = true then
    if tmpbuf.pinCnt > 0 then throw (.pagePinned file tmpbuf.pageNo fid)
    else do
      writeBack L fid
      setDesc fid { tmpbuf with dirty := false }
      onTable fun table => table.remove hash file tmpbuf.pageNo
      setDesc fid .clear
  else if tmpbuf.valid = false ∧ tmpbuf.file = some file then
    throw (.badBuffer fid tmpbuf.dirty tmpbuf.valid tmpbuf.refbit)
  else return ()

/-- The loop of `flushFile`. -/
def flushFrames (file : F) : List FrameId → BufM F P σ Unit
  | [] => return ()
  | fid :: fids => do
    flushFrame L hash file fid
    flushFrames file fids

/-- `flushFile`. -/
def flushFile (file : F) : BufM F P σ Unit := do
  let mgr ← get
  flushFrames L hash file (List.range mgr.numBufs)

/-- `disposePage`. -/
def disposePage (file : F) (pageNo : PageId) : BufM F P σ Unit := do
  let mgr ← get
  match mgr.hashTable.lookup hash file pageNo with
  | .ok fid =>
    setDesc fid .clear
    onTable fun table => table.remove hash file pageNo
    onFiles (L.deletePage file pageNo)
  | .error e => throw e

end Code

end Cs564.P3
