import Cs564.P3Buffer.Manager

/-!
# Blob files

The class `BlobFile` of `p3` (`file.cpp`), which index files are made of: the file header and raw pages.  Several
objects on one file share its stream, and as for page files a read at the end of the file sets its `failbit`: from then
on reads give nothing and writes are lost.  `blobFiles` puts the objects under a buffer manager.
-/

namespace Cs564.P3

/-- What a `BlobFile` has on disk, and the state of its stream; a page behind the end of the file is `none`.  `num_pages` has
32 bits in the source and is not bounded here. -/
structure BlobFile (P : Type) where
  num_pages : PageId
  first_used_page : PageId
  pages : PageId → Option P
  failed : Bool

namespace BlobFile

variable {P : Type} (fresh : P) (file : BlobFile P)

/-- `BlobFile::create`. -/
def create (P : Type) : BlobFile P := { num_pages := 1, first_used_page := 0, pages := fun _ => none, failed := false }

/-- `getFirstPageNo`. -/
def getFirstPageNo : Except FileError PageId :=
  if file.failed then .error .indeterminate else .ok file.first_used_page

/-- `allocatePage`, with `new_page_number`; `fresh` is `Page()`. -/
def allocatePage : Except FileError ((PageId × P) × BlobFile P) :=
  -- the header is not read from a failed stream
  if file.failed then .error .indeterminate
  else
    .ok ((file.num_pages, fresh),
      { num_pages := file.num_pages + 1
        first_used_page := if file.first_used_page = INVALID_NUMBER then file.num_pages else file.first_used_page
        pages := fun p => if p = file.num_pages then some fresh else file.pages p
        failed := false })

/-- `readPage`: what cannot be read stays as `Page()` made it. -/
def readPage (page_number : PageId) : P × BlobFile P :=
  if file.failed then (fresh, file)
  else
    match file.pages page_number with
    | some page => (page, file)
    | none => (fresh, { file with failed := true })

/-- `writePage`. -/
def writePage (new_page_number : PageId) (new_page : P) : BlobFile P :=
  if file.failed then file
  else { file with pages := fun p => if p = new_page_number then some new_page else file.pages p }

end BlobFile

/-- `BlobFile` objects with their names; the state is that of the files by name. -/
def blobFiles {F N P : Type} [DecidableEq N] (filename : F → N) (fresh : P) : FileLayer F P (N → BlobFile P) where
  readPage f p := fun files =>
    .ok ((files (filename f)).readPage fresh p).1
      (Function.update files (filename f) ((files (filename f)).readPage fresh p).2)
  writePage f p page := fun files => .ok () (Function.update files (filename f) ((files (filename f)).writePage p page))
  allocatePage f := fun files =>
    match (files (filename f)).allocatePage fresh with
    | .ok new => .ok new.1 (Function.update files (filename f) new.2)
    | .error e => .error e files
  -- deletePage is not supported
  deletePage _ p := fun files => .error (.invalidPage p) files

end Cs564.P3
