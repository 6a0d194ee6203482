import Cs564.Lib.Run
import Cs564.SlottedPage.Page

/-!
# Page files

The class `PageFile` (`file.cpp` of `p3`; `File` of `p2` does the same, there the number that a page is written at is
the page's own) and the loops of `FileIterator`.  A file is its header and its pages; a page that lies behind the end
of the file is `none`.  The stream of a file is shared by all `File` objects on it, and a read that reaches the end of
the file sets its `failbit`: from then on reads give nothing and writes are lost.

A function that may throw leaves the file as it is then.
-/

namespace Cs564

/-- `FileHeader`. -/
structure FileHeader where
  num_pages : PageId
  first_used_page : PageId
  num_free_pages : PageId
  first_free_page : PageId
deriving DecidableEq, Repr

/-- What a `PageFile` has on disk, and the state of its stream. -/
structure PageFile where
  header : FileHeader
  pages : PageId → Option Page
  failed : Bool

/-- How a call can fail to return: `indeterminate` stands for going on with a header that was not read, `outOfFuel` for a
loop that does not end. -/
inductive FileError where
  | invalidPage (page_number : PageId)
  | assertion
  | indeterminate
  | outOfFuel
deriving DecidableEq, Repr

/-- Code on a file. -/
abbrev FileM := EStateM FileError PageFile

/-- The content of `std::uint32_t` after an assignment. -/
def u32 (value : Nat) : Nat := value % 2 ^ 32

namespace Page

/-- `Page()`, with zeros behind the object. -/
def fresh : Page :=
  { header := { free_space_lower_bound := 0, free_space_upper_bound := DATA_SIZE, num_slots := 0, num_free_slots := 0,
                current_page_number := INVALID_NUMBER, next_page_number := INVALID_NUMBER }
    data := fun _ => 0 }

variable (page : Page)

/-- `next_page_number`. -/
def next_page_number : PageId := page.header.next_page_number

/-- `set_next_page_number`. -/
def set_next_page_number (new_next_page_number : PageId) : Page :=
  { page with header := { page.header with next_page_number := new_next_page_number } }

/-- `isUsed`. -/
def isUsed : Bool := page.page_number != INVALID_NUMBER

/-- The bytes of the page on disk, under this header. -/
def stored (header : PageHeader) : Page :=
  { header := header, data := fun pos => if pos < DATA_SIZE then page.data pos else 0 }

@[simp] theorem page_number_set_page_number (n : PageId) : (page.set_page_number n).page_number = n := rfl

@[simp] theorem next_page_number_set_page_number (n : PageId) :
    (page.set_page_number n).next_page_number = page.next_page_number := rfl

@[simp] theorem page_number_set_next_page_number (n : PageId) :
    (page.set_next_page_number n).page_number = page.page_number := rfl

@[simp] theorem next_page_number_set_next_page_number (n : PageId) :
    (page.set_next_page_number n).next_page_number = n := rfl

@[simp] theorem page_number_stored (header : PageHeader) :
    (page.stored header).page_number = header.current_page_number := rfl

@[simp] theorem next_page_number_stored (header : PageHeader) :
    (page.stored header).next_page_number = header.next_page_number := rfl

@[simp] theorem page_number_fresh : fresh.page_number = INVALID_NUMBER := rfl

@[simp] theorem next_page_number_fresh : fresh.next_page_number = INVALID_NUMBER := rfl

theorem isUsed_eq_true_iff : page.isUsed = true ↔ page.page_number ≠ INVALID_NUMBER := bne_iff_ne

end Page

namespace PageFile

/-- `File(name, true)`: the file starts with one page, the header. -/
def create : PageFile :=
  { header := { num_pages := 1, first_used_page := 0, num_free_pages := 0, first_free_page := 0 }
    pages := fun _ => none
    failed := false }

/-- `readHeader`. -/
def readHeader : FileM FileHeader := do
  let file ← get
  if file.failed then throw .indeterminate else return file.header

/-- `writeHeader`. -/
def writeHeader (header : FileHeader) : FileM Unit :=
  modify fun file => if file.failed then file else { file with header := header }

/-- `readPage(page_number, allow_free)`: what cannot be read stays as `Page()` made it. -/
def readPageWith (page_number : PageId) (allow_free : Bool) : FileM Page := do
  let file ← get
  let page := if file.failed then Page.fresh else (file.pages page_number).getD .fresh
  modify fun file => { file with failed := file.failed || (file.pages page_number).isNone }
  if !allow_free && !page.isUsed then throw (.invalidPage page_number) else return page

/-- `readPage(page_number)`. -/
def readPage (page_number : PageId) : FileM Page := do
  let header ← readHeader
  if page_number ≥ header.num_pages then throw (.invalidPage page_number) else readPageWith page_number false

/-- `readPageHeader`. -/
def readPageHeader (page_number : PageId) : FileM PageHeader := do
  let file ← get
  modify fun file => { file with failed := file.failed || (file.pages page_number).isNone }
  match file.pages page_number with
  | some page => if file.failed then throw .indeterminate else return page.header
  | none => throw .indeterminate

/-- `writePage(page_number, header, new_page)`. -/
def writePageWith (page_number : PageId) (header : PageHeader) (new_page : Page) : FileM Unit :=
  modify fun file =>
    if file.failed then file
    else { file with pages := Function.update file.pages page_number (some (new_page.stored header)) }

/-- `writePage(new_page_number, new_page)`: the link on disk is kept. -/
def writePage (new_page_number : PageId) (new_page : Page) : FileM Unit := do
  let header ← readPageHeader new_page_number
  if header.current_page_number = INVALID_NUMBER then throw (.invalidPage new_page_number)
  else writePageWith new_page_number { new_page.header with next_page_number := header.next_page_number } new_page

section Iterator

variable {α : Type}

/-- The loop `for (FileIterator iter = ...; iter != end(); ++iter)` from page `current` on; `body` gives the new values
of the variables, and whether the loop is left.  As `*iter` reads numbers below `num_pages` only, a loop of more rounds
than that does not end. -/
def forPages (body : α → Page → α × Bool) : Nat → PageId → α → FileM α
  | 0, current, acc => if current = INVALID_NUMBER then pure acc else throw .outOfFuel
  | fuel + 1, current, acc =>
    if current = INVALID_NUMBER then pure acc
    else do
      let page ← readPage current
      if (body acc page).2 then return (body acc page).1
      else
        let header ← readPageHeader current
        forPages body fuel header.next_page_number (body acc page).1

/-- The loop from `begin()` on. -/
def forAllPages (body : α → Page → α × Bool) (acc : α) : FileM α := do
  let header ← readHeader
  forPages body header.num_pages header.first_used_page acc

end Iterator

/-- The pages that a `FileIterator` visits, in order. -/
def visitedPages : FileM (List Page) := forAllPages (fun visited page => (visited ++ [page], false)) []

/-- The loop of `allocatePage` for the place of a reused page, with `existing_page` and `next_page_number`. -/
def findPlace (new_page_number : PageId) (acc : Page × PageId) (page : Page) : (Page × PageId) × Bool :=
  let next_page_number := page.next_page_number
  if next_page_number > new_page_number ∨ next_page_number = INVALID_NUMBER then ((page, next_page_number), true)
  else ((acc.1, next_page_number), false)

/-- The loop of `allocatePage` for the last page in use. -/
def findTail (existing_page : Page) (page : Page) : Page × Bool :=
  if page.next_page_number = INVALID_NUMBER then (page, true) else (existing_page, false)

/-- The loop of `deletePage` for the page in front. -/
def findPrevious (existing_page : Page) (_previous_page : Page) (page : Page) : Page × Bool :=
  if page.next_page_number = existing_page.page_number then
    (page.set_next_page_number existing_page.next_page_number, true)
  else (page, false)

/-- `allocatePage` where there is a free page: the new header, the page, and the page in front of it. -/
def reusePage (header : FileHeader) : FileM (FileHeader × Page × Page) := do
  let new_page ← readPageWith header.first_free_page true
  let new_page := new_page.set_page_number header.first_free_page
  let header := { header with first_free_page := new_page.next_page_number, num_free_pages := header.num_free_pages - 1 }
  let placed ←
    if header.first_used_page = INVALID_NUMBER ∨ header.first_used_page > new_page.page_number then
      pure ({ header with first_used_page := new_page.page_number },
        if header.first_used_page > new_page.page_number then new_page.set_next_page_number header.first_used_page
        else new_page,
        Page.fresh)
    else do
      let place ← forAllPages (findPlace new_page.page_number) (Page.fresh, INVALID_NUMBER)
      pure (header, new_page.set_next_page_number place.2, place.1.set_next_page_number new_page.page_number)
  if (header.num_free_pages == 0) = (header.first_free_page == INVALID_NUMBER) then return placed
  else throw .assertion

/-- `allocatePage` where there is no free page. -/
def appendPage (header : FileHeader) : FileM (FileHeader × Page × Page) := do
  let new_page := Page.fresh.set_page_number header.num_pages
  if header.first_used_page = INVALID_NUMBER then
    return ({ header with first_used_page := new_page.page_number, num_pages := u32 (header.num_pages + 1) }, new_page,
      Page.fresh)
  else
    let existing_page ← forAllPages findTail Page.fresh
    if existing_page.isUsed then
      return ({ header with num_pages := u32 (header.num_pages + 1) }, new_page,
        existing_page.set_next_page_number new_page.page_number)
    else throw .assertion

/-- The two branches of `allocatePage`. -/
def placePage (header : FileHeader) : FileM (FileHeader × Page × Page) :=
  if header.num_free_pages > 0 then reusePage header else appendPage header

/-- `allocatePage`, with `new_page_number`. -/
def allocatePage : FileM (Page × PageId) := do
  let header ← readHeader
  let placed ← placePage header
  let new_page := placed.2.1
  let existing_page := placed.2.2
  writePageWith new_page.page_number new_page.header new_page
  if existing_page.page_number ≠ INVALID_NUMBER then
    writePageWith existing_page.page_number existing_page.header existing_page
  writeHeader placed.1
  return (new_page, new_page.page_number)

/-- `deletePage`: the page in front with its new link, if there is one. -/
def previousPage (header : FileHeader) (page_number : PageId) (existing_page : Page) : FileM Page :=
  if page_number = header.first_used_page then pure Page.fresh
  else forAllPages (findPrevious existing_page) Page.fresh

/-- `deletePage`. -/
def deletePage (page_number : PageId) : FileM Unit := do
  let header ← readHeader
  let existing_page ← readPage page_number
  let previous_page ← previousPage header page_number existing_page
  let cleared := existing_page.initializePage.set_next_page_number header.first_free_page
  if previous_page.isUsed then
    writePageWith previous_page.page_number previous_page.header previous_page
  writePageWith page_number cleared.header cleared
  writeHeader { header with
    first_used_page :=
      if page_number = header.first_used_page then existing_page.next_page_number else header.first_used_page
    first_free_page := page_number
    num_free_pages := u32 (header.num_free_pages + 1) }

end PageFile

end Cs564
