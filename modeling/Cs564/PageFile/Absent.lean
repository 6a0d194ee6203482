import Cs564.PageFile.Reach

/-!
# Asking for a page that is not there

`readPage` and `deletePage` of a free page or of one behind the end throw and leave everything as it was.  Page 0 is not
refused before the stream is moved: it is looked for far behind the end of the file, and the `failbit` that this leaves
spoils every later call.  In any run that asks for no page 0 the files are in order, so there the number is all that
counts (`harmless_iff`).
-/

namespace Cs564.PageFile

/-- There is no such page, or it is free. -/
def Missing (file : PageFile) (n : PageId) : Prop :=
  n = INVALID_NUMBER ∨ (∃ page, file.pages n = some page ∧ page.page_number = INVALID_NUMBER) ∨
    file.header.num_pages ≤ n

/-- The call throws `InvalidPageException`, and whatever is done with the file afterwards does what it would have done
without the call. -/
def Refused {α : Type} (file : PageFile) (n : PageId) (call : FileM α) : Prop :=
  ∃ file', call file = .error (.invalidPage n) file' ∧ ∀ (β : Type) (later : FileM β), later file' = later file

/-- Asking for the page does no harm. -/
structure Harmless (file : PageFile) (n : PageId) : Prop where
  read : Refused file n (readPage n)
  delete : Refused file n (deletePage n)

/-- The files that calls lead to from a new file, none of them asking for page 0, and pages being written under numbers
that have been allocated. -/
inductive Regular : PageFile → Prop where
  | create : Regular create
  | readPage {file : PageFile} (page_number : PageId) (hnumber : page_number ≠ INVALID_NUMBER) :
      Regular file → Regular (stateAfter (PageFile.readPage page_number file))
  | writePage {file : PageFile} (new_page : Page) (hpage : file.pages new_page.page_number ≠ none) :
      Regular file → Regular (stateAfter (PageFile.writePage new_page.page_number new_page file))
  | allocatePage {file : PageFile} : Regular file → Regular (stateAfter (PageFile.allocatePage file))
  | deletePage {file : PageFile} (page_number : PageId) (hnumber : page_number ≠ INVALID_NUMBER) :
      Regular file → Regular (stateAfter (PageFile.deletePage page_number file))

section Calls

variable {file : PageFile} {n : PageId}

/-- A page that cannot be read cannot be deleted. -/
theorem deletePage_of_readPage (halive : file.failed = false) {e : FileError} {file' : PageFile}
    (hread : readPage n file = .error e file') : deletePage n file = .error e file' := by
  rw [deletePage, run_bind_ok (readHeader_eq halive), run_bind_error hread]

theorem Harmless.of_readPage (halive : file.failed = false) (hread : readPage n file = .error (.invalidPage n) file) :
    Harmless file n :=
  ⟨⟨file, hread, fun _ _ => rfl⟩, ⟨file, deletePage_of_readPage halive hread, fun _ _ => rfl⟩⟩

/-- A page behind the end is refused before anything is read of it. -/
theorem readPage_behind (halive : file.failed = false) (hn : file.header.num_pages ≤ n) :
    readPage n file = .error (.invalidPage n) file := by
  rw [readPage, run_bind_ok (readHeader_eq halive), if_pos hn]
  rfl

/-! ### Files whose numbers have run out -/

theorem Exhausted.readPage_eq (h : file.Exhausted) (n : PageId) : readPage n file = .error (.invalidPage n) file :=
  readPage_behind h.alive (h.num_pages ▸ Nat.zero_le n)

theorem Exhausted.writePage {new_page : Page} (h : file.Exhausted) (hpage : file.pages new_page.page_number ≠ none) :
    (stateAfter (PageFile.writePage new_page.page_number new_page file)).Exhausted := by
  obtain ⟨page, hp⟩ := Option.ne_none_iff_exists'.mp hpage
  rw [PageFile.writePage, run_bind_ok (readPageHeader_eq h.alive hp)]
  split
  · exact h
  · rw [writePageWith_eq h.alive]
    exact ⟨h.alive, h.num_pages, h.num_free, h.first_used⟩

theorem Exhausted.allocatePage (h : file.Exhausted) : (stateAfter (PageFile.allocatePage file)).Exhausted := by
  have hnone : ¬ file.header.num_free_pages > 0 := by
    rw [h.num_free]
    exact Nat.lt_irrefl 0
  have hplace : placePage file.header file = appendPage file.header file := congrFun (if_neg hnone) file
  have hloop : forAllPages findTail Page.fresh file = .error .outOfFuel file := by
    rw [forAllPages, run_bind_ok (readHeader_eq h.alive), h.num_pages, forPages, if_neg h.first_used]
    rfl
  have hthrows : appendPage file.header file = .error .outOfFuel file := by
    rw [appendPage, if_neg h.first_used, run_bind_error hloop]
  rw [PageFile.allocatePage, run_bind_ok (readHeader_eq h.alive), run_bind_error (hplace.trans hthrows)]
  exact h

/-! ### The runs -/

/-- A file that calls lead to without asking for page 0 is in order, or its numbers have run out. -/
theorem Regular.sound (h : file.Regular) : (∃ free, file.Sound free) ∨ file.Exhausted := by
  induction h with
  | create => exact .inl ⟨[], sound_create⟩
  | @readPage file n hn _ ih =>
    rcases ih with ⟨free, hsound⟩ | hexhausted
    · by_cases hused : contentsOn file.pages n ≠ none
      · obtain ⟨page, hp, hmarked⟩ := contentsOn_ne_none_iff.mp hused
        rw [hsound.readPage_used hp hmarked]
        exact .inl ⟨free, hsound⟩
      · rw [hsound.readPage_none hn (not_not.mp hused)]
        exact .inl ⟨free, hsound⟩
    · rw [hexhausted.readPage_eq]
      exact .inr hexhausted
  | @writePage file page hpage _ ih =>
    rcases ih with ⟨free, hsound⟩ | hexhausted
    · obtain ⟨old, hp⟩ := Option.ne_none_iff_exists'.mp hpage
      by_cases hfree : old.page_number = INVALID_NUMBER
      · rw [hsound.writePage_free hp hfree]
        exact .inl ⟨free, hsound⟩
      · rw [hsound.writePage_used hp hfree]
        exact .inl ⟨free, hsound.update hp (hsound.number_used hp hfree) rfl⟩
    · exact .inr (hexhausted.writePage hpage)
  | @allocatePage file _ ih =>
    rcases ih with ⟨free, hsound⟩ | hexhausted
    · rcases hsound.allocatePage_cases with ⟨page, file', hrun, ha⟩ | ⟨e, hrun⟩
      · rw [hrun]
        by_cases hzero : file'.header.num_pages = 0
        · exact .inr (hsound.allocatePage_exhausted hrun hzero)
        · exact .inl (ha.sound hzero)
      · rw [hrun]
        exact .inl ⟨free, hsound⟩
    · exact .inr hexhausted.allocatePage
  | @deletePage file n hn _ ih =>
    rcases ih with ⟨free, hsound⟩ | hexhausted
    · rcases hsound.deletePage_cases hn with ⟨file', hrun, -, hsound', -⟩ | ⟨e, hrun⟩
      · rw [hrun]
        exact .inl ⟨_, hsound'⟩
      · rw [hrun]
        exact .inl ⟨free, hsound⟩
    · rw [deletePage_of_readPage hexhausted.alive (hexhausted.readPage_eq n)]
      exact .inr hexhausted

/-- In every run without page 0, asking for a page that is missing does no harm exactly if the page is not page 0 of a
file that has a page number left. -/
theorem harmless_iff (h : file.Regular) (hmissing : file.Missing n) :
    Harmless file n ↔ n ≠ INVALID_NUMBER ∨ file.header.num_pages = 0 := by
  rcases h.sound with ⟨free, hsound⟩ | hexhausted
  · constructor
    · rintro ⟨⟨file', hread, hlater⟩, -⟩
      by_contra hnot
      rw [not_or, not_not] at hnot
      rw [hnot.1, hsound.readPage_zero] at hread
      obtain ⟨-, rfl⟩ := EStateM.Result.error.inj hread
      -- the header can no longer be read
      have hheader := hlater _ readHeader
      rw [readHeader_eq hsound.alive] at hheader
      simp [readHeader] at hheader
    · rintro (hn | hzero)
      · refine .of_readPage hsound.alive (hsound.readPage_none hn ?_)
        rcases hmissing with hzero | ⟨page, hp, hfree⟩ | hbehind
        · exact absurd hzero hn
        · exact contentsOn_free hp hfree
        · exact contentsOn_absent (hsound.absent hbehind)
      · exact absurd hzero (Nat.ne_of_gt hsound.num_pos)
  · exact ⟨fun _ => .inr hexhausted.num_pages, fun _ => .of_readPage hexhausted.alive (hexhausted.readPage_eq n)⟩

end Calls

theorem harmless_iff_deleted :
    Harmless (stateAfter (deletePage 1 (stateAfter (allocatePage create)))) 1 ↔
      (1 : PageId) ≠ INVALID_NUMBER ∨
        (stateAfter (deletePage 1 (stateAfter (allocatePage create)))).header.num_pages = 0 :=
  harmless_iff (.deletePage 1 (by decide) (.allocatePage .create)) (.inr (.inl ⟨_, rfl, rfl⟩))

/-- The failed call is the first on a new file, and the header cannot be read any more. -/
theorem readPage_zero_harms : ¬ ∀ (file : PageFile) (n : PageId), file.Reached → file.Missing n → Harmless file n := by
  intro h
  obtain ⟨⟨file', hread, hlater⟩, -⟩ := h create INVALID_NUMBER .refl (.inl rfl)
  rw [sound_create.readPage_zero] at hread
  obtain ⟨-, rfl⟩ := EStateM.Result.error.inj hread
  have hheader := hlater _ readHeader
  rw [readHeader_eq sound_create.alive] at hheader
  simp [readHeader] at hheader

end Cs564.PageFile
