import Cs564.Lib.Outcomes
import Cs564.PageFile.Sound

/-!
# Files that calls lead to

The calls of the public interface with any arguments, a page being written under its own number.  What can go wrong with
a file stays wrong: its stream fails, or its numbers run out.  A file of which neither is true (`Usable`) is sound
(`Reached.sound`).
-/

namespace Cs564.PageFile

/-- The stream has not failed, and the numbers have not run out. -/
structure Usable (file : PageFile) : Prop where
  alive : file.failed = false
  numbered : file.pages INVALID_NUMBER = none
  counted : file.header.num_pages ≠ 0

/-- What a call leaves of a file, whether it returns or throws. -/
inductive Next (file : PageFile) : PageFile → Prop where
  | readPage (page_number : PageId) : Next file (stateAfter (PageFile.readPage page_number file))
  | writePage (new_page : Page) : Next file (stateAfter (PageFile.writePage new_page.page_number new_page file))
  | allocatePage : Next file (stateAfter (PageFile.allocatePage file))
  | deletePage (page_number : PageId) : Next file (stateAfter (PageFile.deletePage page_number file))

/-- The files that calls lead to from a new file. -/
def Reached (file : PageFile) : Prop := Relation.ReflTransGen Next create file

theorem Sound.usable {file : PageFile} {free : List PageId} (h : file.Sound free) : file.Usable :=
  ⟨h.alive, h.zero_absent, Nat.ne_of_gt h.num_pos⟩

/-- A stream that failed stays so, no page goes, and `num_pages` is the same. -/
structure Keeps (file file' : PageFile) : Prop where
  failed : file.failed = true → file'.failed = true
  pages : ∀ n, file.pages n ≠ none → file'.pages n ≠ none
  num_pages : file'.header.num_pages = file.header.num_pages

theorem Keeps.usable {file file' : PageFile} (h : Keeps file file') (hu : file'.Usable) : file.Usable where
  alive := by
    rw [← Bool.not_eq_true]
    intro hfailed
    exact Bool.false_ne_true (hu.alive.symm.trans (h.failed hfailed))
  numbered := by
    by_contra hpage
    exact h.pages _ hpage hu.numbered
  counted := h.num_pages ▸ hu.counted

/-- Code that keeps the files with `N` as `num_pages`. -/
def Careful (N : PageId) {α : Type} (code : FileM α) : Prop :=
  ∀ file, file.header.num_pages = N → Keeps file (stateAfter (code file))

section Careful

variable {α β : Type} {N : PageId}

theorem Keeps.refl (file : PageFile) : Keeps file file := ⟨id, fun _ => id, rfl⟩

theorem Keeps.trans {file file' file'' : PageFile} (h : Keeps file file') (h' : Keeps file' file'') : Keeps file file'' :=
  ⟨fun hfailed => h'.failed (h.failed hfailed), fun n hn => h'.pages n (h.pages n hn), h'.num_pages.trans h.num_pages⟩

theorem careful_pure (a : α) : Careful N (pure a) := fun file _ => .refl file

theorem careful_throw (e : FileError) : Careful N (throw e : FileM α) := fun file _ => .refl file

theorem Careful.bind {x : FileM α} {f : α → FileM β} (hx : Careful N x) (hf : ∀ a, Careful N (f a)) :
    Careful N (x >>= f) := by
  intro file hN
  have hfirst := hx file hN
  rw [run_bind]
  cases hrun : x file with
  | ok a file' =>
    rw [hrun] at hfirst
    exact hfirst.trans (hf a file' (hfirst.num_pages.trans hN))
  | error e file' =>
    rw [hrun] at hfirst
    exact hfirst

theorem Careful.ite {c : Prop} [Decidable c] {x y : FileM α} (hx : Careful N x) (hy : Careful N y) :
    Careful N (if c then x else y) := by
  split
  · exact hx
  · exact hy

theorem careful_get : Careful N get := fun file _ => .refl file

/-- What is done with the header. -/
theorem careful_header {f : FileHeader → FileM β} (hf : ∀ header, header.num_pages = N → Careful N (f header)) :
    Careful N (readHeader >>= f) := by
  intro file hN
  cases hfailed : file.failed with
  | false =>
    rw [run_bind_ok (readHeader_eq hfailed)]
    exact hf file.header hN file hN
  | true =>
    have hthrow : readHeader file = .error .indeterminate file := by simp [readHeader, hfailed]
    rw [run_bind_error hthrow]
    exact .refl file

/-- The state of the stream after a read. -/
private theorem careful_read (n : PageId) :
    Careful N (modify fun file => { file with failed := file.failed || (file.pages n).isNone }) :=
  fun _ _ => ⟨fun hfailed => Bool.or_eq_true_iff.mpr (.inl hfailed), fun _ => id, rfl⟩

theorem careful_readPageWith (n : PageId) (allow_free : Bool) : Careful N (readPageWith n allow_free) :=
  careful_get.bind fun _ => (careful_read n).bind fun _ => (careful_throw _).ite (careful_pure _)

theorem careful_readPage (n : PageId) : Careful N (readPage n) :=
  careful_header fun _ _ => (careful_throw _).ite (careful_readPageWith n false)

theorem careful_readPageHeader (n : PageId) : Careful N (readPageHeader n) := by
  refine careful_get.bind fun file => (careful_read n).bind fun _ => ?_
  cases file.pages n with
  | none => exact careful_throw _
  | some page => exact (careful_throw _).ite (careful_pure _)

theorem careful_writePageWith (n : PageId) (header : PageHeader) (page : Page) :
    Careful N (writePageWith n header page) := by
  intro file _
  simp only [writePageWith, run_modify, stateAfter]
  split
  · exact .refl file
  · refine ⟨id, fun m hm => ?_, rfl⟩
    dsimp only
    by_cases hmn : m = n
    · subst hmn
      rw [Function.update_self]
      exact Option.some_ne_none _
    · rw [Function.update_of_ne hmn]
      exact hm

theorem careful_writeHeader {header : FileHeader} (hheader : header.num_pages = N) : Careful N (writeHeader header) := by
  intro file hN
  simp only [writeHeader, run_modify, stateAfter]
  split
  · exact .refl file
  · exact ⟨id, fun _ => id, hheader.trans hN.symm⟩

theorem careful_writePage (n : PageId) (page : Page) : Careful N (writePage n page) :=
  (careful_readPageHeader n).bind fun _ => (careful_throw _).ite (careful_writePageWith _ _ _)

theorem careful_forPages (body : α → Page → α × Bool) (fuel : Nat) (current : PageId) (acc : α) :
    Careful N (forPages body fuel current acc) := by
  induction fuel generalizing current acc with
  | zero => exact (careful_pure _).ite (careful_throw _)
  | succ fuel ih =>
    refine (careful_pure _).ite ((careful_readPage current).bind fun page => ?_)
    exact (careful_pure _).ite ((careful_readPageHeader current).bind fun header => ih _ _)

theorem careful_forAllPages (body : α → Page → α × Bool) (acc : α) : Careful N (forAllPages body acc) :=
  careful_header fun _ _ => careful_forPages _ _ _ _

theorem careful_placePage (header : FileHeader) : Careful N (placePage header) := by
  refine Careful.ite ?_ ?_
  · refine (careful_readPageWith _ _).bind fun page => Careful.ite ?_ ?_
    · exact (careful_pure _).bind fun _ => (careful_pure _).ite (careful_throw _)
    · refine (careful_forAllPages _ _).bind fun _ => (careful_pure _).bind fun _ => ?_
      exact (careful_pure _).ite (careful_throw _)
  · refine (careful_pure _).ite ((careful_forAllPages _ _).bind fun page => ?_)
    exact (careful_pure _).ite (careful_throw _)

theorem careful_deletePage (n : PageId) : Careful N (deletePage n) := by
  refine careful_header fun header hheader => (careful_readPage n).bind fun page => ?_
  have hprevious : Careful N (previousPage header n page) := (careful_pure _).ite (careful_forAllPages _ _)
  refine hprevious.bind fun previous => ?_
  have hrest : Careful N (do
      writePageWith n (page.initializePage.set_next_page_number header.first_free_page).header
        (page.initializePage.set_next_page_number header.first_free_page)
      writeHeader { header with
        first_used_page := if n = header.first_used_page then page.next_page_number else header.first_used_page
        first_free_page := n
        num_free_pages := u32 (header.num_free_pages + 1) }) :=
    (careful_writePageWith _ _ _).bind fun _ => careful_writeHeader hheader
  exact Careful.ite ((careful_writePageWith _ _ _).bind fun _ => hrest) hrest

end Careful

variable {file file' : PageFile}

/-- The header that `allocatePage` writes has the same number of pages, or the new page has that number. -/
private theorem placePage_number {header : FileHeader} {placed : FileHeader × Page × Page}
    (hrun : placePage header file = .ok placed file') :
    placed.1.num_pages = header.num_pages ∨ placed.2.1.page_number = header.num_pages := by
  unfold placePage at hrun
  split at hrun
  · left
    obtain ⟨page, file₁, -, hrun⟩ := bind_ok_cases hrun
    dsimp only at hrun
    have hcheck : ∀ (placed₁ : FileHeader × Page × Page) (file₁ : PageFile), placed₁.1.num_pages = header.num_pages →
        (if (header.num_free_pages - 1 == 0) = ((page.set_page_number header.first_free_page).next_page_number ==
          INVALID_NUMBER) then pure placed₁ else throw FileError.assertion : FileM _) file₁ = .ok placed file' →
        placed.1.num_pages = header.num_pages := by
      intro placed₁ file₁ hsame hreturn
      split at hreturn
      · obtain ⟨rfl, -⟩ := EStateM.Result.ok.inj hreturn
        exact hsame
      · cases hreturn
    split at hrun
    · exact hcheck _ _ rfl hrun
    · obtain ⟨place, file₂, -, hrun⟩ := bind_ok_cases hrun
      exact hcheck _ _ rfl hrun
  · right
    unfold appendPage at hrun
    split at hrun
    · obtain ⟨rfl, -⟩ := EStateM.Result.ok.inj hrun
      rfl
    · obtain ⟨page, file₁, -, hrun⟩ := bind_ok_cases hrun
      split at hrun
      · obtain ⟨rfl, -⟩ := EStateM.Result.ok.inj hrun
        rfl
      · cases hrun

/-- `allocatePage` does not mend a file. -/
private theorem usable_of_allocatePage (hu : (stateAfter (allocatePage file)).Usable) : file.Usable := by
  cases hfailed : file.failed with
  | true =>
    have hthrow : readHeader file = .error .indeterminate file := by simp [readHeader, hfailed]
    rw [allocatePage, run_bind_error hthrow] at hu
    exact hu
  | false =>
    have hplace := careful_placePage file.header file rfl
    rw [allocatePage, run_bind_ok (readHeader_eq hfailed), run_bind] at hu
    cases hrun : placePage file.header file with
    | error e file₁ =>
      rw [hrun] at hplace hu
      exact hplace.usable hu
    | ok placed file₁ =>
      rw [hrun] at hplace hu
      dsimp only at hu
      cases halive : file₁.failed with
      | true =>
        -- All writes are lost, and the stream is still failed.
        have hlost : ∀ n header page, writePageWith n header page file₁ = .ok () file₁ := by
          intro n header page
          simp [writePageWith, halive]
        have hheader : writeHeader placed.1 file₁ = .ok () file₁ := by simp [writeHeader, halive]
        have hstate := hu.alive
        rw [run_bind_ok (hlost ..)] at hstate
        split at hstate
        · rw [run_bind_ok (hlost ..), run_bind_ok hheader] at hstate
          exact absurd (halive.symm.trans hstate) Bool.false_ne_true.symm
        · rw [run_bind_ok hheader] at hstate
          exact absurd (halive.symm.trans hstate) Bool.false_ne_true.symm
      | false =>
        -- The new page, the page in front of it and the header are written.
        have hfinal : ∀ final : PageFile, final.header = placed.1 →
            (∀ n, file₁.pages n ≠ none ∨ n = placed.2.1.page_number → final.pages n ≠ none) → final.Usable →
            file.Usable := by
          intro final hheader hpages husable
          refine ⟨hfailed, ?_, fun hzero => ?_⟩
          · by_contra hpage
            exact hpages _ (.inl (hplace.pages _ hpage)) husable.numbered
          · rcases placePage_number hrun with hsame | hnumber
            · refine husable.counted ?_
              rw [hheader, hsame, hzero]
            · exact hpages _ (.inr (hzero.symm.trans hnumber.symm)) husable.numbered
        have hwritten : ∀ (pages : PageId → Option Page) (n : PageId) (page : Page) (m : PageId),
            pages m ≠ none ∨ m = n → Function.update pages n (some page) m ≠ none := by
          rintro pages n page m (hm | rfl)
          · by_cases hmn : m = n
            · subst hmn
              rw [Function.update_self]
              exact Option.some_ne_none _
            · rw [Function.update_of_ne hmn]
              exact hm
          · rw [Function.update_self]
            exact Option.some_ne_none _
        by_cases hused : placed.2.2.page_number ≠ INVALID_NUMBER
        · simp only [if_pos hused, run_bind, writePageWith_eq, writeHeader_eq, halive, run_pure, stateAfter] at hu
          exact hfinal _ rfl (fun n hn => hwritten _ _ _ _ (.inl (hwritten _ _ _ _ hn))) hu
        · simp only [if_neg hused, run_bind, writePageWith_eq, writeHeader_eq, halive, run_pure, stateAfter] at hu
          exact hfinal _ rfl (fun n hn => hwritten _ _ _ _ hn) hu

/-- No call mends a file. -/
theorem Next.usable (h : Next file file') (hu : file'.Usable) : file.Usable := by
  cases h with
  | readPage n => exact (careful_readPage n file rfl).usable hu
  | writePage page => exact (careful_writePage page.page_number page file rfl).usable hu
  | allocatePage => exact usable_of_allocatePage hu
  | deletePage n => exact (careful_deletePage n file rfl).usable hu

/-- What a call leaves of a sound file is sound, if it is usable. -/
theorem Next.sound (h : Next file file') {free : List PageId} (hsound : file.Sound free) (hu : file'.Usable) :
    ∃ left, file'.Sound left := by
  have hbroken : ¬ Usable { file with failed := true } := fun husable => Bool.false_ne_true husable.alive.symm
  cases h with
  | readPage n =>
    by_cases hzero : n = INVALID_NUMBER
    · rw [hzero, hsound.readPage_zero] at hu
      exact absurd hu hbroken
    · by_cases hused : contentsOn file.pages n ≠ none
      · obtain ⟨page, hp, hmarked⟩ := contentsOn_ne_none_iff.mp hused
        rw [hsound.readPage_used hp hmarked]
        exact ⟨free, hsound⟩
      · rw [hsound.readPage_none hzero (not_not.mp hused)]
        exact ⟨free, hsound⟩
  | writePage page =>
    cases hp : file.pages page.page_number with
    | none =>
      rw [Sound.writePage_absent hp] at hu
      exact absurd hu hbroken
    | some old =>
      by_cases hfree : old.page_number = INVALID_NUMBER
      · rw [hsound.writePage_free hp hfree]
        exact ⟨free, hsound⟩
      · rw [hsound.writePage_used hp hfree]
        exact ⟨free, hsound.update hp (hsound.number_used hp hfree) rfl⟩
  | allocatePage =>
    rcases hsound.allocatePage_cases with ⟨page, file₁, hrun, ha⟩ | ⟨e, hrun⟩
    · rw [hrun] at hu ⊢
      exact ha.sound hu.counted
    · rw [hrun]
      exact ⟨free, hsound⟩
  | deletePage n =>
    by_cases hzero : n = INVALID_NUMBER
    · rw [hzero, hsound.deletePage_zero] at hu
      exact absurd hu hbroken
    · rcases hsound.deletePage_cases hzero with ⟨file₁, hrun, -, hsound₁, -⟩ | ⟨e, hrun⟩
      · rw [hrun]
        exact ⟨_, hsound₁⟩
      · rw [hrun]
        exact ⟨free, hsound⟩

/-- A usable file is sound. -/
theorem Reached.sound (h : file.Reached) (hu : file.Usable) : ∃ free, file.Sound free := by
  induction h with
  | refl => exact ⟨[], sound_create⟩
  | tail _ hnext ih =>
    obtain ⟨free, hsound⟩ := ih (hnext.usable hu)
    exact hnext.sound hsound hu

end Cs564.PageFile
