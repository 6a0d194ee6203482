import Cs564.Lib.Outcomes
import Cs564.PageFile.InOrder

/-!
# New pages are blank

`deletePage` leaves a page on the free list as `initialize` makes it, and no call writes to a page that is free.  So the
page that `allocatePage` gives has no records, be it a new one or one that was in use before (`Neat.allocatePage`).
-/

namespace Cs564

namespace Page

/-- The page on disk without its number and its link. -/
def bare (page : Page) : Page := page.unlinked.set_page_number INVALID_NUMBER

variable (page : Page)

@[simp] theorem bare_set_page_number (n : PageId) : (page.set_page_number n).bare = page.bare := rfl

@[simp] theorem bare_set_next_page_number (n : PageId) : (page.set_next_page_number n).bare = page.bare := rfl

@[simp] theorem bare_unlinked : page.unlinked.bare = page.bare := stored_stored ..

@[simp] theorem bare_bare : page.bare.bare = page.bare := page.bare_unlinked

@[simp] theorem bare_stored_header : (page.stored page.header).bare = page.bare := stored_stored ..

@[simp] theorem bare_fresh : fresh.bare = fresh := by
  have hdata : (fun pos => if pos < DATA_SIZE then fresh.data pos else 0) = fresh.data := by
    funext pos
    split <;> rfl
  exact congrArg (fun data => ({ fresh with data := data } : Page)) hdata

/-- What `initialize` leaves. -/
theorem bare_initializePage : page.initializePage.bare = fresh := by
  have hdata : (fun pos => if pos < DATA_SIZE then page.initializePage.data pos else 0) = fresh.data := by
    funext pos
    split
    · next hpos => exact if_pos hpos
    · rfl
  exact congrArg (fun data => ({ fresh with data := data } : Page)) hdata

end Page

namespace PageFile

/-- The free pages are as `initialize` leaves them. -/
def FreeBlank (pages : PageId → Option Page) : Prop :=
  ∀ n page, pages n = some page → page.page_number = INVALID_NUMBER → page.bare = .fresh

/-- A page is written, which is in use or blank. -/
theorem FreeBlank.update {pages : PageId → Option Page} (h : FreeBlank pages) {page : Page}
    (hpage : page.page_number = INVALID_NUMBER → page.bare = .fresh) (n : PageId) :
    FreeBlank (Function.update pages n (some page)) := by
  intro m page' hm hfree
  by_cases hmn : m = n
  · rw [hmn, Function.update_self, Option.some.injEq] at hm
    subst hm
    exact hpage hfree
  · rw [Function.update_of_ne hmn] at hm
    exact h m page' hm hfree

/-- A page in use gets another link. -/
private theorem FreeBlank.relink {pages : PageId → Option Page} (h : FreeBlank pages) (neighbour : Page) :
    FreeBlank (if neighbour.page_number ≠ INVALID_NUMBER then
        Function.update pages neighbour.page_number (some (neighbour.stored neighbour.header))
      else pages) := by
  split
  · next hused =>
    refine h.update ?_ _
    exact fun hfree => absurd hfree hused
  · exact h

/-- The file is in order, and its free pages are blank. -/
structure Neat (file : PageFile) : Prop extends InOrder file where
  blank : FreeBlank file.pages

theorem neat_create : create.Neat := ⟨inOrder_create, fun _ _ hp => by cases hp⟩

variable {file file' : PageFile} {free : List PageId} {placed : FileHeader × Page × Page}

/-- The page that is given away. -/
private theorem Sound.placePage_blank (h : file.Sound free) (hblank : FreeBlank file.pages)
    (hrun : placePage file.header file = .ok placed file') : placed.2.1.bare = .fresh := by
  unfold placePage at hrun
  split at hrun
  · next hsome =>
    -- the head of the free list
    obtain ⟨m, rest, rfl⟩ : ∃ m rest, free = m :: rest := by
      rw [h.num_free] at hsome
      exact List.length_pos_iff_exists_cons.mp hsome
    obtain ⟨old, hp, hfree⟩ := (h.mem_free m).mp List.mem_cons_self
    have hread : readPageWith file.header.first_free_page true file = .ok old file := by
      rw [show file.header.first_free_page = m from h.free_chain.1]
      exact readPageWith_eq h.alive hp (.inl rfl)
    have hold := hblank m old hp hfree
    -- what is returned has passed the assertion
    have hcheck : ∀ {c : Prop} [Decidable c] (placed₁ : FileHeader × Page × Page) (file₁ : PageFile),
        placed₁.2.1.bare = .fresh →
        (if c then pure placed₁ else throw FileError.assertion : FileM _) file₁ = .ok placed file' →
        placed.2.1.bare = .fresh := by
      intro c _ placed₁ file₁ hfresh hreturn
      split at hreturn
      · obtain ⟨rfl, -⟩ := EStateM.Result.ok.inj hreturn
        exact hfresh
      · cases hreturn
    rw [reusePage, run_bind_ok hread] at hrun
    dsimp only at hrun
    split at hrun
    · refine hcheck _ _ ?_ hrun
      dsimp only
      split <;> exact hold
    · obtain ⟨place, file₂, -, hrun⟩ := bind_ok_cases hrun
      exact hcheck _ _ hold hrun
  · -- a page behind the others
    rw [appendPage] at hrun
    split at hrun
    · obtain ⟨rfl, -⟩ := EStateM.Result.ok.inj hrun
      exact Page.bare_fresh
    · obtain ⟨tail, file₁, -, hrun⟩ := bind_ok_cases hrun
      split at hrun
      · obtain ⟨rfl, -⟩ := EStateM.Result.ok.inj hrun
        exact Page.bare_fresh
      · cases hrun

/-- It changes nothing to look for the page. -/
private theorem Sound.placePage_same (h : file.Sound free) (hrun : placePage file.header file = .ok placed file') :
    file' = file := by
  unfold placePage at hrun
  split at hrun
  · next hsome =>
    obtain ⟨m, rest, rfl⟩ : ∃ m rest, free = m :: rest := by
      rw [h.num_free] at hsome
      exact List.length_pos_iff_exists_cons.mp hsome
    rcases h.reusePage_cases with ⟨_, _, _, hreuse, -⟩ | ⟨e, hreuse⟩
    · exact (EStateM.Result.ok.inj (hrun.symm.trans hreuse)).2
    · rw [hreuse] at hrun
      cases hrun
  · rcases h.appendPage_cases with ⟨_, _, _, happend, -⟩ | ⟨e, happend⟩
    · exact (EStateM.Result.ok.inj (hrun.symm.trans happend)).2
    · rw [happend] at hrun
      cases hrun

namespace Neat

variable (h : file.Neat) {p : PageId}
include h

/-- `writePage`, of a page in use under its number. -/
theorem writePage (hlive : contentsOn file.pages p ≠ none) {page : Page} (hnum : page.page_number = p) :
    ∃ file', PageFile.writePage p page file = .ok () file' ∧ file'.Neat ∧
      contentsOn file'.pages = Function.update (contentsOn file.pages) p (some page.unlinked) := by
  obtain ⟨file', hrun, horder, -, hcontents⟩ := h.toInOrder.writePage hlive hnum
  obtain ⟨left, hsound⟩ := h.sound
  obtain ⟨old, hold, hmarked⟩ := contentsOn_ne_none_iff.mp hlive
  refine ⟨file', hrun, ⟨horder, ?_⟩, hcontents⟩
  rw [hsound.writePage_used hold hmarked page] at hrun
  rw [← (EStateM.Result.ok.inj hrun).2]
  have hused : page.page_number ≠ INVALID_NUMBER := hnum ▸ hsound.ne_zero hold
  refine h.blank.update ?_ p
  exact fun hfree => absurd hfree hused

/-- `allocatePage` gives a blank page. -/
theorem allocatePage (hsafe : FileCall.allocatePage.Safe file) :
    ∃ page file', PageFile.allocatePage file = .ok (page, page.page_number) file' ∧ file'.Neat ∧ page.bare = .fresh ∧
      contentsOn file.pages page.page_number = none ∧
      contentsOn file'.pages = Function.update (contentsOn file.pages) page.page_number (some page.unlinked) := by
  obtain ⟨page, file', hrun, horder, hunused, hcontents⟩ := h.toInOrder.allocatePage hsafe
  obtain ⟨left, hsound⟩ := h.sound
  obtain ⟨placed, file₁, hplaced⟩ : ∃ placed file₁, placePage file.header file = .ok placed file₁ := by
    rw [PageFile.allocatePage, run_bind_ok (readHeader_eq hsound.alive)] at hrun
    obtain ⟨placed, file₁, hplaced, -⟩ := bind_ok_cases hrun
    exact ⟨placed, file₁, hplaced⟩
  have hblank := hsound.placePage_blank h.blank hplaced
  obtain rfl := hsound.placePage_same hplaced
  have hstored : (placed.2.1.stored placed.2.1.header).bare = .fresh := placed.2.1.bare_stored_header.trans hblank
  obtain ⟨hpage, hfile⟩ := EStateM.Result.ok.inj (hrun.symm.trans (allocatePage_eq hsound.alive hplaced))
  refine ⟨page, file', hrun, ⟨horder, ?_⟩, ?_, hunused, hcontents⟩
  · rw [hfile]
    exact (h.blank.update (fun _ => hstored) _).relink _
  · rw [(Prod.mk.inj hpage).1]
    exact hblank

/-- `deletePage`, of a page in use. -/
theorem deletePage (hlive : contentsOn file.pages p ≠ none) :
    ∃ file', PageFile.deletePage p file = .ok () file' ∧ file'.Neat ∧
      contentsOn file'.pages = Function.update (contentsOn file.pages) p none := by
  obtain ⟨file', _, _, _, hrun, horder, hcontents, -⟩ := h.toInOrder.deletePage hlive
  obtain ⟨left, hsound⟩ := h.sound
  obtain ⟨page, hpage, hmarked⟩ := contentsOn_ne_none_iff.mp hlive
  have hread := hsound.readPage_used hpage hmarked
  refine ⟨file', hrun, ⟨horder, ?_⟩, hcontents⟩
  rcases hsound.previousPage_cases p page with ⟨previous, -, hprevious⟩ | ⟨e, hprevious⟩
  · rw [deletePage_eq hsound.alive hread hprevious] at hrun
    rw [← (EStateM.Result.ok.inj hrun).2]
    refine (h.blank.relink previous).update (fun _ => ?_) p
    exact (Page.bare_stored_header _).trans page.bare_initializePage
  · rw [PageFile.deletePage, run_bind_ok (readHeader_eq hsound.alive), run_bind_ok hread, run_bind_error hprevious] at hrun
    cases hrun

end Neat

end PageFile

end Cs564
