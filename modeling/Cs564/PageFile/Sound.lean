import Cs564.PageFile.Delete

/-!
# What every call keeps

The used list of a file may be led into free pages by an allocation, but no call loses a page: `Sound` says that the free
list is in order and that a page that is there has its number if it is in use.  One lemma for each call says what it does
to such a file, and it leaves such a file.  Of a loop over the used list this needs no more than that it gives a page
that is in use.
-/

namespace Cs564

namespace Page

variable (page : Page)

/-- The page without its link, as it is on disk. -/
def unlinked : Page := page.stored { page.header with next_page_number := INVALID_NUMBER }

theorem stored_stored (header header' : PageHeader) : (page.stored header).stored header' = page.stored header' := by
  simp only [stored, mk.injEq, true_and]
  funext pos
  split <;> rfl

/-- The link is not in it. -/
@[simp] theorem unlinked_stored (n : PageId) :
    (page.stored { page.header with next_page_number := n }).unlinked = page.unlinked := stored_stored ..

@[simp] theorem unlinked_set_next_page_number (n : PageId) :
    (page.set_next_page_number n).unlinked = page.unlinked := rfl

/-- A page that is written with its own header. -/
@[simp] theorem unlinked_stored_header : (page.stored page.header).unlinked = page.unlinked := stored_stored ..

@[simp] theorem page_number_unlinked : page.unlinked.page_number = page.page_number := rfl

end Page

/-- The used pages on disk without their links. -/
def contentsOn (pages : PageId → Option Page) (n : PageId) : Option Page :=
  (pages n).bind fun page => if page.isUsed then some page.unlinked else none

section Contents

variable {pages : PageId → Option Page} {n : PageId} {page : Page}

theorem contentsOn_used (hp : pages n = some page) (hused : page.page_number ≠ INVALID_NUMBER) :
    contentsOn pages n = some page.unlinked := by
  rw [contentsOn, hp, Option.bind_some, if_pos (page.isUsed_eq_true_iff.mpr hused)]

theorem contentsOn_free (hp : pages n = some page) (hfree : page.page_number = INVALID_NUMBER) :
    contentsOn pages n = none := by
  rw [contentsOn, hp, Option.bind_some, if_neg fun hused => page.isUsed_eq_true_iff.mp hused hfree]

theorem contentsOn_absent (hp : pages n = none) : contentsOn pages n = none := by rw [contentsOn, hp, Option.bind_none]

theorem contentsOn_ne_none_iff :
    contentsOn pages n ≠ none ↔ ∃ page, pages n = some page ∧ page.page_number ≠ INVALID_NUMBER := by
  constructor
  · intro h
    cases hp : pages n with
    | none => exact absurd (contentsOn_absent hp) h
    | some page => exact ⟨page, rfl, fun hfree => h (contentsOn_free hp hfree)⟩
  · rintro ⟨page, hp, hused⟩ hnone
    exact Option.some_ne_none _ ((contentsOn_used hp hused).symm.trans hnone)

theorem contentsOn_update : contentsOn (Function.update pages n (some page)) =
    Function.update (contentsOn pages) n (if page.isUsed then some page.unlinked else none) := by
  funext m
  by_cases hm : m = n
  · subst hm
    rw [contentsOn, Function.update_self, Function.update_self]
    rfl
  · rw [contentsOn, Function.update_of_ne hm, Function.update_of_ne hm]
    rfl

/-- A used page is written. -/
theorem contentsOn_update_used (hused : page.page_number ≠ INVALID_NUMBER) :
    contentsOn (Function.update pages n (some page)) = Function.update (contentsOn pages) n (some page.unlinked) := by
  rw [contentsOn_update, if_pos (page.isUsed_eq_true_iff.mpr hused)]

/-- A used page gets another link. -/
theorem contentsOn_relink {page' : Page} (hp : pages n = some page) (hused : page.page_number ≠ INVALID_NUMBER)
    (hsame : page'.unlinked = page.unlinked) :
    contentsOn (Function.update pages n (some page')) = contentsOn pages := by
  have hnum : page'.unlinked.page_number = page.unlinked.page_number := congrArg Page.page_number hsame
  have hused' : page'.page_number ≠ INVALID_NUMBER := fun hfree => hused (hnum.symm.trans hfree)
  rw [contentsOn_update_used hused', hsame, Function.update_eq_self_iff]
  exact (contentsOn_used hp hused).symm

end Contents

namespace PageFile

/-- The pages that are there are those below `num_pages`; the free list has those among them that are marked as free, and
the others are marked with their numbers. -/
structure Sound (file : PageFile) (free : List PageId) : Prop where
  alive : file.failed = false
  num_pos : 1 ≤ file.header.num_pages
  num_lt : file.header.num_pages < 2 ^ 32
  free_chain : Chain (linkOn file.pages) file.header.first_free_page free INVALID_NUMBER
  free_nodup : free.Nodup
  num_free : file.header.num_free_pages = free.length
  present : ∀ n, (∃ page, file.pages n = some page) ↔ 1 ≤ n ∧ n < file.header.num_pages
  number : ∀ n page, file.pages n = some page → page.page_number = INVALID_NUMBER ∨ page.page_number = n
  mem_free : ∀ n, n ∈ free ↔ ∃ page, file.pages n = some page ∧ page.page_number = INVALID_NUMBER

/-- A new file. -/
theorem sound_create : create.Sound [] where
  alive := rfl
  num_pos := Nat.le_refl 1
  num_lt := by decide
  free_chain := rfl
  free_nodup := List.nodup_nil
  num_free := rfl
  present n := by
    constructor
    · rintro ⟨page, hp⟩
      cases hp
    · rintro ⟨hpos, hlt⟩
      exact absurd hpos (Nat.not_le.mpr hlt)
  number _ _ hp := by cases hp
  mem_free n := by
    constructor
    · intro hn
      exact absurd hn List.not_mem_nil
    · rintro ⟨page, hp, -⟩
      cases hp

namespace Sound

variable {file : PageFile} {free : List PageId} (h : file.Sound free) {n : PageId} {page page' : Page}
include h

theorem pos (hp : file.pages n = some page) : 1 ≤ n := ((h.present n).mp ⟨page, hp⟩).1

theorem lt (hp : file.pages n = some page) : n < file.header.num_pages := ((h.present n).mp ⟨page, hp⟩).2

theorem ne_zero (hp : file.pages n = some page) : n ≠ INVALID_NUMBER := Nat.ne_of_gt (h.pos hp)

/-- There is no page 0. -/
theorem zero_absent : file.pages INVALID_NUMBER = none := by
  cases hp : file.pages INVALID_NUMBER with
  | none => rfl
  | some page => exact absurd (h.pos hp) (Nat.not_succ_le_zero 0)

/-- There is no page from `num_pages` on. -/
theorem absent (hn : file.header.num_pages ≤ n) : file.pages n = none := by
  cases hp : file.pages n with
  | none => rfl
  | some page => exact absurd (h.lt hp) (Nat.not_lt.mpr hn)

/-- A page in use is marked with its number. -/
theorem number_used (hp : file.pages n = some page) (hused : page.page_number ≠ INVALID_NUMBER) : page.page_number = n :=
  (h.number n page hp).resolve_left hused

/-- A page in use is not in the free list. -/
theorem not_free (hp : file.pages n = some page) (hnum : page.page_number = n) : n ∉ free := by
  intro hn
  obtain ⟨page', hp', hfree⟩ := (h.mem_free n).mp hn
  obtain rfl := Option.some.inj (hp.symm.trans hp')
  exact h.ne_zero hp (hnum.symm.trans hfree)

/-- Page `m` is in use after a call, under a header with the free list that is left. -/
theorem assign {m : PageId} {left : List PageId} {header : FileHeader} (hm : 1 ≤ m) (hnum : page.page_number = m)
    (hlt : header.num_pages < 2 ^ 32)
    (hpages : ∀ n, n = m ∨ 1 ≤ n ∧ n < file.header.num_pages ↔ 1 ≤ n ∧ n < header.num_pages)
    (hchain : Chain (linkOn file.pages) header.first_free_page left INVALID_NUMBER) (hnodup : left.Nodup)
    (hcount : header.num_free_pages = left.length) (hleft : ∀ n, n ∈ left ↔ n ∈ free ∧ n ≠ m) :
    Sound { file with header := header, pages := Function.update file.pages m (some page) } left where
  alive := h.alive
  num_pos := Nat.le_of_lt (Nat.lt_of_le_of_lt hm ((hpages m).mp (.inl rfl)).2)
  num_lt := hlt
  free_chain := by
    rw [linkOn_update]
    exact hchain.update (fun hmem => ((hleft m).mp hmem).2 rfl) _
  free_nodup := hnodup
  num_free := hcount
  present n := by
    rw [← hpages n, ← h.present n]
    dsimp only
    by_cases hn : n = m
    · subst hn
      rw [Function.update_self]
      exact ⟨fun _ => .inl rfl, fun _ => ⟨page, rfl⟩⟩
    · rw [Function.update_of_ne hn, or_iff_right hn]
  number n page' hp' := by
    dsimp only at hp'
    by_cases hn : n = m
    · subst hn
      rw [Function.update_self, Option.some.injEq] at hp'
      exact .inr (hp' ▸ hnum)
    · rw [Function.update_of_ne hn] at hp'
      exact h.number n page' hp'
  mem_free n := by
    rw [hleft n]
    dsimp only
    by_cases hn : n = m
    · subst hn
      rw [Function.update_self]
      constructor
      · rintro ⟨-, hne⟩
        exact absurd rfl hne
      · rintro ⟨page', hp', hzero⟩
        obtain rfl := Option.some.inj hp'
        have hzero' : n = 0 := hnum.symm.trans hzero
        exact absurd hzero' (Nat.ne_of_gt hm)
    · rw [Function.update_of_ne hn, ← h.mem_free n, and_iff_left hn]

/-- A page in use is written. -/
theorem update (hp : file.pages n = some page) (hnum : page.page_number = n) (hnum' : page'.page_number = n) :
    Sound { file with pages := Function.update file.pages n (some page') } free := by
  refine h.assign (h.pos hp) hnum' h.num_lt (fun m => ?_) h.free_chain h.free_nodup h.num_free fun m => ?_
  · rw [or_iff_right_iff_imp]
    rintro rfl
    exact ⟨h.pos hp, h.lt hp⟩
  · exact ⟨fun hm => ⟨hm, ne_of_mem_of_not_mem hm (h.not_free hp hnum)⟩, And.left⟩

/-! ### Reads -/

/-- `readPage` gives a page that is in use. -/
theorem readPage_used (hp : file.pages n = some page) (hused : page.page_number ≠ INVALID_NUMBER) :
    readPage n file = .ok page file :=
  readPage_eq h.alive (h.lt hp) hp (page.isUsed_eq_true_iff.mpr hused)

/-- `readPage` of any other page throws. -/
theorem readPage_none (hn : n ≠ INVALID_NUMBER) (hnone : contentsOn file.pages n = none) :
    readPage n file = .error (.invalidPage n) file := by
  rw [readPage, run_bind_ok (readHeader_eq h.alive)]
  by_cases hlt : n < file.header.num_pages
  · rw [if_neg (Nat.not_le.mpr hlt)]
    obtain ⟨page, hp⟩ := (h.present n).mpr ⟨Nat.pos_of_ne_zero hn, hlt⟩
    have hfree : page.page_number = INVALID_NUMBER := by
      by_contra hused
      exact contentsOn_ne_none_iff.mpr ⟨page, hp, hused⟩ hnone
    have hcond : (!false && !page.isUsed) = true := by
      simp [Page.isUsed, hfree]
    simp only [readPageWith, run_bind, run_get, run_modify, hp, Option.isNone_some, Bool.or_false, h.alive,
      Bool.false_eq_true, if_false, Option.getD_some, hcond, if_true, run_throw]
    rw [← h.alive]
  · rw [if_pos (Nat.not_lt.mp hlt)]
    rfl

/-- `readPage(0)` throws, and leaves the stream with its `failbit` set. -/
theorem readPage_zero : readPage INVALID_NUMBER file = .error (.invalidPage INVALID_NUMBER)
    { file with failed := true } := by
  have hlt : ¬ INVALID_NUMBER ≥ file.header.num_pages := Nat.not_le.mpr h.num_pos
  have hcond : (!false && !Page.fresh.isUsed) = true := rfl
  rw [readPage, run_bind_ok (readHeader_eq h.alive), if_neg hlt]
  simp only [readPageWith, run_bind, run_get, run_modify, h.zero_absent, Option.isNone_none, Bool.or_true, h.alive,
    Bool.false_eq_true, if_false, Option.getD_none, hcond, if_true, run_throw]

/-- A loop over the used list ends with a value that the rounds lead to, or throws, and changes nothing. -/
theorem forPages_cases {α : Type} {body : α → Page → α × Bool} {good : α → Prop}
    (hbody : ∀ n page acc, file.pages n = some page → page.page_number = n → good acc → good (body acc page).1)
    (fuel : Nat) (current : PageId) {acc : α} (hacc : good acc) :
    (∃ r, good r ∧ forPages body fuel current acc file = .ok r file) ∨
      ∃ e, forPages body fuel current acc file = .error e file := by
  induction fuel generalizing current acc with
  | zero =>
    rw [forPages]
    by_cases hend : current = INVALID_NUMBER
    · rw [if_pos hend]
      exact .inl ⟨acc, hacc, rfl⟩
    · rw [if_neg hend]
      exact .inr ⟨.outOfFuel, rfl⟩
  | succ fuel ih =>
    rw [forPages]
    by_cases hend : current = INVALID_NUMBER
    · rw [if_pos hend]
      exact .inl ⟨acc, hacc, rfl⟩
    · rw [if_neg hend]
      by_cases hused : contentsOn file.pages current ≠ none
      · obtain ⟨page, hp, hpage⟩ := contentsOn_ne_none_iff.mp hused
        have hgood := hbody current page acc hp (h.number_used hp hpage) hacc
        rw [run_bind_ok (h.readPage_used hp hpage)]
        by_cases hstop : (body acc page).2 = true
        · rw [if_pos hstop]
          exact .inl ⟨_, hgood, rfl⟩
        · rw [if_neg hstop, run_bind_ok (readPageHeader_eq h.alive hp)]
          exact ih _ hgood
      · exact .inr ⟨_, run_bind_error (h.readPage_none hend (not_not.mp hused))⟩

theorem forAllPages_cases {α : Type} {body : α → Page → α × Bool} {good : α → Prop}
    (hbody : ∀ n page acc, file.pages n = some page → page.page_number = n → good acc → good (body acc page).1)
    {acc : α} (hacc : good acc) :
    (∃ r, good r ∧ forAllPages body acc file = .ok r file) ∨ ∃ e, forAllPages body acc file = .error e file := by
  rw [forAllPages, run_bind_ok (readHeader_eq h.alive)]
  exact h.forPages_cases hbody _ _ hacc

/-! ### Writes -/

/-- `writePage` of a page in use, under its number. -/
theorem writePage_used (hp : file.pages n = some page) (hused : page.page_number ≠ INVALID_NUMBER) (new_page : Page) :
    writePage n new_page file = .ok () { file with
      pages := Function.update file.pages n
        (some (new_page.stored { new_page.header with next_page_number := page.next_page_number })) } := by
  have hne : ¬ page.header.current_page_number = INVALID_NUMBER := hused
  rw [writePage, run_bind_ok (readPageHeader_eq h.alive hp), if_neg hne, writePageWith_eq h.alive]
  rfl

/-- The file has the contents of the page that was written. -/
theorem writePage_contents (hlive : contentsOn file.pages n ≠ none) {new_page : Page} (hnum : new_page.page_number = n) :
    ∃ file', writePage n new_page file = .ok () file' ∧ file'.Sound free ∧
      contentsOn file'.pages = Function.update (contentsOn file.pages) n (some new_page.unlinked) := by
  obtain ⟨page, hp, hused⟩ := contentsOn_ne_none_iff.mp hlive
  have hback : (new_page.stored { new_page.header with next_page_number := page.next_page_number }).page_number = n := hnum
  refine ⟨_, h.writePage_used hp hused new_page, h.update hp (h.number_used hp hused) hback, ?_⟩
  rw [contentsOn_update_used (hback ▸ h.ne_zero hp), Page.unlinked_stored]

/-- `writePage` of a page that is free throws. -/
theorem writePage_free (hp : file.pages n = some page) (hfree : page.page_number = INVALID_NUMBER) (new_page : Page) :
    writePage n new_page file = .error (.invalidPage n) file := by
  have hzero : page.header.current_page_number = INVALID_NUMBER := hfree
  rw [writePage, run_bind_ok (readPageHeader_eq h.alive hp), if_pos hzero]
  rfl

omit h in
/-- `writePage` under a number that no page has goes on with a header that was not read. -/
theorem writePage_absent (hp : file.pages n = none) (new_page : Page) :
    writePage n new_page file = .error .indeterminate { file with failed := true } := by
  have hheader : readPageHeader n file = .error .indeterminate { file with failed := true } := by
    simp only [readPageHeader, run_bind, run_get, run_modify, hp, Option.isNone_none, Bool.or_true, run_throw]
  exact run_bind_error hheader

end Sound

/-! ### Allocation -/

/-- The page that gets a new link by a call: it is `Page()`, which is not written, or a page in use. -/
def Neighbour (file : PageFile) (neighbour : Page) : Prop :=
  neighbour.page_number = INVALID_NUMBER ∨
    ∃ n page link, file.pages n = some page ∧ page.page_number = n ∧ neighbour = page.set_next_page_number link

variable {file : PageFile} {free : List PageId}

theorem Neighbour.of_page {n : PageId} {page : Page} (hp : file.pages n = some page) (hnum : page.page_number = n) :
    Neighbour file page := .inr ⟨n, page, page.next_page_number, hp, hnum, rfl⟩

theorem Neighbour.relink {neighbour : Page} (hn : Neighbour file neighbour) (link : PageId) :
    Neighbour file (neighbour.set_next_page_number link) := by
  rcases hn with hzero | ⟨n, page, old, hp, hnum, rfl⟩
  · exact .inl hzero
  · exact .inr ⟨n, page, link, hp, hnum, rfl⟩

/-- The loops of `allocatePage` end at a page in use, if they do not throw. -/
private theorem Sound.findPlace_cases (h : file.Sound free) (m : PageId) :
    (∃ place : Page × PageId, Neighbour file place.1 ∧
      forAllPages (findPlace m) (Page.fresh, INVALID_NUMBER) file = .ok place file) ∨
    ∃ e, forAllPages (findPlace m) (Page.fresh, INVALID_NUMBER) file = .error e file := by
  have hround : ∀ n page (acc : Page × PageId), file.pages n = some page → page.page_number = n →
      Neighbour file acc.1 → Neighbour file (findPlace m acc page).1.1 := by
    intro n page acc hp hnum hacc
    unfold findPlace
    dsimp only
    split
    · exact .of_page hp hnum
    · exact hacc
  exact h.forAllPages_cases hround (.inl rfl)

private theorem Sound.findTail_cases (h : file.Sound free) :
    (∃ tail, Neighbour file tail ∧ forAllPages findTail Page.fresh file = .ok tail file) ∨
      ∃ e, forAllPages findTail Page.fresh file = .error e file := by
  have hround : ∀ n page acc, file.pages n = some page → page.page_number = n → Neighbour file acc →
      Neighbour file (findTail acc page).1 := by
    intro n page acc hp hnum hacc
    unfold findTail
    split
    · exact .of_page hp hnum
    · exact hacc
  exact h.forAllPages_cases hround (.inl rfl)

/-- The head of the free list is given away, or the call throws. -/
theorem Sound.reusePage_cases {m : PageId} {rest : List PageId} (h : file.Sound (m :: rest)) :
    (∃ first page neighbour, reusePage file.header file =
        .ok ({ file.header with first_used_page := first, first_free_page := linkOn file.pages m,
                                num_free_pages := file.header.num_free_pages - 1 }, page, neighbour) file ∧
      page.page_number = m ∧ Neighbour file neighbour) ∨
    ∃ e, reusePage file.header file = .error e file := by
  obtain ⟨page, hp, -⟩ := (h.mem_free m).mp (List.mem_cons_self ..)
  have hfirst : file.header.first_free_page = m := h.free_chain.1
  rw [reusePage, hfirst, run_bind_ok (readPageWith_eq h.alive hp (.inl rfl)), linkOn_some hp]
  dsimp only
  split
  · rw [run_bind_ok (run_pure _ _)]
    split
    · refine .inl ⟨_, _, _, rfl, ?_, .inl rfl⟩
      split <;> rfl
    · exact .inr ⟨.assertion, rfl⟩
  · rw [Page.page_number_set_page_number]
    rcases h.findPlace_cases m with ⟨place, hplace, hrun⟩ | ⟨e, hrun⟩
    · rw [run_bind_ok hrun, run_bind_ok (run_pure _ _)]
      split
      · exact .inl ⟨_, _, _, rfl, rfl, hplace.relink m⟩
      · exact .inr ⟨.assertion, rfl⟩
    · exact .inr ⟨e, run_bind_error hrun⟩

/-- A new page is given away, or the call throws. -/
theorem Sound.appendPage_cases (h : file.Sound free) :
    (∃ first page neighbour, appendPage file.header file =
        .ok ({ file.header with first_used_page := first, num_pages := u32 (file.header.num_pages + 1) }, page,
          neighbour) file ∧
      page.page_number = file.header.num_pages ∧ Neighbour file neighbour ∧ first ≠ INVALID_NUMBER) ∨
    ∃ e, appendPage file.header file = .error e file := by
  rw [appendPage]
  dsimp only
  split
  · exact .inl ⟨_, _, _, rfl, rfl, .inl rfl, Nat.ne_of_gt h.num_pos⟩
  · rename_i hfirst
    rcases h.findTail_cases with ⟨tail, htail, hrun⟩ | ⟨e, hrun⟩
    · rw [run_bind_ok hrun]
      split
      · exact .inl ⟨_, _, _, rfl, rfl, htail.relink _, hfirst⟩
      · exact .inr ⟨.assertion, rfl⟩
    · exact .inr ⟨e, run_bind_error hrun⟩

/-- The head of the free list is in use. -/
private theorem Sound.take {m : PageId} {rest : List PageId} (h : file.Sound (m :: rest)) (first : PageId) {page : Page}
    (hnum : page.page_number = m) :
    Sound { file with
      header := { file.header with first_used_page := first, first_free_page := linkOn file.pages m,
                                   num_free_pages := file.header.num_free_pages - 1 }
      pages := Function.update file.pages m (some page) } rest := by
  obtain ⟨old, hp, -⟩ := (h.mem_free m).mp (List.mem_cons_self ..)
  have hnodup := List.nodup_cons.mp h.free_nodup
  refine h.assign (h.pos hp) hnum h.num_lt (fun n => ?_) h.free_chain.2 hnodup.2 ?_ fun n => ?_
  · rw [or_iff_right_iff_imp]
    rintro rfl
    exact ⟨h.pos hp, h.lt hp⟩
  · change file.header.num_free_pages - 1 = rest.length
    rw [h.num_free]
    rfl
  · rw [List.mem_cons]
    constructor
    · intro hn
      exact ⟨.inr hn, ne_of_mem_of_not_mem hn hnodup.1⟩
    · rintro ⟨hn, hne⟩
      exact hn.resolve_left hne

/-- The page behind the others is in use. -/
private theorem Sound.append (h : file.Sound []) (first : PageId) (hlt : file.header.num_pages + 1 < 2 ^ 32) {page : Page}
    (hnum : page.page_number = file.header.num_pages) :
    Sound { file with
      header := { file.header with first_used_page := first, num_pages := u32 (file.header.num_pages + 1) }
      pages := Function.update file.pages file.header.num_pages (some page) } [] := by
  have hmore : u32 (file.header.num_pages + 1) = file.header.num_pages + 1 := Nat.mod_eq_of_lt hlt
  have hbounds : ∀ k N : Nat, 1 ≤ N → ((k = N ∨ 1 ≤ k ∧ k < N) ↔ 1 ≤ k ∧ k < N + 1) := by omega
  rw [hmore]
  refine h.assign h.num_pos hnum hlt (fun n => hbounds n _ h.num_pos) h.free_chain List.nodup_nil h.num_free fun n => ?_
  exact ⟨fun hn => absurd hn List.not_mem_nil, And.left⟩

/-- What `allocatePage` does when it returns `page`: its number was not in use, and no other page changes but for its link.
With the number `2 ^ 32 - 1` the numbers have run out, and `num_pages` is 0. -/
structure Allocates (file : PageFile) (page : Page) (file' : PageFile) : Prop where
  unused : contentsOn file.pages page.page_number = none
  number : page.page_number ≠ INVALID_NUMBER
  contents : contentsOn file'.pages = Function.update (contentsOn file.pages) page.page_number (some page.unlinked)
  sound : file'.header.num_pages ≠ 0 → ∃ left, file'.Sound left
  room : (file.header.num_free_pages = 0 → file.header.num_pages + 1 < 2 ^ 32) → file'.header.num_pages ≠ 0

/-- The pages in use stay in use. -/
theorem Allocates.live {page : Page} {file' : PageFile} (ha : Allocates file page file') {n : PageId}
    (hn : n = page.page_number ∨ contentsOn file.pages n ≠ none) : contentsOn file'.pages n ≠ none := by
  rw [ha.contents]
  by_cases heq : n = page.page_number
  · subst heq
    rw [Function.update_self]
    exact Option.some_ne_none _
  · rw [Function.update_of_ne heq]
    exact hn.resolve_left heq

/-- The end of `allocatePage`: the page is written, and then the page in front of it. -/
private theorem Sound.allocatePage_placed {header : FileHeader} {page neighbour : Page} (h : file.Sound free)
    (hplaced : placePage file.header file = .ok (header, page, neighbour) file) (hneighbour : Neighbour file neighbour)
    (hunused : contentsOn file.pages page.page_number = none) (hnumber : page.page_number ≠ INVALID_NUMBER) :
    ∃ file', allocatePage file = .ok (page, page.page_number) file' ∧ file'.header = header ∧
      contentsOn file'.pages = Function.update (contentsOn file.pages) page.page_number (some page.unlinked) ∧
      ∀ left, Sound { file with header := header
                                pages := Function.update file.pages page.page_number (some (page.stored page.header)) }
        left → file'.Sound left := by
  have hused : (page.stored page.header).page_number ≠ INVALID_NUMBER := hnumber
  have hwritten : contentsOn (Function.update file.pages page.page_number (some (page.stored page.header))) =
      Function.update (contentsOn file.pages) page.page_number (some page.unlinked) := by
    rw [contentsOn_update_used hused, Page.unlinked_stored_header]
  refine ⟨_, allocatePage_eq h.alive hplaced, rfl, ?_⟩
  rcases hneighbour with hzero | ⟨n, old, link, hp, hnum, rfl⟩
  · have hno : ¬ neighbour.page_number ≠ INVALID_NUMBER := not_not.mpr hzero
    simp only [if_neg hno]
    exact ⟨hwritten, fun left hleft => hleft⟩
  · have hne : n ≠ INVALID_NUMBER := h.ne_zero hp
    have hold : old.page_number ≠ INVALID_NUMBER := hnum ▸ hne
    have hapart : n ≠ page.page_number := by
      rintro rfl
      exact contentsOn_ne_none_iff.mpr ⟨old, hp, hold⟩ hunused
    have hsame : ((old.set_next_page_number link).stored (old.set_next_page_number link).header).unlinked =
        old.unlinked := Page.unlinked_stored old link
    have hnum' : ((old.set_next_page_number link).stored (old.set_next_page_number link).header).page_number = n := hnum
    simp only [Page.page_number_set_next_page_number, hnum, if_pos hne]
    have hstill : Function.update file.pages page.page_number (some (page.stored page.header)) n = some old := by
      rw [Function.update_of_ne hapart]
      exact hp
    constructor
    · rw [contentsOn_relink hstill hold hsame, hwritten]
    · exact fun left hleft => hleft.update hstill hnum hnum'

/-- `allocatePage`. -/
theorem Sound.allocatePage_cases (h : file.Sound free) :
    (∃ page file', allocatePage file = .ok (page, page.page_number) file' ∧ Allocates file page file') ∨
      ∃ e, allocatePage file = .error e file := by
  cases free with
  | nil =>
    have hnone : ¬ file.header.num_free_pages > 0 := by
      rw [h.num_free]
      exact Nat.lt_irrefl 0
    have hplace : placePage file.header file = appendPage file.header file := congrFun (if_neg hnone) file
    rcases h.appendPage_cases with ⟨first, page, neighbour, hrun, hnum, hneighbour, -⟩ | ⟨e, hrun⟩
    · have hunused : contentsOn file.pages page.page_number = none := by
        rw [hnum]
        exact contentsOn_absent (h.absent (Nat.le_refl _))
      have hnumber : page.page_number ≠ INVALID_NUMBER := by
        rw [hnum]
        exact Nat.ne_of_gt h.num_pos
      obtain ⟨file', halloc, hheader, hcontents, hsound⟩ :=
        h.allocatePage_placed (hplace.trans hrun) hneighbour hunused hnumber
      have hroom : file'.header.num_pages ≠ 0 ↔ file.header.num_pages + 1 < 2 ^ 32 := by
        have hwrap : ∀ N : Nat, N < 2 ^ 32 → ((N + 1) % 2 ^ 32 ≠ 0 ↔ N + 1 < 2 ^ 32) := by omega
        rw [hheader]
        exact hwrap _ h.num_lt
      refine .inl ⟨page, file', halloc, hunused, hnumber, hcontents, fun hpages => ⟨[], hsound [] ?_⟩, fun hlt => ?_⟩
      · have hstored : (page.stored page.header).page_number = file.header.num_pages := hnum
        rw [hnum]
        exact h.append first (hroom.mp hpages) hstored
      · exact hroom.mpr (hlt h.num_free)
    · refine .inr ⟨e, ?_⟩
      rw [allocatePage, run_bind_ok (readHeader_eq h.alive), run_bind_error (hplace.trans hrun)]
  | cons m rest =>
    have hsome : file.header.num_free_pages > 0 := by
      rw [h.num_free]
      exact Nat.succ_pos _
    have hplace : placePage file.header file = reusePage file.header file := congrFun (if_pos hsome) file
    rcases h.reusePage_cases with ⟨first, page, neighbour, hrun, hnum, hneighbour⟩ | ⟨e, hrun⟩
    · obtain ⟨old, hp, hfree⟩ := (h.mem_free m).mp (List.mem_cons_self ..)
      have hunused : contentsOn file.pages page.page_number = none := by
        rw [hnum]
        exact contentsOn_free hp hfree
      have hnumber : page.page_number ≠ INVALID_NUMBER := by
        rw [hnum]
        exact h.ne_zero hp
      obtain ⟨file', halloc, hheader, hcontents, hsound⟩ :=
        h.allocatePage_placed (hplace.trans hrun) hneighbour hunused hnumber
      refine .inl ⟨page, file', halloc, hunused, hnumber, hcontents, fun _ => ⟨rest, hsound rest ?_⟩, fun _ => ?_⟩
      · have hstored : (page.stored page.header).page_number = m := hnum
        rw [hnum]
        exact h.take first hstored
      · rw [hheader]
        exact Nat.ne_of_gt h.num_pos
    · refine .inr ⟨e, ?_⟩
      rw [allocatePage, run_bind_ok (readHeader_eq h.alive), run_bind_error (hplace.trans hrun)]

/-- The numbers have run out: no page can be read, and none is free. -/
structure Exhausted (file : PageFile) : Prop where
  alive : file.failed = false
  num_pages : file.header.num_pages = 0
  num_free : file.header.num_free_pages = 0
  first_used : file.header.first_used_page ≠ INVALID_NUMBER

/-- The allocation of the last number. -/
theorem Sound.allocatePage_exhausted (h : file.Sound free) {result : Page × PageId} {file' : PageFile}
    (hrun : allocatePage file = .ok result file') (hzero : file'.header.num_pages = 0) : file'.Exhausted := by
  cases free with
  | nil =>
    have hnone : ¬ file.header.num_free_pages > 0 := by
      rw [h.num_free]
      exact Nat.lt_irrefl 0
    have hplace : placePage file.header file = appendPage file.header file := congrFun (if_neg hnone) file
    rcases h.appendPage_cases with ⟨first, page, neighbour, happend, -, -, hfirst⟩ | ⟨e, happend⟩
    · rw [allocatePage_eq h.alive (hplace.trans happend)] at hrun
      obtain ⟨-, rfl⟩ := EStateM.Result.ok.inj hrun
      exact ⟨h.alive, hzero, h.num_free, hfirst⟩
    · rw [allocatePage, run_bind_ok (readHeader_eq h.alive), run_bind_error (hplace.trans happend)] at hrun
      cases hrun
  | cons m rest =>
    have hsome : file.header.num_free_pages > 0 := by
      rw [h.num_free]
      exact Nat.succ_pos _
    have hplace : placePage file.header file = reusePage file.header file := congrFun (if_pos hsome) file
    rcases h.reusePage_cases with ⟨first, page, neighbour, hreuse, -, -⟩ | ⟨e, hreuse⟩
    · rw [allocatePage_eq h.alive (hplace.trans hreuse)] at hrun
      obtain ⟨-, rfl⟩ := EStateM.Result.ok.inj hrun
      exact absurd hzero (Nat.ne_of_gt h.num_pos)
    · rw [allocatePage, run_bind_ok (readHeader_eq h.alive), run_bind_error (hplace.trans hreuse)] at hrun
      cases hrun

/-! ### Deletion -/

/-- Page `p` is at the head of the free list. -/
private theorem Sound.release (h : file.Sound free) (first : PageId) {p : PageId} {page cleared : Page}
    (hp : file.pages p = some page) (hnum : page.page_number = p) (hfree : cleared.page_number = INVALID_NUMBER)
    (hlink : cleared.next_page_number = file.header.first_free_page) :
    Sound { file with
      header := { file.header with first_used_page := first, first_free_page := p,
                                   num_free_pages := u32 (file.header.num_free_pages + 1) }
      pages := Function.update file.pages p (some cleared) } (p :: free) := by
  have hnot := h.not_free hp hnum
  have hnodup : (p :: free).Nodup := List.nodup_cons.mpr ⟨hnot, h.free_nodup⟩
  have hlen : (p :: free).length ≤ file.header.num_pages := by
    refine length_le_of_lt hnodup fun n hn => ?_
    rcases List.mem_cons.mp hn with rfl | hn
    · exact h.lt hp
    · obtain ⟨page', hp', -⟩ := (h.mem_free n).mp hn
      exact h.lt hp'
  constructor
  · exact h.alive
  · exact h.num_pos
  · exact h.num_lt
  · rw [linkOn_update, hlink]
    exact h.free_chain.push hnot
  · exact hnodup
  · change u32 (file.header.num_free_pages + 1) = (p :: free).length
    rw [u32, h.num_free]
    exact Nat.mod_eq_of_lt (Nat.lt_of_le_of_lt hlen h.num_lt)
  · intro n
    rw [← h.present n]
    dsimp only
    by_cases hn : n = p
    · subst hn
      rw [Function.update_self]
      exact ⟨fun _ => ⟨page, hp⟩, fun _ => ⟨cleared, rfl⟩⟩
    · rw [Function.update_of_ne hn]
  · intro n page' hp'
    dsimp only at hp'
    by_cases hn : n = p
    · subst hn
      rw [Function.update_self, Option.some.injEq] at hp'
      exact .inl (hp' ▸ hfree)
    · rw [Function.update_of_ne hn] at hp'
      exact h.number n page' hp'
  · intro n
    dsimp only
    by_cases hn : n = p
    · subst hn
      rw [Function.update_self]
      exact ⟨fun _ => ⟨cleared, rfl, hfree⟩, fun _ => List.mem_cons_self ..⟩
    · rw [Function.update_of_ne hn, ← h.mem_free n, List.mem_cons, or_iff_right hn]

/-- The walk of `deletePage` to the page in front. -/
theorem Sound.previousPage_cases (h : file.Sound free) (p : PageId) (existing_page : Page) :
    (∃ previous, Neighbour file previous ∧ previousPage file.header p existing_page file = .ok previous file) ∨
      ∃ e, previousPage file.header p existing_page file = .error e file := by
  rw [previousPage]
  split
  · exact .inl ⟨Page.fresh, .inl rfl, rfl⟩
  · have hround : ∀ n page acc, file.pages n = some page → page.page_number = n → Neighbour file acc →
        Neighbour file (findPrevious existing_page acc page).1 := by
      intro n page acc hp hnum _
      unfold findPrevious
      split
      · exact (Neighbour.of_page hp hnum).relink _
      · exact .of_page hp hnum
    exact h.forAllPages_cases hround (.inl rfl)

/-- A page that is written with another link. -/
private theorem Sound.rewrite (h : file.Sound free) {neighbour : Page} (hneighbour : Neighbour file neighbour) :
    ∃ pages, (if neighbour.page_number ≠ INVALID_NUMBER then
        Function.update file.pages neighbour.page_number (some (neighbour.stored neighbour.header))
      else file.pages) = pages ∧ Sound { file with pages := pages } free ∧ contentsOn pages = contentsOn file.pages := by
  refine ⟨_, rfl, ?_⟩
  rcases hneighbour with hzero | ⟨n, old, link, hp, hnum, rfl⟩
  · rw [if_neg (not_not.mpr hzero)]
    exact ⟨h, rfl⟩
  · have hne : n ≠ INVALID_NUMBER := h.ne_zero hp
    have hsame : ((old.set_next_page_number link).stored (old.set_next_page_number link).header).unlinked =
        old.unlinked := Page.unlinked_stored old link
    have hnum' : ((old.set_next_page_number link).stored (old.set_next_page_number link).header).page_number = n := hnum
    rw [Page.page_number_set_next_page_number, hnum, if_pos hne]
    exact ⟨h.update hp hnum hnum', contentsOn_relink hp (hnum ▸ hne) hsame⟩

/-- `deletePage`, for a page that is there. -/
theorem Sound.deletePage_cases (h : file.Sound free) {p : PageId} (hp : p ≠ INVALID_NUMBER) :
    (∃ file', deletePage p file = .ok () file' ∧ contentsOn file.pages p ≠ none ∧ file'.Sound (p :: free) ∧
      contentsOn file'.pages = Function.update (contentsOn file.pages) p none) ∨
    ∃ e, deletePage p file = .error e file := by
  by_cases hused : contentsOn file.pages p ≠ none
  · obtain ⟨page, hpage, hmarked⟩ := contentsOn_ne_none_iff.mp hused
    have hnum := h.number_used hpage hmarked
    have hread := h.readPage_used hpage hmarked
    rcases h.previousPage_cases p page with ⟨previous, hprevious, hrun⟩ | ⟨e, hrun⟩
    · obtain ⟨pages, hpages, hsound, hcontents⟩ := h.rewrite hprevious
      have hstill : contentsOn pages p ≠ none := by
        rw [hcontents]
        exact hused
      obtain ⟨page', hpage', hmarked'⟩ := contentsOn_ne_none_iff.mp hstill
      refine .inl ⟨_, deletePage_eq h.alive hread hrun, hused, ?_, ?_⟩
      · rw [hpages]
        exact hsound.release _ hpage' (hsound.number_used hpage' hmarked') rfl rfl
      · rw [hpages, contentsOn_update, hcontents]
        rfl
    · refine .inr ⟨e, ?_⟩
      rw [deletePage, run_bind_ok (readHeader_eq h.alive), run_bind_ok hread, run_bind_error hrun]
  · refine .inr ⟨.invalidPage p, ?_⟩
    rw [deletePage, run_bind_ok (readHeader_eq h.alive), run_bind_error (h.readPage_none hp (not_not.mp hused))]

/-- `deletePage(0)` throws, and leaves the stream with its `failbit` set. -/
theorem Sound.deletePage_zero (h : file.Sound free) :
    deletePage INVALID_NUMBER file = .error (.invalidPage INVALID_NUMBER) { file with failed := true } := by
  rw [deletePage, run_bind_ok (readHeader_eq h.alive), run_bind_error h.readPage_zero]

end PageFile

end Cs564
