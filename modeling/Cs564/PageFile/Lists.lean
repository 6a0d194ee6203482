import Cs564.Lib.Chain
import Cs564.PageFile.File
import Mathlib.Data.List.Perm.Subperm

/-!
# The page lists of a file

The used pages and the free pages of a file are linked lists through the same field.  `Lists` says what the lists are
and how the pages are marked; under it reads give the pages, and the loops of `FileIterator` run over the used list
(`forAllPages_eq`).
-/

namespace Cs564

/-- The links between pages on disk. -/
def linkOn (pages : PageId → Option Page) (n : PageId) : PageId := (pages n).elim INVALID_NUMBER Page.next_page_number

theorem linkOn_some {pages : PageId → Option Page} {n : PageId} {page : Page} (h : pages n = some page) :
    linkOn pages n = page.next_page_number := by
  rw [linkOn, h]
  rfl

theorem linkOn_update (pages : PageId → Option Page) (n : PageId) (page : Page) :
    linkOn (Function.update pages n (some page)) = Function.update (linkOn pages) n page.next_page_number := by
  funext m
  by_cases hm : m = n
  · subst hm
    rw [linkOn, Function.update_self, Function.update_self]
    rfl
  · rw [linkOn, Function.update_of_ne hm, Function.update_of_ne hm]
    rfl

namespace PageFile

/-- The page on disk with this number. -/
def pageAt (file : PageFile) (n : PageId) : Page := (file.pages n).getD .fresh

/-- The used list and the free list of a file in order: the lists share out the pages, in the used list the numbers grow,
and a page has its number if it is in use and `INVALID_NUMBER` if it is free. -/
structure Lists (file : PageFile) (used free : List PageId) : Prop where
  alive : file.failed = false
  num_pos : 1 ≤ file.header.num_pages
  num_lt : file.header.num_pages < 2 ^ 32
  used_chain : Chain (linkOn file.pages) file.header.first_used_page used INVALID_NUMBER
  free_chain : Chain (linkOn file.pages) file.header.first_free_page free INVALID_NUMBER
  sorted : used.Pairwise (· < ·)
  free_nodup : free.Nodup
  num_free : file.header.num_free_pages = free.length
  mem_iff : ∀ n, n ∈ used ∨ n ∈ free ↔ 1 ≤ n ∧ n < file.header.num_pages
  used_page : ∀ n ∈ used, ∃ page, file.pages n = some page ∧ page.page_number = n
  free_page : ∀ n ∈ free, ∃ page, file.pages n = some page ∧ page.page_number = INVALID_NUMBER

section Reads

variable {file : PageFile} {n : PageId} {page : Page}

theorem readHeader_eq (h : file.failed = false) : readHeader file = .ok file.header file := by
  simp [readHeader, h]

theorem writeHeader_eq (h : file.failed = false) (header : FileHeader) :
    writeHeader header file = .ok () { file with header := header } := by
  simp [writeHeader, h]

theorem writePageWith_eq (h : file.failed = false) (n : PageId) (header : PageHeader) (page : Page) :
    writePageWith n header page file =
      .ok () { file with pages := Function.update file.pages n (some (page.stored header)) } := by
  simp [writePageWith, h]

/-- A read of a page that is there leaves the stream as it was. -/
private theorem read_state (hp : file.pages n = some page) :
    { file with failed := file.failed || (file.pages n).isNone } = file := by
  simp [hp]

theorem readPageWith_eq (h : file.failed = false) (hp : file.pages n = some page) {allow_free : Bool}
    (hused : allow_free = true ∨ page.isUsed = true) : readPageWith n allow_free file = .ok page file := by
  have hcond : (!allow_free && !page.isUsed) = false := by
    rcases hused with ht | ht <;> simp [ht]
  simp only [readPageWith, run_bind, run_get, run_modify, read_state hp]
  simp only [h, hp, Bool.false_eq_true, if_false, Option.getD_some, hcond, run_pure]

theorem readPage_eq (h : file.failed = false) (hlt : n < file.header.num_pages) (hp : file.pages n = some page)
    (hused : page.isUsed = true) : readPage n file = .ok page file := by
  rw [readPage, run_bind_ok (readHeader_eq h), if_neg (Nat.not_le.mpr hlt)]
  exact readPageWith_eq h hp (.inr hused)

theorem readPageHeader_eq (h : file.failed = false) (hp : file.pages n = some page) :
    readPageHeader n file = .ok page.header file := by
  simp only [readPageHeader, run_bind, run_get, run_modify, read_state hp]
  rw [hp]
  simp [h]

end Reads

/-- A list of different numbers below a bound is not longer than the bound. -/
theorem length_le_of_lt {l : List Nat} (hnodup : l.Nodup) {bound : Nat} (hl : ∀ n ∈ l, n < bound) :
    l.length ≤ bound := by
  have hsub : l ⊆ List.range bound := fun n hn => List.mem_range.mpr (hl n hn)
  have hlen := (hnodup.subperm hsub).length_le
  rwa [List.length_range] at hlen

namespace Lists

variable {file : PageFile} {used free : List PageId} (h : file.Lists used free)
include h

theorem used_pos {n : PageId} (hn : n ∈ used) : 1 ≤ n := ((h.mem_iff n).mp (.inl hn)).1

theorem used_lt {n : PageId} (hn : n ∈ used) : n < file.header.num_pages := ((h.mem_iff n).mp (.inl hn)).2

theorem free_pos {n : PageId} (hn : n ∈ free) : 1 ≤ n := ((h.mem_iff n).mp (.inr hn)).1

theorem free_lt {n : PageId} (hn : n ∈ free) : n < file.header.num_pages := ((h.mem_iff n).mp (.inr hn)).2

theorem used_nodup : used.Nodup := h.sorted.imp fun hlt => Nat.ne_of_lt hlt

/-- A page that is in use is marked so. -/
theorem disjoint {n : PageId} (hn : n ∈ used) : n ∉ free := by
  intro hfree
  obtain ⟨page, hp, hnum⟩ := h.used_page n hn
  obtain ⟨page', hp', hnum'⟩ := h.free_page n hfree
  rw [hp, Option.some.injEq] at hp'
  subst hp'
  have := h.used_pos hn
  rw [← hnum, hnum'] at this
  exact absurd this (Nat.not_succ_le_zero 0)

theorem readPage_used {n : PageId} (hn : n ∈ used) : readPage n file = .ok (file.pageAt n) file := by
  obtain ⟨page, hp, hnum⟩ := h.used_page n hn
  have hpos := h.used_pos hn
  have hused : page.isUsed = true := by
    rw [Page.isUsed_eq_true_iff, hnum]
    exact Nat.ne_of_gt hpos
  rw [readPage_eq h.alive (h.used_lt hn) hp hused, pageAt, hp]
  rfl

theorem pageAt_number {n : PageId} (hn : n ∈ used) : (file.pageAt n).page_number = n := by
  obtain ⟨page, hp, hnum⟩ := h.used_page n hn
  rw [pageAt, hp]
  exact hnum

theorem pageAt_link {n : PageId} (hn : n ∈ used) : (file.pageAt n).next_page_number = linkOn file.pages n := by
  obtain ⟨page, hp, -⟩ := h.used_page n hn
  rw [pageAt, hp, linkOn_some hp]
  rfl

/-- A loop over the used list from the middle on. -/
theorem forPages_eq {α : Type} (body : α → Page → α × Bool) {l : List PageId} (hl : ∀ n ∈ l, n ∈ used) {current : PageId}
    (hchain : Chain (linkOn file.pages) current l INVALID_NUMBER) {fuel : Nat} (hfuel : l.length ≤ fuel) (acc : α) :
    forPages body fuel current acc file = .ok (foldUntil body acc (l.map file.pageAt)) file := by
  induction l generalizing current fuel acc with
  | nil =>
    cases fuel <;> simp only [forPages, chain_nil.mp hchain, if_true, run_pure, List.map_nil, foldUntil]
  | cons n l ih =>
    obtain ⟨fuel, rfl⟩ : ∃ f, fuel = f + 1 := ⟨fuel - 1, by simp only [List.length_cons] at hfuel; omega⟩
    obtain ⟨rfl, hchain⟩ := hchain
    have hn := hl current (List.mem_cons_self ..)
    have hne : ¬ current = INVALID_NUMBER := Nat.ne_of_gt (h.used_pos hn)
    obtain ⟨page, hp, -⟩ := h.used_page current hn
    have hpage : file.pageAt current = page := by rw [pageAt, hp]; rfl
    rw [forPages, if_neg hne, run_bind_ok (h.readPage_used hn), List.map_cons, foldUntil, hpage]
    by_cases hstop : (body acc page).2 = true
    · rw [if_pos hstop, if_pos hstop]
      rfl
    · rw [if_neg hstop, if_neg hstop, run_bind_ok (readPageHeader_eq h.alive hp)]
      refine ih (fun m hm => hl m (List.mem_cons_of_mem _ hm)) ?_ (by simp only [List.length_cons] at hfuel; omega) _
      rwa [linkOn_some hp] at hchain

/-- A loop over the used list. -/
theorem forAllPages_eq {α : Type} (body : α → Page → α × Bool) (acc : α) :
    forAllPages body acc file = .ok (foldUntil body acc (used.map file.pageAt)) file := by
  rw [forAllPages, run_bind_ok (readHeader_eq h.alive)]
  exact h.forPages_eq body (fun _ hn => hn) h.used_chain (length_le_of_lt h.used_nodup fun _ hn => h.used_lt hn) acc

end Lists

end PageFile

end Cs564
