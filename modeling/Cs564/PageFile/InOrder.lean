import Cs564.PageFile.Partition
import Cs564.PageFile.Sound

/-!
# Files in order

A file with its two lists and no page behind its end (`InOrder`).  One rule for each call: a page in use is read, written
and deleted without an exception, other pages are refused, and an allocation that is `Safe` returns a page that was not
in use.  All of them leave the file in order.
-/

namespace Cs564.PageFile

/-- The lists share out the pages, and the pages that are there are those below `num_pages`. -/
structure InOrder (file : PageFile) : Prop where
  lists : ∃ used free, file.Lists used free
  sound : ∃ free, file.Sound free

theorem inOrder_create : create.InOrder := ⟨⟨[], [], lists_create⟩, ⟨[], sound_create⟩⟩

/-- The pages of the used list have contents. -/
theorem Lists.mem_used_iff {file : PageFile} {used free left : List PageId} (h : file.Lists used free)
    (hsound : file.Sound left) {p : PageId} : p ∈ used ↔ contentsOn file.pages p ≠ none := by
  rw [contentsOn_ne_none_iff]
  constructor
  · intro hp
    obtain ⟨page, hpage, hnum⟩ := h.used_page p hp
    exact ⟨page, hpage, hnum ▸ Nat.ne_of_gt (h.used_pos hp)⟩
  · rintro ⟨page, hpage, hmarked⟩
    refine ((h.mem_iff p).mpr ((hsound.present p).mp ⟨page, hpage⟩)).resolve_right fun hfree => ?_
    obtain ⟨page', hpage', hzero⟩ := h.free_page p hfree
    obtain rfl := Option.some.inj (hpage.symm.trans hpage')
    exact hmarked hzero

namespace InOrder

variable {file : PageFile} (h : file.InOrder) {p : PageId}
include h

/-- `readPage`, of another page than page 0. -/
theorem readPage (hp : p ≠ INVALID_NUMBER) :
    (∃ page, PageFile.readPage p file = .ok page file ∧ page.page_number = p ∧
      contentsOn file.pages p = some page.unlinked) ∨
      (contentsOn file.pages p = none ∧ PageFile.readPage p file = .error (.invalidPage p) file) := by
  obtain ⟨free, hsound⟩ := h.sound
  by_cases hlive : contentsOn file.pages p ≠ none
  · obtain ⟨page, hpage, hmarked⟩ := contentsOn_ne_none_iff.mp hlive
    refine .inl ⟨page, hsound.readPage_used hpage hmarked, hsound.number_used hpage hmarked, ?_⟩
    exact contentsOn_used hpage hmarked
  · have hnone := not_not.mp hlive
    exact .inr ⟨hnone, hsound.readPage_none hp hnone⟩

/-- `writePage`, of a page in use under its number. -/
theorem writePage (hlive : contentsOn file.pages p ≠ none) {page : Page} (hnum : page.page_number = p) :
    ∃ file', PageFile.writePage p page file = .ok () file' ∧ file'.InOrder ∧ file'.header = file.header ∧
      contentsOn file'.pages = Function.update (contentsOn file.pages) p (some page.unlinked) := by
  obtain ⟨used, free, hlists⟩ := h.lists
  obtain ⟨left, hsound⟩ := h.sound
  obtain ⟨old, hold, hmarked⟩ := contentsOn_ne_none_iff.mp hlive
  obtain ⟨file', hrun, hlists'⟩ := hlists.writePage_used ((hlists.mem_used_iff hsound).mpr hlive) hnum
  obtain ⟨file'', hrun', hsound', hcontents⟩ := hsound.writePage_contents hlive hnum
  obtain rfl : file' = file'' := (EStateM.Result.ok.inj (hrun.symm.trans hrun')).2
  have hheader : file'.header = file.header := by
    rw [hsound.writePage_used hold hmarked page] at hrun
    rw [← (EStateM.Result.ok.inj hrun).2]
  exact ⟨file', hrun, ⟨⟨used, free, hlists'⟩, ⟨left, hsound'⟩⟩, hheader, hcontents⟩

/-- `allocatePage`. -/
theorem allocatePage (hsafe : FileCall.allocatePage.Safe file) :
    ∃ page file', PageFile.allocatePage file = .ok (page, page.page_number) file' ∧ file'.InOrder ∧
      contentsOn file.pages page.page_number = none ∧
      contentsOn file'.pages = Function.update (contentsOn file.pages) page.page_number (some page.unlinked) := by
  obtain ⟨used, free, hlists⟩ := h.lists
  obtain ⟨left, hsound⟩ := h.sound
  obtain ⟨hempty, hroom⟩ := hsafe
  have hempty' : used = [] → free.length ≤ 1 := by
    intro hnil
    rw [← hlists.num_free]
    exact hempty (by rw [hlists.used_chain.start_eq, hnil]; rfl)
  have hroom' : free = [] → file.header.num_pages + 1 < 2 ^ 32 := by
    intro hnil
    exact hroom (by rw [hlists.num_free, hnil]; rfl)
  obtain ⟨page, m, file', used', free', ha⟩ := hlists.allocatePage_spec hempty' hroom'
  have hlists' := ha.lists
  rcases hsound.allocatePage_cases with ⟨page', file'', hrun, hallocates⟩ | ⟨e, hrun⟩
  · obtain ⟨hpage, rfl⟩ := EStateM.Result.ok.inj (ha.run.symm.trans hrun)
    obtain ⟨rfl, -⟩ := Prod.mk.inj hpage
    have hcounted : file'.header.num_pages ≠ 0 := Nat.ne_of_gt hlists'.num_pos
    exact ⟨page, file', hrun, ⟨⟨used', free', hlists'⟩, hallocates.sound hcounted⟩, hallocates.unused, hallocates.contents⟩
  · rw [ha.run] at hrun
    cases hrun

/-- `deletePage`, of a page in use: it goes to the head of the free list. -/
theorem deletePage (hlive : contentsOn file.pages p ≠ none) :
    ∃ file' used free used', PageFile.deletePage p file = .ok () file' ∧ file'.InOrder ∧
      contentsOn file'.pages = Function.update (contentsOn file.pages) p none ∧
      file.Lists used free ∧ file'.Lists used' (p :: free) ∧ ∀ n, n ∈ used' ↔ n ∈ used ∧ n ≠ p := by
  obtain ⟨used, free, hlists⟩ := h.lists
  obtain ⟨left, hsound⟩ := h.sound
  have hp : p ∈ used := (hlists.mem_used_iff hsound).mpr hlive
  obtain ⟨file', used', hrun, hlists', hmem⟩ := hlists.deletePage_spec hp
  have hzero : p ≠ INVALID_NUMBER := Nat.ne_of_gt (hlists.used_pos hp)
  rcases hsound.deletePage_cases hzero with ⟨file'', hrun', -, hsound', hcontents⟩ | ⟨e, hrun'⟩
  · obtain rfl : file' = file'' := (EStateM.Result.ok.inj (hrun.symm.trans hrun')).2
    exact ⟨file', used, free, used', hrun, ⟨⟨used', p :: free, hlists'⟩, ⟨_, hsound'⟩⟩, hcontents, hlists, hlists', hmem⟩
  · rw [hrun] at hrun'
    cases hrun'

end InOrder

end Cs564.PageFile
