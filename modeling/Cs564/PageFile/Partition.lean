import Cs564.PageFile.Delete
import Mathlib.Data.Finset.Insert
import Mathlib.Data.Finset.Erase

/-!
# The page lists share out the pages

Calls of `allocatePage`, `deletePage` and `writePage` on a new file, beside the sets of the pages that are in use and
that have been deleted (`FileCall.run`).  A page that is taken from the free list while no page is in use keeps its link
into the free list, so the used list goes on with free pages (`used_list_into_free`).  In every run without such an
allocation the two lists share out the pages of the file (`lists_partition`).
-/

namespace Cs564

/-- A call on a page file. -/
inductive FileCall where
  | allocatePage
  | deletePage (page_number : PageId)
  | writePage (new_page_number : PageId) (new_page : Page)

namespace FileCall

/-- The call on the file, and on the pages in use and deleted if it returns normally. -/
def run (file : PageFile) (live dead : Finset PageId) : FileCall → PageFile × Finset PageId × Finset PageId
  | allocatePage =>
    match PageFile.allocatePage file with
    | .ok allocated file' => (file', insert allocated.2 live, dead.erase allocated.2)
    | .error _ file' => (file', live, dead)
  | deletePage page_number =>
    match PageFile.deletePage page_number file with
    | .ok () file' => (file', live.erase page_number, insert page_number dead)
    | .error _ file' => (file', live, dead)
  | writePage new_page_number new_page =>
    match PageFile.writePage new_page_number new_page file with
    | .ok () file' => (file', live, dead)
    | .error _ file' => (file', live, dead)

/-- Pages in use are deleted, and copies of pages that have been allocated are written. -/
def Names (live dead : Finset PageId) : FileCall → Prop
  | allocatePage => True
  | deletePage page_number => page_number ∈ live
  | writePage new_page_number new_page =>
    (new_page_number ∈ live ∨ new_page_number ∈ dead) ∧ new_page.page_number = new_page_number

/-- If no page is in use there is at most one free page, and the numbers do not run out. -/
def Safe (file : PageFile) : FileCall → Prop
  | allocatePage =>
    (file.header.first_used_page = INVALID_NUMBER → file.header.num_free_pages ≤ 1) ∧
      (file.header.num_free_pages = 0 → file.header.num_pages + 1 < 2 ^ 32)
  | deletePage _ => True
  | writePage _ _ => True

end FileCall

/-- The files that calls make of a new file, each call meeting `cond`. -/
inductive FileRun (cond : PageFile → FileCall → Prop) : PageFile → Finset PageId → Finset PageId → Prop where
  | create : FileRun cond .create ∅ ∅
  | call {file : PageFile} {live dead : Finset PageId} (call : FileCall) (before : FileRun cond file live dead)
      (names : call.Names live dead) (meets : cond file call) :
      FileRun cond (call.run file live dead).1 (call.run file live dead).2.1 (call.run file live dead).2.2

namespace PageFile

/-- The used list and the free list share out the pages of the file into the live and the dead ones, and a
`FileIterator` visits the used list. -/
structure Partitioned (file : PageFile) (live dead : Finset PageId) (used free : List PageId) : Prop where
  used_chain : Chain (linkOn file.pages) file.header.first_used_page used INVALID_NUMBER
  used_increasing : used.Pairwise (· < ·)
  mem_used : ∀ n, n ∈ used ↔ n ∈ live
  free_chain : Chain (linkOn file.pages) file.header.first_free_page free INVALID_NUMBER
  free_nodup : free.Nodup
  mem_free : ∀ n, n ∈ free ↔ n ∈ dead
  num_free : file.header.num_free_pages = free.length
  disjoint : ∀ n ∈ used, n ∉ free
  covers : ∀ n, n ∈ used ∨ n ∈ free ↔ 1 ≤ n ∧ n < file.header.num_pages
  visits : ∃ pages, visitedPages file = .ok pages file ∧ pages.map Page.page_number = used

/-- The file has lists, which hold the live and the dead pages. -/
def Tracked (file : PageFile) (live dead : Finset PageId) : Prop :=
  ∃ used free, file.Lists used free ∧ (∀ n, n ∈ used ↔ n ∈ live) ∧ ∀ n, n ∈ free ↔ n ∈ dead

/-- The loop that collects the pages. -/
private theorem foldUntil_collect (pages : List Page) (visited : List Page) :
    foldUntil (fun visited page => (visited ++ [page], false)) visited pages = visited ++ pages := by
  induction pages generalizing visited with
  | nil => rw [foldUntil, List.append_nil]
  | cons page pages ih =>
    rw [foldUntil, if_neg Bool.false_ne_true, ih, List.append_assoc]
    rfl

/-- A `FileIterator` visits the used list. -/
theorem Lists.visitedPages_eq {file : PageFile} {used free : List PageId} (h : file.Lists used free) :
    visitedPages file = .ok (used.map file.pageAt) file := by
  rw [visitedPages, h.forAllPages_eq, foldUntil_collect, List.nil_append]

/-- A new file. -/
theorem lists_create : create.Lists [] [] where
  alive := rfl
  num_pos := Nat.le_refl 1
  num_lt := by decide
  used_chain := rfl
  free_chain := rfl
  sorted := List.Pairwise.nil
  free_nodup := List.nodup_nil
  num_free := rfl
  mem_iff n := by
    constructor
    · rintro (hn | hn) <;> exact absurd hn List.not_mem_nil
    · rintro ⟨hpos, hlt⟩
      exact absurd hpos (Nat.not_le.mpr hlt)
  used_page _ hn := absurd hn List.not_mem_nil
  free_page _ hn := absurd hn List.not_mem_nil

/-- One call. -/
theorem Tracked.call {file : PageFile} {live dead : Finset PageId} (h : file.Tracked live dead) (call : FileCall)
    (hnames : call.Names live dead) (hsafe : call.Safe file) :
    (call.run file live dead).1.Tracked (call.run file live dead).2.1 (call.run file live dead).2.2 := by
  obtain ⟨used, free, hlists, hused, hfree⟩ := h
  cases call with
  | allocatePage =>
    obtain ⟨hempty, hroom⟩ := hsafe
    have hempty' : used = [] → free.length ≤ 1 := by
      intro hnil
      rw [← hlists.num_free]
      exact hempty (by rw [hlists.used_chain.start_eq, hnil]; rfl)
    have hroom' : free = [] → file.header.num_pages + 1 < 2 ^ 32 := by
      intro hnil
      exact hroom (by rw [hlists.num_free, hnil]; rfl)
    obtain ⟨page, m, file', used', free', ha⟩ := hlists.allocatePage_spec hempty' hroom'
    simp only [FileCall.run, ha.run]
    refine ⟨used', free', ha.lists, fun n => ?_, fun n => ?_⟩
    · rw [ha.mem_used, Finset.mem_insert, hused]
    · rw [ha.mem_free, Finset.mem_erase, hfree]
      exact and_comm
  | deletePage p =>
    have hp : p ∈ used := (hused p).mpr hnames
    obtain ⟨file', used', hrun, hlists', hmem⟩ := hlists.deletePage_spec hp
    simp only [FileCall.run, hrun]
    refine ⟨used', p :: free, hlists', fun n => ?_, fun n => ?_⟩
    · rw [hmem, Finset.mem_erase, hused]
      exact and_comm
    · rw [List.mem_cons, Finset.mem_insert, hfree]
  | writePage n new_page =>
    obtain ⟨hn, hnum⟩ := hnames
    rcases hn with hn | hn
    · obtain ⟨file', hrun, hlists'⟩ := hlists.writePage_used ((hused n).mpr hn) hnum
      simp only [FileCall.run, hrun]
      exact ⟨used, free, hlists', hused, hfree⟩
    · simp only [FileCall.run, hlists.writePage_free ((hfree n).mpr hn)]
      exact ⟨used, free, hlists, hused, hfree⟩

variable {file : PageFile} {live dead : Finset PageId}

/-- A run of calls. -/
theorem tracked_of_run (hrun : FileRun (fun file call => call.Safe file) file live dead) : file.Tracked live dead := by
  induction hrun with
  | create => exact ⟨[], [], lists_create, fun n => by simp, fun n => by simp⟩
  | call call _ hnames hsafe ih => exact ih.call call hnames hsafe

/-- In a run of safe calls the page lists share out the pages of the file. -/
theorem lists_partition (hrun : FileRun (fun file call => call.Safe file) file live dead) :
    ∃ used free, file.Partitioned live dead used free := by
  obtain ⟨used, free, h, hused, hfree⟩ := tracked_of_run hrun
  refine ⟨used, free, ?_⟩
  have hnumbers : (used.map file.pageAt).map Page.page_number = used := by
    rw [List.map_map]
    conv_rhs => rw [← List.map_id used]
    exact List.map_congr_left fun n hn => h.pageAt_number hn
  exact {
    used_chain := h.used_chain
    used_increasing := h.sorted
    mem_used := hused
    free_chain := h.free_chain
    free_nodup := h.free_nodup
    mem_free := hfree
    num_free := h.num_free
    disjoint := fun _ hn => h.disjoint hn
    covers := h.mem_iff
    visits := ⟨_, h.visitedPages_eq, hnumbers⟩ }

/-! ### Runs on fixed calls -/

/-- The file after the calls in order, with the live and the dead pages. -/
def runCalls (calls : List FileCall) : PageFile × Finset PageId × Finset PageId :=
  calls.foldl (fun state call => call.run state.1 state.2.1 state.2.2) (create, ∅, ∅)

private theorem runCalls_append (calls : List FileCall) (call : FileCall) :
    runCalls (calls ++ [call]) = call.run (runCalls calls).1 (runCalls calls).2.1 (runCalls calls).2.2 := by
  simp [runCalls]

/-- One more call in a run of `runCalls`. -/
private theorem fileRun_runCalls {cond : PageFile → FileCall → Prop} {calls : List FileCall}
    (h : FileRun cond (runCalls calls).1 (runCalls calls).2.1 (runCalls calls).2.2) (call : FileCall)
    (hnames : call.Names (runCalls calls).2.1 (runCalls calls).2.2) (hmeets : cond (runCalls calls).1 call) :
    FileRun cond (runCalls (calls ++ [call])).1 (runCalls (calls ++ [call])).2.1 (runCalls (calls ++ [call])).2.2 := by
  rw [runCalls_append]
  exact .call call h hnames hmeets

/-- Two allocations, the first page deleted and allocated again. -/
theorem lists_partition_reused : ∃ used free,
    (runCalls [.allocatePage, .allocatePage, .deletePage 1, .allocatePage]).1.Partitioned
      (runCalls [.allocatePage, .allocatePage, .deletePage 1, .allocatePage]).2.1
      (runCalls [.allocatePage, .allocatePage, .deletePage 1, .allocatePage]).2.2 used free := by
  have h₀ : FileRun (fun file call => call.Safe file) (runCalls []).1 (runCalls []).2.1 (runCalls []).2.2 := .create
  have h₁ := fileRun_runCalls h₀ .allocatePage trivial ⟨by decide +kernel, by decide +kernel⟩
  have h₂ := fileRun_runCalls h₁ .allocatePage trivial ⟨by decide +kernel, by decide +kernel⟩
  have h₃ := fileRun_runCalls h₂ (.deletePage 1) (by change 1 ∈ _; decide +kernel) trivial
  have h₄ := fileRun_runCalls h₃ .allocatePage trivial ⟨by decide +kernel, by decide +kernel⟩
  exact lists_partition h₄

/-- Two allocations, both pages deleted, an allocation: page 2 is in use, and its link leads to the free page 1. -/
theorem used_list_into_free : ¬ ∀ (file : PageFile) (live dead : Finset PageId), FileRun (fun _ _ => True) file live dead →
    ∃ used free, file.Partitioned live dead used free := by
  intro hall
  have h₀ : FileRun (fun _ _ => True) (runCalls []).1 (runCalls []).2.1 (runCalls []).2.2 := .create
  have h₁ := fileRun_runCalls h₀ .allocatePage trivial trivial
  have h₂ := fileRun_runCalls h₁ .allocatePage trivial trivial
  have h₃ := fileRun_runCalls h₂ (.deletePage 1) (by change 1 ∈ _; decide +kernel) trivial
  have h₄ := fileRun_runCalls h₃ (.deletePage 2) (by change 2 ∈ _; decide +kernel) trivial
  have h₅ := fileRun_runCalls h₄ .allocatePage trivial trivial
  obtain ⟨used, free, h⟩ := hall _ _ _ h₅
  obtain ⟨pages, hvisits, -⟩ := h.visits
  have hreturns : (visitedPages.run' (runCalls ([] ++ [.allocatePage] ++ [.allocatePage] ++ [.deletePage 1] ++
      [.deletePage 2] ++ [.allocatePage])).1).isSome = true := by
    delta EStateM.run' EStateM.run
    rw [hvisits]
    rfl
  revert hreturns
  decide +kernel

end PageFile

end Cs564
