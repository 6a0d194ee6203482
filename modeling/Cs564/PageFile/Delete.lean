import Cs564.PageFile.Allocate
import Mathlib.Data.List.Nodup

/-!
# Deleting and writing a page

`deletePage` takes a page out of the used list and puts it at the head of the free list; `writePage` changes no list.
-/

namespace Cs564.PageFile

variable {file : PageFile} {used free : List PageId}

/-- The page in front of page `p`, with its new link. -/
private theorem Lists.findPrevious_eq (h : file.Lists used free) {l₁ l₂ : List PageId} {a p : PageId}
    (hsplit : used = l₁ ++ a :: p :: l₂) {existing_page : Page} (hnum : existing_page.page_number = p) :
    forAllPages (findPrevious existing_page) Page.fresh file =
      .ok ((file.pageAt a).set_next_page_number existing_page.next_page_number) file := by
  have hap : a < p := by
    have hsorted := h.sorted
    rw [hsplit, List.pairwise_append, List.pairwise_cons] at hsorted
    exact hsorted.2.1.1 p (List.mem_cons_self ..)
  refine h.forAllPages_stop hsplit (fun n hn acc => ?_) (fun acc => ?_) _
  · have hused : n ∈ used := by rw [hsplit]; exact List.mem_append_left _ hn
    have hne : ¬ linkOn file.pages n = p := Nat.ne_of_lt (Nat.lt_of_le_of_lt (h.link_le hsplit hn).2 hap)
    rw [findPrevious, h.pageAt_link hused, hnum, if_neg hne]
  · have hused : a ∈ used := by rw [hsplit]; exact List.mem_append_right _ (List.mem_cons_self ..)
    have hlink : linkOn file.pages a = p := h.link_eq hsplit
    rw [findPrevious, h.pageAt_link hused, hnum, if_pos hlink]

/-- `deletePage`, from the page in front. -/
theorem deletePage_eq (halive : file.failed = false) {p : PageId} {existing_page previous_page : Page}
    (hread : readPage p file = .ok existing_page file)
    (hprevious : previousPage file.header p existing_page file = .ok previous_page file) :
    deletePage p file = .ok ()
      { file with
        header := { file.header with
          first_used_page :=
            if p = file.header.first_used_page then existing_page.next_page_number else file.header.first_used_page
          first_free_page := p
          num_free_pages := u32 (file.header.num_free_pages + 1) }
        pages :=
          let cleared := existing_page.initializePage.set_next_page_number file.header.first_free_page
          Function.update
            (if previous_page.page_number ≠ INVALID_NUMBER then
              Function.update file.pages previous_page.page_number (some (previous_page.stored previous_page.header))
            else file.pages) p (some (cleared.stored cleared.header)) } := by
  rw [deletePage, run_bind_ok (readHeader_eq halive), run_bind_ok hread, run_bind_ok hprevious]
  by_cases hused : previous_page.page_number ≠ INVALID_NUMBER
  · have hmark := previous_page.isUsed_eq_true_iff.mpr hused
    simp only [if_pos hused, if_pos hmark, run_bind, writePageWith_eq, writeHeader_eq, halive]
  · have hmark : ¬ previous_page.isUsed = true := fun hmark => hused (previous_page.isUsed_eq_true_iff.mp hmark)
    simp only [if_neg hused, if_neg hmark, run_bind, writePageWith_eq, writeHeader_eq, halive]

/-- Page `p` is taken out of the used list and goes to the head of the free list. -/
private theorem Lists.removed (h : file.Lists used free) {l₁ l₂ : List PageId} {p : PageId} (hsplit : used = l₁ ++ p :: l₂)
    {pages : PageId → Option Page} {first : PageId} {cleared : Page}
    (hchain : Chain (Function.update (linkOn pages) p file.header.first_free_page) first (l₁ ++ l₂) INVALID_NUMBER)
    (hfree : ∀ n ∈ free, pages n = file.pages n)
    (hused : ∀ n ∈ l₁ ++ l₂, ∃ page, pages n = some page ∧ page.page_number = n)
    (hnum : cleared.page_number = INVALID_NUMBER) (hlink : cleared.next_page_number = file.header.first_free_page) :
    PageFile.Lists
      { file with header := { file.header with first_used_page := first
                                               first_free_page := p
                                               num_free_pages := u32 (file.header.num_free_pages + 1) }
                  pages := Function.update pages p (some cleared) } (l₁ ++ l₂) (p :: free) := by
  have hmem : p ∈ used := by rw [hsplit]; exact List.mem_append_right _ (List.mem_cons_self ..)
  have hpfree : p ∉ free := h.disjoint hmem
  have hnodup := h.used_nodup
  rw [hsplit] at hnodup
  have hp : p ∉ l₁ ++ l₂ := (List.nodup_middle.mp hnodup).notMem
  have hnodup' : (p :: free).Nodup := List.nodup_cons.mpr ⟨hpfree, h.free_nodup⟩
  have hlen : (p :: free).length ≤ file.header.num_pages := by
    refine length_le_of_lt hnodup' fun n hn => ?_
    rcases List.mem_cons.mp hn with rfl | hn
    · exact h.used_lt hmem
    · exact h.free_lt hn
  have hlinks : ∀ n ∈ free, linkOn pages n = linkOn file.pages n := fun n hn => by
    rw [linkOn, hfree n hn]
    rfl
  constructor
  · exact h.alive
  · exact h.num_pos
  · exact h.num_lt
  · rw [linkOn_update, hlink]
    exact hchain
  · rw [linkOn_update, hlink]
    exact (h.free_chain.congr hlinks).push hpfree
  · have hsorted := h.sorted
    rw [hsplit] at hsorted
    exact hsorted.sublist (List.Sublist.append_left (List.sublist_cons_self p l₂) l₁)
  · exact hnodup'
  · dsimp only
    rw [u32, h.num_free]
    exact Nat.mod_eq_of_lt (Nat.lt_of_le_of_lt hlen h.num_lt)
  · intro n
    rw [← h.mem_iff n, hsplit]
    simp only [List.mem_append, List.mem_cons]
    tauto
  · intro n hn
    dsimp only
    rw [Function.update_of_ne (ne_of_mem_of_not_mem hn hp)]
    exact hused n hn
  · intro n hn
    dsimp only
    rcases List.mem_cons.mp hn with rfl | hn
    · exact ⟨cleared, Function.update_self .., hnum⟩
    · rw [Function.update_of_ne (ne_of_mem_of_not_mem hn hpfree), hfree n hn]
      exact h.free_page n hn

/-- `deletePage` of a used page. -/
theorem Lists.deletePage_spec (h : file.Lists used free) {p : PageId} (hp : p ∈ used) :
    ∃ file' used', deletePage p file = .ok () file' ∧ file'.Lists used' (p :: free) ∧ ∀ n, n ∈ used' ↔ n ∈ used ∧ n ≠ p := by
  obtain ⟨l₁, l₂, hsplit⟩ := List.mem_iff_append.mp hp
  have hnodup := h.used_nodup
  rw [hsplit] at hnodup
  have hapart : p ∉ l₁ ++ l₂ := (List.nodup_middle.mp hnodup).notMem
  have hmem : ∀ n, n ∈ l₁ ++ l₂ ↔ n ∈ used ∧ n ≠ p := by
    intro n
    rw [hsplit]
    constructor
    · intro hn
      refine ⟨?_, ne_of_mem_of_not_mem hn hapart⟩
      simp only [List.mem_append, List.mem_cons] at hn ⊢
      tauto
    · rintro ⟨hn, hne⟩
      simp only [List.mem_append, List.mem_cons] at hn ⊢
      tauto
  have hread := h.readPage_used hp
  have hlinkp := h.pageAt_link hp
  rcases List.eq_nil_or_concat l₁ with rfl | ⟨l, a, hl⟩
  · have hfirst : p = file.header.first_used_page := by
      rw [h.used_chain.start_eq, hsplit]
      rfl
    have hprevious : previousPage file.header p (file.pageAt p) file = .ok Page.fresh file := by
      rw [previousPage, if_pos hfirst]
      rfl
    have hchain := h.used_chain
    rw [hsplit] at hchain
    refine ⟨_, l₂, deletePage_eq h.alive hread hprevious, ?_, hmem⟩
    rw [if_pos hfirst]
    refine h.removed hsplit ?_ (fun _ _ => rfl) (fun n hn => h.used_page n ((hmem n).mp hn).1) rfl rfl
    rw [hlinkp]
    exact hchain.2.update hapart _
  · rw [List.concat_eq_append] at hl
    subst hl
    have hsplit' : used = l ++ a :: p :: l₂ := by rw [hsplit]; simp
    have ha : a ∈ l ++ [a] ++ l₂ := by simp
    have haused : a ∈ used := ((hmem a).mp ha).1
    have hane : a ≠ p := ((hmem a).mp ha).2
    have hfirst : ¬ p = file.header.first_used_page := by
      rw [h.used_chain.start_eq]
      refine Ne.symm (ne_of_mem_of_not_mem ?_ hapart)
      rw [hsplit']
      cases l <;> simp
    have hprevious : previousPage file.header p (file.pageAt p) file =
        .ok ((file.pageAt a).set_next_page_number (file.pageAt p).next_page_number) file := by
      rw [previousPage, if_neg hfirst]
      exact h.findPrevious_eq hsplit' (h.pageAt_number hp)
    have hnum : ((file.pageAt a).set_next_page_number (file.pageAt p).next_page_number).page_number = a :=
      h.pageAt_number haused
    have hne : a ≠ INVALID_NUMBER := Nat.ne_of_gt (h.used_pos haused)
    have hchain := h.used_chain
    rw [hsplit'] at hchain
    refine ⟨_, l ++ [a] ++ l₂, deletePage_eq h.alive hread hprevious, ?_, hmem⟩
    simp only [if_neg hfirst, hnum, if_pos hne]
    refine h.removed hsplit ?_ (fun n hn => ?_) (fun n hn => ?_) rfl rfl
    · rw [linkOn_update]
      refine Chain.update ?_ hapart _
      rw [Page.next_page_number_stored, List.append_assoc]
      have hremoved := hchain.remove (hsplit' ▸ h.used_nodup)
      rw [← hlinkp] at hremoved
      exact hremoved
    · exact Function.update_of_ne (ne_of_mem_of_not_mem hn (h.disjoint haused)) _ _
    · by_cases hna : n = a
      · subst hna
        exact ⟨_, Function.update_self .., hnum⟩
      · rw [Function.update_of_ne hna]
        exact h.used_page n ((hmem n).mp hn).1

/-- `writePage` of a used page. -/
theorem Lists.writePage_used (h : file.Lists used free) {n : PageId} (hn : n ∈ used) {new_page : Page}
    (hnum : new_page.page_number = n) : ∃ file', writePage n new_page file = .ok () file' ∧ file'.Lists used free := by
  obtain ⟨page, hp, hpage⟩ := h.used_page n hn
  have hne : ¬ page.header.current_page_number = INVALID_NUMBER := by
    have hcurrent : page.header.current_page_number = n := hpage
    rw [hcurrent]
    exact Nat.ne_of_gt (h.used_pos hn)
  have hrun : writePage n new_page file = .ok ()
      { file with
        pages := Function.update file.pages n
          (some (new_page.stored { new_page.header with next_page_number := page.header.next_page_number })) } := by
    rw [writePage, run_bind_ok (readPageHeader_eq h.alive hp), if_neg hne, writePageWith_eq h.alive]
  refine ⟨_, hrun, ?_⟩
  have hlinks : linkOn (Function.update file.pages n
      (some (new_page.stored { new_page.header with next_page_number := page.header.next_page_number }))) =
      linkOn file.pages := by
    rw [linkOn_update]
    exact Function.update_eq_self_iff.mpr (linkOn_some hp).symm
  exact {
    alive := h.alive
    num_pos := h.num_pos
    num_lt := h.num_lt
    used_chain := by rw [hlinks]; exact h.used_chain
    free_chain := by rw [hlinks]; exact h.free_chain
    sorted := h.sorted
    free_nodup := h.free_nodup
    num_free := h.num_free
    mem_iff := h.mem_iff
    used_page := by
      intro k hk
      by_cases hkn : k = n
      · subst hkn
        exact ⟨_, Function.update_self .., hnum⟩
      · dsimp only
        rw [Function.update_of_ne hkn]
        exact h.used_page k hk
    free_page := by
      intro k hk
      dsimp only
      rw [Function.update_of_ne (ne_of_mem_of_not_mem hk (h.disjoint hn))]
      exact h.free_page k hk }

/-- `writePage` of a free page throws. -/
theorem Lists.writePage_free (h : file.Lists used free) {n : PageId} (hn : n ∈ free) (new_page : Page) :
    writePage n new_page file = .error (.invalidPage n) file := by
  obtain ⟨page, hp, hpage⟩ := h.free_page n hn
  have hzero : page.header.current_page_number = INVALID_NUMBER := hpage
  rw [writePage, run_bind_ok (readPageHeader_eq h.alive hp), if_pos hzero]
  rfl

end Cs564.PageFile
