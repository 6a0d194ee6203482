import Cs564.PageFile.Lists

/-!
# Allocating a page

`allocatePage` takes a page (`Taken`), the head of the free list or a new one behind the others, and puts it into the
used list: at its head (`Taken.at_head`) or behind another page (`Taken.behind`).
-/

namespace Cs564.PageFile

/-- The loop over the used list is left at page `a`. -/
theorem Lists.forAllPages_stop {file : PageFile} {used free : List PageId} (h : file.Lists used free) {α : Type}
    {body : α → Page → α × Bool} {l₁ l₂ : List PageId} {a : PageId} (hsplit : used = l₁ ++ a :: l₂) {r : α}
    (hgo : ∀ n ∈ l₁, ∀ acc, (body acc (file.pageAt n)).2 = false)
    (hstop : ∀ acc, body acc (file.pageAt a) = (r, true)) (acc : α) : forAllPages body acc file = .ok r file := by
  rw [h.forAllPages_eq, hsplit, List.map_append, List.map_cons]
  rw [foldUntil_stop _ hstop acc]
  intro page hpage
  obtain ⟨n, hn, rfl⟩ := List.mem_map.mp hpage
  exact hgo n hn

/-- `allocatePage`, from the page and the page in front of it. -/
theorem allocatePage_eq {file : PageFile} (halive : file.failed = false) {header : FileHeader}
    {new_page existing_page : Page}
    (hplaced : placePage file.header file = .ok (header, new_page, existing_page) file) :
    allocatePage file = .ok (new_page, new_page.page_number)
      { file with
        header := header
        pages :=
          let pages := Function.update file.pages new_page.page_number (some (new_page.stored new_page.header))
          if existing_page.page_number ≠ INVALID_NUMBER then
            Function.update pages existing_page.page_number (some (existing_page.stored existing_page.header))
          else pages } := by
  rw [allocatePage, run_bind_ok (readHeader_eq halive), run_bind_ok hplaced, run_bind_ok (writePageWith_eq halive ..)]
  by_cases hused : existing_page.page_number ≠ INVALID_NUMBER
  · simp only [if_pos hused, run_bind, writePageWith_eq, writeHeader_eq, halive, run_pure]
  · simp only [if_neg hused, run_bind, run_pure, writeHeader_eq, halive]

/-- The file has given page `m` away: it is in neither list, and `header` has the free list that is left. -/
structure Taken (file : PageFile) (used : List PageId) (m : PageId) (free : List PageId) (header : FileHeader) : Prop where
  first_used : header.first_used_page = file.header.first_used_page
  num_lt : header.num_pages < 2 ^ 32
  free_chain : Chain (linkOn file.pages) header.first_free_page free INVALID_NUMBER
  free_nodup : free.Nodup
  num_free : header.num_free_pages = free.length
  mem_iff : ∀ n, n = m ∨ n ∈ used ∨ n ∈ free ↔ 1 ≤ n ∧ n < header.num_pages
  not_used : m ∉ used
  not_free : m ∉ free
  free_page : ∀ n ∈ free, ∃ page, file.pages n = some page ∧ page.page_number = INVALID_NUMBER

/-- The head of the free list is taken. -/
theorem Lists.taken_free {file : PageFile} {used free : List PageId} {m : PageId} (h : file.Lists used (m :: free)) :
    Taken file used m free
      { file.header with first_free_page := linkOn file.pages m, num_free_pages := file.header.num_free_pages - 1 } where
  first_used := rfl
  num_lt := h.num_lt
  free_chain := h.free_chain.2
  free_nodup := (List.nodup_cons.mp h.free_nodup).2
  num_free := by rw [h.num_free]; rfl
  mem_iff n := by
    rw [← h.mem_iff n, List.mem_cons]
    exact or_left_comm
  not_used hm := h.disjoint hm (List.mem_cons_self ..)
  not_free := (List.nodup_cons.mp h.free_nodup).1
  free_page n hn := h.free_page n (List.mem_cons_of_mem _ hn)

/-- A new page is taken. -/
theorem Lists.taken_new {file : PageFile} {used : List PageId} (h : file.Lists used [])
    (hlt : file.header.num_pages + 1 < 2 ^ 32) :
    Taken file used file.header.num_pages []
      { file.header with num_pages := file.header.num_pages + 1 } where
  first_used := rfl
  num_lt := hlt
  free_chain := h.free_chain
  free_nodup := List.nodup_nil
  num_free := h.num_free
  mem_iff n := by
    have hbounds : ∀ k N : Nat, 1 ≤ N → ((k = N ∨ 1 ≤ k ∧ k < N) ↔ 1 ≤ k ∧ k < N + 1) := by omega
    rw [h.mem_iff n]
    exact hbounds n _ h.num_pos
  not_used hm := Nat.lt_irrefl _ (h.used_lt hm)
  not_free := List.not_mem_nil
  free_page _ hn := absurd hn List.not_mem_nil

namespace Taken

variable {file : PageFile} {used free : List PageId} {m : PageId} {header : FileHeader}

theorem num_pos (t : Taken file used m free header) : 1 ≤ header.num_pages :=
  Nat.le_trans ((t.mem_iff m).mp (.inl rfl)).1 (Nat.le_of_lt ((t.mem_iff m).mp (.inl rfl)).2)

/-- The page is put at the head of the used list. -/
theorem at_head (t : Taken file used m free header) {old : List PageId} (h : file.Lists used old) (page : Page)
    (hnum : page.page_number = m) (hlink : page.next_page_number = file.header.first_used_page)
    (hbelow : ∀ n ∈ used, m < n) :
    PageFile.Lists { file with header := { header with first_used_page := m }
                               pages := Function.update file.pages m (some page) } (m :: used) free where
  alive := h.alive
  num_pos := t.num_pos
  num_lt := t.num_lt
  used_chain := by
    rw [linkOn_update, hlink]
    exact h.used_chain.push t.not_used
  free_chain := by
    rw [linkOn_update]
    exact t.free_chain.update t.not_free _
  sorted := List.pairwise_cons.mpr ⟨hbelow, h.sorted⟩
  free_nodup := t.free_nodup
  num_free := t.num_free
  mem_iff n := by
    rw [← t.mem_iff n, List.mem_cons]
    exact or_assoc
  used_page n hn := by
    rcases List.mem_cons.mp hn with rfl | hn
    · exact ⟨page, Function.update_self .., hnum⟩
    · dsimp only
      rw [Function.update_of_ne (ne_of_mem_of_not_mem hn t.not_used)]
      exact h.used_page n hn
  free_page n hn := by
    dsimp only
    rw [Function.update_of_ne (ne_of_mem_of_not_mem hn t.not_free)]
    exact t.free_page n hn

/-- The page is put behind page `a`. -/
theorem behind (t : Taken file used m free header) {old : List PageId} (h : file.Lists used old) (page previous : Page)
    {l₁ l₂ : List PageId} {a : PageId} (hsplit : used = l₁ ++ a :: l₂) (hnum : page.page_number = m)
    (hlink : page.next_page_number = linkOn file.pages a) (hnum' : previous.page_number = a)
    (hlink' : previous.next_page_number = m) (hfree : a ∉ free) (hlow : a < m) (hhigh : ∀ n ∈ l₂, m < n) :
    PageFile.Lists { file with header := header
                               pages := Function.update (Function.update file.pages m (some page)) a (some previous) }
      (l₁ ++ a :: m :: l₂) free where
  alive := h.alive
  num_pos := t.num_pos
  num_lt := t.num_lt
  used_chain := by
    have hchain := h.used_chain
    rw [hsplit] at hchain
    rw [linkOn_update, linkOn_update, hlink, hlink', t.first_used]
    exact hchain.insert (hsplit ▸ h.used_nodup) (hsplit ▸ t.not_used)
  free_chain := by
    rw [linkOn_update, linkOn_update]
    exact (t.free_chain.update t.not_free _).update hfree _
  sorted := by
    have hs := h.sorted
    rw [hsplit, List.pairwise_append, List.pairwise_cons] at hs
    obtain ⟨hfront, ⟨ha, hback⟩, hacross⟩ := hs
    rw [List.pairwise_append, List.pairwise_cons, List.pairwise_cons]
    refine ⟨hfront, ⟨?_, hhigh, hback⟩, ?_⟩
    · intro n hn
      rcases List.mem_cons.mp hn with rfl | hn
      · exact hlow
      · exact ha n hn
    · intro x hx n hn
      have hxa := hacross x hx a (List.mem_cons_self ..)
      rcases List.mem_cons.mp hn with rfl | hn
      · exact hxa
      · rcases List.mem_cons.mp hn with rfl | hn
        · exact Nat.lt_trans hxa hlow
        · exact hacross x hx n (List.mem_cons_of_mem _ hn)
  free_nodup := t.free_nodup
  num_free := t.num_free
  mem_iff n := by
    rw [← t.mem_iff n, hsplit]
    simp only [List.mem_append, List.mem_cons]
    tauto
  used_page n hn := by
    by_cases hna : n = a
    · subst hna
      exact ⟨previous, Function.update_self .., hnum'⟩
    · dsimp only
      rw [Function.update_of_ne hna]
      by_cases hnm : n = m
      · subst hnm
        exact ⟨page, Function.update_self .., hnum⟩
      · rw [Function.update_of_ne hnm]
        refine h.used_page n ?_
        rw [hsplit]
        simp only [List.mem_append, List.mem_cons] at hn ⊢
        tauto
  free_page n hn := by
    dsimp only
    rw [Function.update_of_ne (ne_of_mem_of_not_mem hn hfree), Function.update_of_ne (ne_of_mem_of_not_mem hn t.not_free)]
    exact t.free_page n hn

end Taken

/-- In an increasing list there is a last number below `m`. -/
private theorem exists_place {l : List Nat} {m : Nat} (hsorted : l.Pairwise (· < ·)) (hm : m ∉ l) (hlow : ∃ n ∈ l, n < m) :
    ∃ l₁ a l₂, l = l₁ ++ a :: l₂ ∧ a < m ∧ ∀ n ∈ l₂, m < n := by
  induction l with
  | nil => simp at hlow
  | cons x l ih =>
    rw [List.pairwise_cons] at hsorted
    simp only [List.mem_cons, not_or] at hm
    by_cases hlater : ∃ n ∈ l, n < m
    · obtain ⟨l₁, a, l₂, rfl, ha, hhigh⟩ := ih hsorted.2 hm.2 hlater
      exact ⟨x :: l₁, a, l₂, rfl, ha, hhigh⟩
    · have hx : x < m := by
        obtain ⟨n, hn, hlt⟩ := hlow
        rcases List.mem_cons.mp hn with rfl | hn
        · exact hlt
        · exact absurd ⟨n, hn, hlt⟩ hlater
      refine ⟨[], x, l, rfl, hx, fun n hn => ?_⟩
      have hne : n ≠ m := ne_of_mem_of_not_mem hn hm.2
      have hge : ¬ n < m := fun hlt => hlater ⟨n, hn, hlt⟩
      omega

section Loops

variable {file : PageFile} {used free l₁ l₂ : List PageId} {a m : PageId}

/-- In front of page `a` the links lead to pages in use, up to `a`. -/
theorem Lists.link_le (h : file.Lists used free) (hsplit : used = l₁ ++ a :: l₂) {n : PageId} (hn : n ∈ l₁) :
    1 ≤ linkOn file.pages n ∧ linkOn file.pages n ≤ a := by
  have hchain := h.used_chain
  have hsorted := h.sorted
  rw [hsplit] at hchain hsorted
  have hmem := hchain.next_mem hn
  refine ⟨h.used_pos ?_, ?_⟩
  · rw [hsplit]
    rcases List.mem_append.mp hmem with hmem | hmem
    · exact List.mem_append_left _ hmem
    · rw [List.mem_singleton.mp hmem]
      exact List.mem_append_right _ (List.mem_cons_self ..)
  · rcases List.mem_append.mp hmem with hmem | hmem
    · exact Nat.le_of_lt ((List.pairwise_append.mp hsorted).2.2 _ hmem a (List.mem_cons_self ..))
    · exact Nat.le_of_eq (List.mem_singleton.mp hmem)

/-- The link of page `a`. -/
theorem Lists.link_eq (h : file.Lists used free) (hsplit : used = l₁ ++ a :: l₂) :
    linkOn file.pages a = l₂.headD INVALID_NUMBER := by
  have hchain := h.used_chain
  rw [hsplit] at hchain
  exact hchain.next_eq

/-- The last page in use. -/
theorem Lists.findTail_eq (h : file.Lists used free) (hsplit : used = l₁ ++ [a]) :
    forAllPages findTail Page.fresh file = .ok (file.pageAt a) file := by
  refine h.forAllPages_stop hsplit (fun n hn acc => ?_) (fun acc => ?_) _
  · have hused : n ∈ used := by rw [hsplit]; exact List.mem_append_left _ hn
    have hne : ¬ linkOn file.pages n = INVALID_NUMBER := Nat.ne_of_gt (h.link_le hsplit hn).1
    rw [findTail, h.pageAt_link hused, if_neg hne]
  · have hused : a ∈ used := by rw [hsplit]; exact List.mem_append_right _ (List.mem_cons_self ..)
    have hlink : linkOn file.pages a = INVALID_NUMBER := h.link_eq hsplit
    rw [findTail, h.pageAt_link hused, if_pos hlink]

/-- The page behind which page `m` belongs. -/
theorem Lists.findPlace_eq (h : file.Lists used free) (hsplit : used = l₁ ++ a :: l₂) (hlow : a < m)
    (hhigh : ∀ n ∈ l₂, m < n) (acc : Page × PageId) :
    forAllPages (findPlace m) acc file = .ok (file.pageAt a, linkOn file.pages a) file := by
  refine h.forAllPages_stop hsplit (fun n hn acc => ?_) (fun acc => ?_) _
  · have hused : n ∈ used := by rw [hsplit]; exact List.mem_append_left _ hn
    obtain ⟨hpos, hle⟩ := h.link_le hsplit hn
    have hstop : ¬ (linkOn file.pages n > m ∨ linkOn file.pages n = INVALID_NUMBER) := by
      rintro (hgt | hzero)
      · exact Nat.lt_irrefl _ (Nat.lt_trans (Nat.lt_of_le_of_lt hle hlow) hgt)
      · exact Nat.ne_of_gt hpos hzero
    simp only [findPlace, h.pageAt_link hused, if_neg hstop]
  · have hused : a ∈ used := by rw [hsplit]; exact List.mem_append_right _ (List.mem_cons_self ..)
    have hstop : linkOn file.pages a > m ∨ linkOn file.pages a = INVALID_NUMBER := by
      rw [h.link_eq hsplit]
      cases l₂ with
      | nil => exact .inr rfl
      | cons n l₂ => exact .inl (hhigh n (List.mem_cons_self ..))
    simp only [findPlace, h.pageAt_link hused, if_pos hstop]

end Loops

section Branches

variable {file : PageFile} {used free : List PageId} {m : PageId}

/-- The header without the first free page. -/
private def withoutFree (file : PageFile) (m : PageId) : FileHeader :=
  { file.header with first_free_page := linkOn file.pages m, num_free_pages := file.header.num_free_pages - 1 }

/-- The assertion of `allocatePage`. -/
private theorem free_counted (h : file.Lists used (m :: free)) {page : Page} (hp : file.pages m = some page) :
    (file.header.num_free_pages - 1 == 0) = ((page.set_page_number m).next_page_number == INVALID_NUMBER) := by
  have hnum : file.header.num_free_pages - 1 = free.length := by rw [h.num_free]; rfl
  rw [hnum, Page.next_page_number_set_page_number, ← linkOn_some hp, h.free_chain.2.start_eq]
  cases free with
  | nil => rfl
  | cons n free =>
    have hpos : 1 ≤ n := h.free_pos (List.mem_cons_of_mem _ (List.mem_cons_self ..))
    have hne : (n == 0) = false := beq_false_of_ne (Nat.ne_of_gt hpos)
    exact hne.symm

/-- A free page goes to the head of the used list. -/
theorem Lists.reusePage_head (h : file.Lists used (m :: free)) (hempty : used = [] → free = [])
    (hbelow : ∀ n ∈ used, m < n) :
    ∃ page, reusePage file.header file = .ok ({ withoutFree file m with first_used_page := m }, page, Page.fresh) file ∧
      page.page_number = m ∧ page.next_page_number = file.header.first_used_page := by
  obtain ⟨page, hp, -⟩ := h.free_page m (List.mem_cons_self ..)
  have hfirst : file.header.first_free_page = m := h.free_chain.1
  have hhead := h.used_chain.start_eq
  have hcond : file.header.first_used_page = INVALID_NUMBER ∨ file.header.first_used_page > m := by
    cases used with
    | nil => exact .inl hhead
    | cons n used => exact .inr (hhead ▸ hbelow n (List.mem_cons_self ..))
  have hcond' : file.header.first_used_page = INVALID_NUMBER ∨
      file.header.first_used_page > (page.set_page_number m).page_number := hcond
  refine ⟨if file.header.first_used_page > m then (page.set_page_number m).set_next_page_number file.header.first_used_page
    else page.set_page_number m, ?_, ?_, ?_⟩
  · rw [reusePage, hfirst, run_bind_ok (readPageWith_eq h.alive hp (.inl rfl))]
    dsimp only
    rw [if_pos hcond', run_bind_ok (run_pure _ _), if_pos (free_counted h hp), withoutFree, linkOn_some hp]
    rfl
  · split <;> rfl
  · by_cases hgt : file.header.first_used_page > m
    · rw [if_pos hgt]
      rfl
    · have hzero := hcond.resolve_right hgt
      have hnil : used = [] := by
        cases used with
        | nil => rfl
        | cons n used => exact absurd (hhead ▸ hbelow n (List.mem_cons_self ..)) hgt
      have hlink := h.free_chain.2.start_eq
      rw [hempty hnil] at hlink
      rw [if_neg hgt, hzero, Page.next_page_number_set_page_number, ← linkOn_some hp]
      exact hlink

/-- A free page goes behind page `a`. -/
theorem Lists.reusePage_behind (h : file.Lists used (m :: free)) {l₁ l₂ : List PageId} {a : PageId}
    (hsplit : used = l₁ ++ a :: l₂) (hlow : a < m) (hhigh : ∀ n ∈ l₂, m < n) :
    ∃ page, reusePage file.header file =
        .ok (withoutFree file m, page, (file.pageAt a).set_next_page_number m) file ∧
      page.page_number = m ∧ page.next_page_number = linkOn file.pages a := by
  obtain ⟨page, hp, -⟩ := h.free_page m (List.mem_cons_self ..)
  have hfirst : file.header.first_free_page = m := h.free_chain.1
  have hcond : ¬ (file.header.first_used_page = INVALID_NUMBER ∨
      file.header.first_used_page > (page.set_page_number m).page_number) := by
    have hmem : used.headD INVALID_NUMBER ∈ l₁ ++ [a] := by
      rw [hsplit]
      cases l₁ <;> simp
    have hle : used.headD INVALID_NUMBER ≤ a := by
      rcases List.mem_append.mp hmem with hmem | hmem
      · exact Nat.le_of_lt ((List.pairwise_append.mp (hsplit ▸ h.sorted)).2.2 _ hmem a (List.mem_cons_self ..))
      · exact Nat.le_of_eq (List.mem_singleton.mp hmem)
    have hpos : 1 ≤ used.headD INVALID_NUMBER := by
      refine h.used_pos ?_
      rw [hsplit] at hmem ⊢
      simp only [List.mem_append, List.mem_cons, List.not_mem_nil, or_false] at hmem ⊢
      tauto
    rw [h.used_chain.start_eq]
    rintro (hzero | hgt)
    · exact Nat.ne_of_gt hpos hzero
    · exact Nat.lt_irrefl _ (Nat.lt_trans (Nat.lt_of_le_of_lt hle hlow) hgt)
  refine ⟨(page.set_page_number m).set_next_page_number (linkOn file.pages a), ?_, rfl, rfl⟩
  rw [reusePage, hfirst, run_bind_ok (readPageWith_eq h.alive hp (.inl rfl))]
  dsimp only
  rw [if_neg hcond, Page.page_number_set_page_number, run_bind_ok (h.findPlace_eq hsplit hlow hhigh _),
    run_bind_ok (run_pure _ _), if_pos (free_counted h hp), withoutFree, linkOn_some hp]
  rfl

/-- The first page in use. -/
theorem Lists.appendPage_head (h : file.Lists [] free) (hlt : file.header.num_pages + 1 < 2 ^ 32) :
    appendPage file.header file =
      .ok ({ file.header with first_used_page := file.header.num_pages, num_pages := file.header.num_pages + 1 },
        Page.fresh.set_page_number file.header.num_pages, Page.fresh) file := by
  have hzero : file.header.first_used_page = INVALID_NUMBER := h.used_chain.start_eq
  rw [appendPage, u32, Nat.mod_eq_of_lt hlt]
  dsimp only
  rw [if_pos hzero]
  rfl

/-- A new page goes behind the last page in use. -/
theorem Lists.appendPage_behind (h : file.Lists used free) {l₁ : List PageId} {a : PageId} (hsplit : used = l₁ ++ [a])
    (hlt : file.header.num_pages + 1 < 2 ^ 32) :
    appendPage file.header file =
      .ok ({ file.header with num_pages := file.header.num_pages + 1 },
        Page.fresh.set_page_number file.header.num_pages,
        (file.pageAt a).set_next_page_number file.header.num_pages) file := by
  have ha : a ∈ used := by rw [hsplit]; exact List.mem_append_right _ (List.mem_cons_self ..)
  have hne : ¬ file.header.first_used_page = INVALID_NUMBER := by
    rw [h.used_chain.start_eq]
    refine Nat.ne_of_gt (h.used_pos ?_)
    rw [hsplit]
    cases l₁ <;> simp
  have hused : (file.pageAt a).isUsed = true := by
    rw [Page.isUsed_eq_true_iff, h.pageAt_number ha]
    exact Nat.ne_of_gt (h.used_pos ha)
  rw [appendPage, u32, Nat.mod_eq_of_lt hlt]
  dsimp only
  rw [if_neg hne, run_bind_ok (h.findTail_eq hsplit), if_pos hused]
  rfl

end Branches

section Spec

variable {file : PageFile} {used free : List PageId}

/-- What `allocatePage` does to the lists. -/
structure Allocated (file : PageFile) (used free : List PageId) (page : Page) (m : PageId) (file' : PageFile)
    (used' free' : List PageId) : Prop where
  run : allocatePage file = .ok (page, m) file'
  lists : file'.Lists used' free'
  number : page.page_number = m
  not_used : m ∉ used
  mem_used : ∀ n, n ∈ used' ↔ n = m ∨ n ∈ used
  mem_free : ∀ n, n ∈ free' ↔ n ∈ free ∧ n ≠ m

/-- A page that goes to the head of the used list. -/
private theorem Taken.allocated_head {m : PageId} {rest : List PageId} {header : FileHeader}
    (t : Taken file used m rest header)
    (h : file.Lists used free) (hrest : ∀ n, n ∈ rest ↔ n ∈ free ∧ n ≠ m) (hbelow : ∀ n ∈ used, m < n) (page : Page)
    (hplaced : placePage file.header file = .ok ({ header with first_used_page := m }, page, Page.fresh) file)
    (hnum : page.page_number = m) (hlink : page.next_page_number = file.header.first_used_page) :
    ∃ page m file' used' free', Allocated file used free page m file' used' free' := by
  refine ⟨page, m, _, m :: used, rest, ?_, t.at_head h (page.stored page.header) hnum hlink hbelow, hnum,
    t.not_used, fun n => List.mem_cons, hrest⟩
  rw [allocatePage_eq h.alive hplaced]
  simp [hnum]

/-- A page that goes behind page `a`. -/
private theorem Taken.allocated_behind {m : PageId} {rest : List PageId} {header : FileHeader}
    (t : Taken file used m rest header) (h : file.Lists used free) (hrest : ∀ n, n ∈ rest ↔ n ∈ free ∧ n ≠ m)
    {l₁ l₂ : List PageId} {a : PageId} (hsplit : used = l₁ ++ a :: l₂) (hlow : a < m) (hhigh : ∀ n ∈ l₂, m < n)
    (page : Page) (hplaced : placePage file.header file =
      .ok (header, page, (file.pageAt a).set_next_page_number m) file)
    (hnum : page.page_number = m) (hlink : page.next_page_number = linkOn file.pages a) :
    ∃ page m file' used' free', Allocated file used free page m file' used' free' := by
  have ha : a ∈ used := by rw [hsplit]; exact List.mem_append_right _ (List.mem_cons_self ..)
  have hnum' : ((file.pageAt a).set_next_page_number m).page_number = a := h.pageAt_number ha
  have hne : a ≠ INVALID_NUMBER := Nat.ne_of_gt (h.used_pos ha)
  have hfree : a ∉ rest := fun hmem => h.disjoint ha ((hrest a).mp hmem).1
  refine ⟨page, m, _, l₁ ++ a :: m :: l₂, rest, ?_,
    t.behind h (page.stored page.header)
      (((file.pageAt a).set_next_page_number m).stored ((file.pageAt a).set_next_page_number m).header)
      hsplit hnum hlink hnum' rfl hfree hlow hhigh, hnum, t.not_used, fun n => ?_, hrest⟩
  · rw [allocatePage_eq h.alive hplaced]
    simp only [hnum, hnum', if_pos hne]
  · rw [hsplit]
    simp only [List.mem_append, List.mem_cons]
    tauto

/-- `allocatePage`, where the used list is not empty or at most one page is free. -/
theorem Lists.allocatePage_spec (h : file.Lists used free) (hempty : used = [] → free.length ≤ 1)
    (hroom : free = [] → file.header.num_pages + 1 < 2 ^ 32) :
    ∃ page m file' used' free', Allocated file used free page m file' used' free' := by
  cases free with
  | nil =>
    have hlt := hroom rfl
    have hnone : ¬ file.header.num_free_pages > 0 := by
      rw [h.num_free]
      exact Nat.lt_irrefl 0
    have hplace : placePage file.header = appendPage file.header := if_neg hnone
    have t := h.taken_new hlt
    have hrest : ∀ n, n ∈ ([] : List PageId) ↔ n ∈ ([] : List PageId) ∧ n ≠ file.header.num_pages := by simp
    rcases List.eq_nil_or_concat used with rfl | ⟨l₁, a, hsplit⟩
    · refine t.allocated_head h hrest (fun n hn => absurd hn List.not_mem_nil)
        (Page.fresh.set_page_number file.header.num_pages) ?_ rfl h.used_chain.start_eq.symm
      rw [hplace]
      exact h.appendPage_head hlt
    · have ha : a ∈ used := by rw [hsplit]; simp
      rw [List.concat_eq_append] at hsplit
      refine t.allocated_behind h hrest hsplit (h.used_lt ha) (fun n hn => absurd hn List.not_mem_nil)
        (Page.fresh.set_page_number file.header.num_pages) ?_ rfl (h.link_eq hsplit).symm
      rw [hplace]
      exact h.appendPage_behind hsplit hlt
  | cons m rest =>
    have hsome : file.header.num_free_pages > 0 := by
      rw [h.num_free]
      exact Nat.succ_pos _
    have hplace : placePage file.header = reusePage file.header := if_pos hsome
    have t := h.taken_free
    have hrest : ∀ n, n ∈ rest ↔ n ∈ m :: rest ∧ n ≠ m := by
      intro n
      rw [List.mem_cons]
      constructor
      · intro hn
        exact ⟨.inr hn, ne_of_mem_of_not_mem hn t.not_free⟩
      · rintro ⟨hn, hne⟩
        exact hn.resolve_left hne
    by_cases hlow : ∃ n ∈ used, n < m
    · obtain ⟨l₁, a, l₂, hsplit, ha, hhigh⟩ := exists_place h.sorted t.not_used hlow
      obtain ⟨page, hrun, hnum, hlink⟩ := h.reusePage_behind hsplit ha hhigh
      exact t.allocated_behind h hrest hsplit ha hhigh page (by rw [hplace]; exact hrun) hnum hlink
    · have hbelow : ∀ n ∈ used, m < n := by
        intro n hn
        have hne : n ≠ m := ne_of_mem_of_not_mem hn t.not_used
        exact Nat.lt_of_le_of_ne (Nat.not_lt.mp fun hlt => hlow ⟨n, hn, hlt⟩) (Ne.symm hne)
      have hlast : used = [] → rest = [] := by
        intro hnil
        have hlen := hempty hnil
        rw [List.length_cons] at hlen
        exact List.length_eq_zero_iff.mp (Nat.le_zero.mp (Nat.le_of_succ_le_succ hlen))
      obtain ⟨page, hrun, hnum, hlink⟩ := h.reusePage_head hlast hbelow
      exact t.allocated_head h hrest hbelow page (by rw [hplace]; exact hrun) hnum hlink

end Spec

end Cs564.PageFile
