import Cs564.Lib.Outcomes
import Cs564.PageFile.Partition
import Cs564.PageFile.Sound
import Cs564.SlottedPage.Slots

/-!
# Old copies of pages

Clients keep the `Page` objects that `allocatePage` and `readPage` give, edit the records in them, and write them back
when the pages on disk have got other links (`CopyRun`).  `writePage` takes the link from disk: it changes the one page,
but not its link (`writePage_copy`).
-/

namespace Cs564

namespace Page

/-- What an edit of the records makes of a page, whether it returns or throws. -/
inductive Edit (page : Page) : Page → Prop where
  | insertRecord (record_data : List UInt8) : Edit page (page.insertRecord record_data).1
  | updateRecord (record_id : RecordId) (record_data : List UInt8) (slot : record_id.slot_number ≠ INVALID_SLOT) :
      Edit page (page.updateRecord record_id record_data).1
  | deleteRecord (record_id : RecordId) (slot : record_id.slot_number ≠ INVALID_SLOT) :
      Edit page (page.deleteRecord record_id).1

section Number

variable (page : Page)

private theorem writeBytes_number (bound start : Page → Nat) (byte : Nat → UInt8) (fuel i : Nat) :
    (writeBytes bound start byte fuel i page).page_number = page.page_number := by
  induction fuel generalizing page i with
  | zero => rfl
  | succ fuel ih =>
    rw [writeBytes]
    split
    · exact ih _ _
    · rfl

private theorem insertRecordInSlot_number (slot_number : SlotId) (record_data : List UInt8) :
    (page.insertRecordInSlot slot_number record_data).1.page_number = page.page_number := by
  unfold insertRecordInSlot
  split
  · rfl
  · split
    · rfl
    · dsimp only
      rw [writeBytes_number]
      rfl

private theorem getAvailableSlot_number : page.getAvailableSlot.1.page_number = page.page_number := by
  unfold getAvailableSlot
  split
  · split <;> rfl
  · rfl

private theorem insertRecord_number (record_data : List UInt8) :
    (page.insertRecord record_data).1.page_number = page.page_number := by
  have hslot := page.getAvailableSlot_number
  rw [insertRecord]
  split
  · rfl
  · generalize page.getAvailableSlot = found at hslot ⊢
    obtain ⟨page₁, slot⟩ := found
    cases slot with
    | error e => exact hslot
    | ok slot_number =>
      have hinsert := page₁.insertRecordInSlot_number slot_number record_data
      dsimp only
      generalize page₁.insertRecordInSlot slot_number record_data = inserted at hinsert ⊢
      obtain ⟨page₂, result⟩ := inserted
      cases result <;> exact hinsert.trans hslot

private theorem shiftSlots_number (slot_number : SlotId) :
    (page.shiftSlots slot_number).1.page_number = page.page_number := by
  have hrounds : ∀ (l : List SlotId) (state : Page × Nat × Nat),
      (l.foldl (shiftSlot slot_number) state).1.page_number = state.1.page_number := by
    intro l
    induction l with
    | nil => exact fun _ => rfl
    | cons i l ih =>
      intro state
      rw [List.foldl_cons, ih]
      unfold shiftSlot
      dsimp only
      split <;> rfl
  exact hrounds _ _

private theorem moveData_number {slot_number : SlotId} {move_offset move_bytes : Nat} {page' : Page}
    (hmove : page.moveData slot_number move_offset move_bytes = .ok page') : page'.page_number = page.page_number := by
  unfold moveData at hmove
  split at hmove
  · split at hmove
    · cases hmove
    · rw [← Except.ok.inj hmove]
      exact writeBytes_number ..
  · rw [← Except.ok.inj hmove]

private theorem releaseSlot_number (slot_number : SlotId) : (page.releaseSlot slot_number).page_number = page.page_number := by
  unfold releaseSlot page_number
  simp only [setUsed_header, setOffset_header, setLength_header]

private theorem number_with_slots (slots freeSlots lower : Nat) :
    { page with header := { page.header with
        num_slots := slots
        num_free_slots := freeSlots
        free_space_lower_bound := lower } }.page_number = page.page_number := rfl

private theorem compactSlots_number : page.compactSlots.page_number = page.page_number := by
  unfold compactSlots
  exact page.number_with_slots _ _ _

private theorem deleteRecordWith_number (record_id : RecordId) (allow_slot_compaction : Bool) :
    (page.deleteRecordWith record_id allow_slot_compaction).1.page_number = page.page_number := by
  rw [deleteRecordWith]
  cases page.validateRecordId record_id with
  | error e => rfl
  | ok _ =>
    have hcleared := page.writeBytes_number (·.item_length record_id.slot_number) (·.item_offset record_id.slot_number)
      (fun _ => 0) (2 ^ 16) 0
    dsimp only
    generalize writeBytes (·.item_length record_id.slot_number) (·.item_offset record_id.slot_number) (fun _ => 0)
      (2 ^ 16) 0 page = cleared at hcleared ⊢
    have hshifted := (cleared.shiftSlots_number record_id.slot_number).trans hcleared
    generalize cleared.shiftSlots record_id.slot_number = shifted at hshifted ⊢
    cases hmove : shifted.1.moveData record_id.slot_number shifted.2.1 shifted.2.2 with
    | error e => exact hshifted
    | ok moved =>
      have hmoved := (shifted.1.moveData_number hmove).trans hshifted
      have hreleased := (moved.releaseSlot_number record_id.slot_number).trans hmoved
      dsimp only
      split
      · exact ((moved.releaseSlot record_id.slot_number).compactSlots_number).trans hreleased
      · exact hreleased

private theorem updateRecord_number (record_id : RecordId) (record_data : List UInt8) :
    (page.updateRecord record_id record_data).1.page_number = page.page_number := by
  have hdelete := page.deleteRecordWith_number record_id false
  rw [updateRecord]
  cases page.validateRecordId record_id with
  | error e => rfl
  | ok _ =>
    dsimp only
    split
    · rfl
    · generalize page.deleteRecordWith record_id false = deleted at hdelete ⊢
      obtain ⟨page₁, result⟩ := deleted
      cases result with
      | error e => exact hdelete
      | ok _ => exact (page₁.insertRecordInSlot_number ..).trans hdelete

end Number

/-- Edits of the records keep the number of the page. -/
theorem Edit.page_number {page page' : Page} (edit : page.Edit page') : page'.page_number = page.page_number := by
  cases edit with
  | insertRecord record_data => exact insertRecord_number ..
  | updateRecord record_id record_data slot => exact updateRecord_number ..
  | deleteRecord record_id slot => exact deleteRecordWith_number ..

end Page

/-- A file gives back the records of the page that was written. -/
theorem Page.getRecord_congr {page copy : Page} (hnum : page.page_number = copy.page_number)
    (hdata : ∀ pos, pos < DATA_SIZE → page.data pos = copy.data pos) {record_id : RecordId}
    (hslot : Page.getSlot record_id.slot_number + pageSlotSize ≤ DATA_SIZE) :
    page.getRecord record_id = copy.getRecord record_id := by
  have hbyte : ∀ k, k < pageSlotSize → page.data (Page.getSlot record_id.slot_number + k) =
      copy.data (Page.getSlot record_id.slot_number + k) :=
    fun k hk => hdata _ (Nat.lt_of_lt_of_le (Nat.add_lt_add_left hk _) hslot)
  have hused : page.used record_id.slot_number = copy.used record_id.slot_number := by
    have hnum' : page.header.current_page_number = copy.header.current_page_number := hnum
    rw [Page.used, Page.used, hnum']
    split
    · rfl
    · exact congrArg (· != 0) (hbyte 0 (by decide))
  have hoffset : page.item_offset record_id.slot_number = copy.item_offset record_id.slot_number :=
    read16_congr (hbyte 2 (by decide)) (hbyte 3 (by decide))
  have hlength : page.item_length record_id.slot_number = copy.item_length record_id.slot_number :=
    read16_congr (hbyte 4 (by decide)) (hbyte 5 (by decide))
  have hvalid : page.validateRecordId record_id = copy.validateRecordId record_id := by
    rw [Page.validateRecordId, Page.validateRecordId, hused, hnum]
  have hbytes : ∀ pos count, substrData page.data pos count = substrData copy.data pos count := by
    intro pos count
    unfold substrData
    split
    · refine congrArg Except.ok (List.map_congr_left fun k hk => hdata _ ?_)
      have hlt := List.mem_range.mp hk
      omega
    · rfl
  rw [Page.getRecord, Page.getRecord, hvalid, hoffset, hlength, hbytes]

/-- The copies after a call: the object that `allocatePage` gives is the only copy of the page. -/
def FileCall.copies (file : PageFile) (copies : PageId → Set Page) : FileCall → PageId → Set Page
  | allocatePage =>
    match PageFile.allocatePage file with
    | .ok allocated _ => Function.update copies allocated.2 {allocated.1}
    | .error _ _ => copies
  | deletePage _ => copies
  | writePage _ _ => copies

/-- The files that calls make of a new file, each call meeting `cond`, with the pages in use and deleted, and the copies
that clients have of each page since it was last allocated. -/
inductive CopyRun (cond : PageFile → FileCall → Prop) :
    PageFile → Finset PageId → Finset PageId → (PageId → Set Page) → Prop where
  | create : CopyRun cond .create ∅ ∅ fun _ => ∅
  | call {file : PageFile} {live dead : Finset PageId} {copies : PageId → Set Page} (call : FileCall)
      (before : CopyRun cond file live dead copies) (meets : cond file call) :
      CopyRun cond (call.run file live dead).1 (call.run file live dead).2.1 (call.run file live dead).2.2
        (call.copies file copies)
  | read {file file' : PageFile} {live dead : Finset PageId} {copies : PageId → Set Page} {p : PageId} {page : Page}
      (before : CopyRun cond file live dead copies) (run : PageFile.readPage p file = .ok page file') :
      CopyRun cond file' live dead (Function.update copies p (insert page (copies p)))
  | edit {file : PageFile} {live dead : Finset PageId} {copies : PageId → Set Page} {p : PageId} {copy copy' : Page}
      (before : CopyRun cond file live dead copies) (mem : copy ∈ copies p) (edit : copy.Edit copy') :
      CopyRun cond file live dead (Function.update copies p (insert copy' (copies p)))

/-- No page 0 is deleted, a page is written under its own number, which the file has, and the numbers do not run out. -/
def FileCall.Proper (file : PageFile) : FileCall → Prop
  | allocatePage => file.header.num_free_pages = 0 → file.header.num_pages + 1 < 2 ^ 32
  | deletePage page_number => page_number ≠ INVALID_NUMBER
  | writePage new_page_number new_page =>
    new_page.page_number = new_page_number ∧ 1 ≤ new_page_number ∧ new_page_number < file.header.num_pages

namespace PageFile

/-- `writePage` of the copy changes the page on disk but for its link, and nothing else; then `readPage` gives the copy
with this link. -/
structure WritesBack (file : PageFile) (p : PageId) (copy : Page) (file' : PageFile) : Prop where
  run : writePage p copy file = .ok () file'
  header : file'.header = file.header
  link : linkOn file'.pages p = linkOn file.pages p
  others : ∀ n, n ≠ p → file'.pages n = file.pages n
  reads : ∃ page, readPage p file' = .ok page file' ∧
    page.header = { copy.header with next_page_number := linkOn file.pages p } ∧
      (∀ pos, pos < DATA_SIZE → page.data pos = copy.data pos) ∧
        ∀ record_id : RecordId, record_id.slot_number ≠ INVALID_SLOT →
          Page.getSlot record_id.slot_number + pageSlotSize ≤ DATA_SIZE →
            page.getRecord record_id = copy.getRecord record_id

/-- A copy of a page in use. -/
theorem Sound.writesBack {file : PageFile} {free : List PageId} (h : file.Sound free) {p : PageId}
    (hused : contentsOn file.pages p ≠ none) {copy : Page} (hnum : copy.page_number = p) :
    ∃ file', WritesBack file p copy file' := by
  obtain ⟨page, hp, hmarked⟩ := contentsOn_ne_none_iff.mp hused
  have hpage := h.number_used hp hmarked
  have hlink := linkOn_some hp
  have hback : (copy.stored { copy.header with next_page_number := page.next_page_number }).page_number =
      copy.page_number := rfl
  have hwritten := h.update hp hpage (hback.trans hnum)
  refine ⟨_, h.writePage_used hp hmarked copy, rfl, ?_, fun n hn => Function.update_of_ne hn _ _, ?_⟩
  · rw [linkOn_update, Function.update_self, hlink]
    rfl
  · refine ⟨_, hwritten.readPage_used (Function.update_self ..) ?_, ?_, fun pos hpos => if_pos hpos, ?_⟩
    · rw [hback, hnum]
      exact h.ne_zero hp
    · rw [hlink]
      rfl
    · exact fun record_id _ hslot => Page.getRecord_congr hback (fun pos hpos => if_pos hpos) hslot

/-- What holds of a file and of the copies in a run of proper calls. -/
private structure Copied (file : PageFile) (live : Finset PageId) (copies : PageId → Set Page) : Prop where
  sound : ∃ free, file.Sound free
  used : ∀ p ∈ live, contentsOn file.pages p ≠ none
  number : ∀ p, ∀ copy ∈ copies p, copy.page_number = p

variable {file : PageFile} {live dead : Finset PageId} {copies : PageId → Set Page}

/-- One call. -/
private theorem Copied.call (h : Copied file live copies) (call : FileCall) (hproper : call.Proper file) :
    Copied (call.run file live dead).1 (call.run file live dead).2.1 (call.copies file copies) := by
  obtain ⟨free, hsound⟩ := h.sound
  cases call with
  | allocatePage =>
    rcases hsound.allocatePage_cases with ⟨page, file', hrun, ha⟩ | ⟨e, hrun⟩
    · simp only [FileCall.run, FileCall.copies, hrun]
      refine ⟨ha.sound (ha.room hproper), fun p hp => ?_, fun p copy hcopy => ?_⟩
      · exact ha.live ((Finset.mem_insert.mp hp).imp_right (h.used p))
      · by_cases hpm : p = page.page_number
        · subst hpm
          rw [Function.update_self, Set.mem_singleton_iff] at hcopy
          rw [hcopy]
        · rw [Function.update_of_ne hpm] at hcopy
          exact h.number p copy hcopy
    · simp only [FileCall.run, FileCall.copies, hrun]
      exact h
  | deletePage p =>
    rcases hsound.deletePage_cases hproper with ⟨file', hrun, -, hsound', hcontents⟩ | ⟨e, hrun⟩
    · simp only [FileCall.run, FileCall.copies, hrun]
      refine ⟨⟨_, hsound'⟩, fun q hq => ?_, h.number⟩
      obtain ⟨hne, hq⟩ := Finset.mem_erase.mp hq
      rw [hcontents, Function.update_of_ne hne]
      exact h.used q hq
    · simp only [FileCall.run, FileCall.copies, hrun]
      exact h
  | writePage n page =>
    obtain ⟨hnum, hpos, hlt⟩ := hproper
    obtain ⟨old, hp⟩ := (hsound.present n).mpr ⟨hpos, hlt⟩
    by_cases hfree : old.page_number = INVALID_NUMBER
    · simp only [FileCall.run, FileCall.copies, hsound.writePage_free hp hfree]
      exact h
    · simp only [FileCall.run, FileCall.copies, hsound.writePage_used hp hfree]
      refine ⟨⟨free, hsound.update hp (hsound.number_used hp hfree) hnum⟩, fun p hlive => ?_, h.number⟩
      dsimp only
      by_cases hpn : p = n
      · subst hpn
        exact contentsOn_ne_none_iff.mpr ⟨_, Function.update_self .., hnum ▸ hsound.ne_zero hp⟩
      · obtain ⟨page', hp', hused⟩ := contentsOn_ne_none_iff.mp (h.used p hlive)
        exact contentsOn_ne_none_iff.mpr ⟨page', (Function.update_of_ne hpn ..).trans hp', hused⟩

/-- More copies of a page. -/
private theorem Copied.insert (h : Copied file live copies) {p : PageId} {copy : Page} (hnum : copy.page_number = p) :
    Copied file live (Function.update copies p (insert copy (copies p))) := by
  refine ⟨h.sound, h.used, fun q copy' hcopy' => ?_⟩
  by_cases hqp : q = p
  · subst hqp
    rw [Function.update_self] at hcopy'
    rcases Set.mem_insert_iff.mp hcopy' with rfl | hcopy'
    · exact hnum
    · exact h.number q copy' hcopy'
  · rw [Function.update_of_ne hqp] at hcopy'
    exact h.number q copy' hcopy'

/-- A run of proper calls. -/
private theorem copied_of_run (hrun : CopyRun (fun file call => call.Proper file) file live dead copies) :
    Copied file live copies := by
  induction hrun with
  | create =>
    refine ⟨⟨[], sound_create⟩, fun p hp => ?_, fun p copy hcopy => ?_⟩
    · exact absurd hp (Finset.notMem_empty p)
    · exact absurd hcopy (Set.notMem_empty copy)
  | call call _ hproper ih => exact ih.call call hproper
  | @read file file' live dead copies p page _ hread ih =>
    obtain ⟨free, hsound⟩ := ih.sound
    by_cases hzero : p = INVALID_NUMBER
    · rw [hzero, hsound.readPage_zero] at hread
      cases hread
    · by_cases hused : contentsOn file.pages p ≠ none
      · obtain ⟨page', hp, hmarked⟩ := contentsOn_ne_none_iff.mp hused
        rw [hsound.readPage_used hp hmarked] at hread
        obtain ⟨rfl, rfl⟩ := EStateM.Result.ok.inj hread
        exact ih.insert (hsound.number_used hp hmarked)
      · rw [hsound.readPage_none hzero (not_not.mp hused)] at hread
        cases hread
  | edit _ hmem hedit ih => exact ih.insert (hedit.page_number.trans (ih.number _ _ hmem))

/-- In a run of proper calls an old copy of a page in use can be written back without damage. -/
theorem writePage_copy (hrun : CopyRun (fun file call => call.Proper file) file live dead copies) {p : PageId}
    (hp : p ∈ live) {copy : Page} (hcopy : copy ∈ copies p) : ∃ file', WritesBack file p copy file' := by
  have h := copied_of_run hrun
  obtain ⟨free, hsound⟩ := h.sound
  exact hsound.writesBack (h.used p hp) (h.number p copy hcopy)

/-! ### Runs on fixed calls -/

/-- Page 1, with a record. -/
def editedCopy : Page := ((Page.fresh.set_page_number 1).insertRecord [7]).1

/-- A page is allocated, the copy of it edited, and another page allocated. -/
theorem writePage_copy_relinked :
    ∃ file', WritesBack (runCalls [.allocatePage, .allocatePage]).1 1 editedCopy file' := by
  have h₁ : CopyRun (fun file call => call.Proper file) (runCalls [.allocatePage]).1 (runCalls [.allocatePage]).2.1
      (runCalls [.allocatePage]).2.2 _ := .call .allocatePage .create fun _ => by decide
  have hcopy : Page.fresh.set_page_number 1 ∈ FileCall.copies .create (fun _ => ∅) .allocatePage 1 := by
    exact Set.mem_singleton _
  have h₂ := CopyRun.edit h₁ hcopy (.insertRecord [7])
  have h₃ := h₂.call .allocatePage fun _ => by decide +kernel
  exact writePage_copy h₃ (by decide +kernel) (.inl rfl)

/-- `deletePage(0)` throws, and then the copy cannot be written any more. -/
theorem deletePage_zero_damages : ¬ ∀ (file : PageFile) (live dead : Finset PageId) (copies : PageId → Set Page),
    CopyRun (fun _ _ => True) file live dead copies → ∀ p ∈ live, ∀ copy ∈ copies p,
      ∃ file', WritesBack file p copy file' := by
  intro hall
  have h₁ : CopyRun (fun _ _ => True) (runCalls [.allocatePage]).1 (runCalls [.allocatePage]).2.1
      (runCalls [.allocatePage]).2.2 _ := .call .allocatePage .create trivial
  have h₂ := h₁.call (.deletePage 0) trivial
  obtain ⟨file', hback⟩ := hall _ _ _ _ h₂ 1 (by decide +kernel) (Page.fresh.set_page_number 1) (Set.mem_singleton _)
  have hrun : writePage 1 (Page.fresh.set_page_number 1) (runCalls [.allocatePage, .deletePage 0]).1 = .ok () file' :=
    hback.run
  have hreturns : returned (fun _ _ => true)
      (writePage 1 (Page.fresh.set_page_number 1) (runCalls [.allocatePage, .deletePage 0]).1) = true := by
    rw [hrun]
    rfl
  revert hreturns
  decide +kernel

end PageFile

end Cs564
