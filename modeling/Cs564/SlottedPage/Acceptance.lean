import Cs564.SlottedPage.Contents
/-!
# What a page accepts

Whether `insertRecord` takes a record depends on the space that the page has and on the used mark of the slot that the
record gets, which for a new slot is a byte of the free space (`insertRecord_accepts_iff`).  Whether the other calls take
a record id depends on the used mark of its slot, wherever that lies (`rejects_iff`).
-/

namespace Cs564

namespace Page

/-! ### Records -/

/-- `insertRecord` takes the record if and only if the page says that it has space for it, and otherwise reports this and
leaves the page as it is. -/
def AcceptsIfSpace (page : Page) (record : List UInt8) : Prop :=
  ((∃ page' record_id, page.insertRecord record = (page', .ok record_id)) ↔ page.hasSpaceForRecord record = true) ∧
    ∀ page' e, page.insertRecord record = (page', .error e) →
      page' = page ∧ e = .insufficientSpace page.page_number record.length page.getFreeSpace

/-- The slot that the next record gets exists and is not marked as used: an unused one of the slot array if there are
unused slots by the header, else the one behind the slot array. -/
def SlotAvailable (page : Page) : Prop :=
  if page.header.num_free_slots > 0 then ∃ i, 1 ≤ i ∧ i ≤ page.header.num_slots ∧ page.used i = false
  else u16 (page.header.num_slots + 1) ≠ INVALID_SLOT ∧ page.used (u16 (page.header.num_slots + 1)) = false

variable {page : Page} {record : List UInt8} {s : SlotId}

/-- `insertRecordInSlot` takes the record in an unused slot of the slot array. -/
private theorem insertRecordInSlot_ok_iff : (∃ page', page.insertRecordInSlot s record = (page', .ok ())) ↔
    1 ≤ s ∧ s ≤ page.header.num_slots ∧ page.used s = false := by
  unfold insertRecordInSlot
  by_cases hvalid : s > page.header.num_slots ∨ s = INVALID_SLOT
  · rw [if_pos hvalid]
    constructor
    · rintro ⟨page', heq⟩
      exact absurd (congrArg Prod.snd heq) (by simp)
    · rintro ⟨hs, hs', -⟩
      rcases hvalid with hgt | hzero
      · exact absurd hs' (Nat.not_le.mpr hgt)
      · exact absurd hs (by rw [hzero]; decide)
  · rw [if_neg hvalid]
    push Not at hvalid
    by_cases hused : page.used s = true
    · rw [if_pos hused]
      constructor
      · rintro ⟨page', heq⟩
        exact absurd (congrArg Prod.snd heq) (by simp)
      · rintro ⟨-, -, hunused⟩
        exact absurd hused (by simp [hunused])
    · rw [if_neg hused]
      exact ⟨fun _ => ⟨Nat.pos_of_ne_zero hvalid.2, hvalid.1, by simpa using hused⟩, fun _ => ⟨_, rfl⟩⟩

/-- `getAvailableSlot` finds a slot, and the record can be put there. -/
private theorem getAvailableSlot_usable_iff : (∃ page' s, page.getAvailableSlot = (page', .ok s) ∧ 1 ≤ s ∧
    s ≤ page'.header.num_slots ∧ page'.used s = false) ↔ page.SlotAvailable := by
  unfold getAvailableSlot SlotAvailable
  by_cases hfree : page.header.num_free_slots > 0
  · rw [if_pos hfree, if_pos hfree]
    constructor
    · rintro ⟨page', s, heq, hs, hs', hused⟩
      cases hfind : (List.range' 1 page.header.num_slots).find? fun i => !page.used i with
      | none =>
        rw [hfind] at heq
        exact absurd (congrArg Prod.snd heq) (by simp)
      | some i =>
        have hmem := List.mem_of_find?_eq_some hfind
        rw [List.mem_range'_1] at hmem
        exact ⟨i, hmem.1, by omega, by simpa using List.find?_some hfind⟩
    · rintro ⟨i, hi, hi', hused⟩
      obtain ⟨s, hfind⟩ : ∃ s, (List.range' 1 page.header.num_slots).find? (fun i => !page.used i) = some s := by
        rw [← Option.isSome_iff_exists, List.find?_isSome]
        exact ⟨i, List.mem_range'_1.mpr ⟨hi, by omega⟩, by simp [hused]⟩
      have hmem := List.mem_of_find?_eq_some hfind
      rw [List.mem_range'_1] at hmem
      rw [hfind]
      exact ⟨page, s, rfl, hmem.1, Nat.le_of_lt_succ (Nat.succ_eq_one_add _ ▸ hmem.2),
        by simpa using List.find?_some hfind⟩
  · rw [if_neg hfree, if_neg hfree]
    by_cases hzero : u16 (page.header.num_slots + 1) = INVALID_SLOT
    · simp [hzero]
    · simp only [if_neg hzero]
      constructor
      · rintro ⟨page', s, heq, -, -, hused⟩
        obtain ⟨rfl, hs⟩ := Prod.mk.inj heq
        obtain rfl := Except.ok.inj hs
        exact ⟨hzero, hused⟩
      · rintro ⟨-, hused⟩
        exact ⟨_, _, rfl, Nat.pos_of_ne_zero hzero, Nat.le_refl _, hused⟩

/-- A record is taken if there is space and a slot for it. -/
theorem insertRecord_ok_iff : (∃ page' record_id, page.insertRecord record = (page', .ok record_id)) ↔
    page.hasSpaceForRecord record = true ∧ page.SlotAvailable := by
  rw [← getAvailableSlot_usable_iff]
  unfold insertRecord
  by_cases hspace : page.hasSpaceForRecord record = true
  · rw [if_neg (by simp [hspace])]
    constructor
    · rintro ⟨page', record_id, heq⟩
      refine ⟨hspace, ?_⟩
      rcases hslot : page.getAvailableSlot with ⟨page₁, e | s⟩
      · rw [hslot] at heq
        exact absurd (congrArg Prod.snd heq) (by simp)
      · rw [hslot] at heq
        rcases hinsert : page₁.insertRecordInSlot s record with ⟨page₂, e | _⟩
        · simp only [hinsert] at heq
          exact absurd (congrArg Prod.snd heq) (by simp)
        · exact ⟨page₁, s, rfl, insertRecordInSlot_ok_iff.mp ⟨page₂, hinsert⟩⟩
    · rintro ⟨-, page₁, s, hslot, husable⟩
      have hinsert : ∃ page₂, page₁.insertRecordInSlot s record = (page₂, .ok ()) := insertRecordInSlot_ok_iff.mpr husable
      obtain ⟨page₂, hinsert⟩ := hinsert
      rw [hslot]
      simp only [hinsert]
      exact ⟨_, _, rfl⟩
  · rw [if_pos (by simpa using hspace)]
    constructor
    · rintro ⟨page', record_id, heq⟩
      exact absurd (congrArg Prod.snd heq) (by simp)
    · rintro ⟨htrue, -⟩
      exact absurd htrue hspace

/-- Without space the page is left as it is. -/
private theorem insertRecord_noSpace (hspace : ¬ page.hasSpaceForRecord record = true) : page.insertRecord record =
    (page, .error (.insufficientSpace page.page_number record.length page.getFreeSpace)) := by
  unfold insertRecord
  rw [if_pos (by simpa using hspace)]

private theorem acceptsIfSpace_iff :
    page.AcceptsIfSpace record ↔ (page.hasSpaceForRecord record = true → page.SlotAvailable) := by
  unfold AcceptsIfSpace
  rw [insertRecord_ok_iff]
  by_cases hspace : page.hasSpaceForRecord record = true
  · constructor
    · rintro ⟨hiff, -⟩ -
      exact (hiff.mpr hspace).2
    · intro havailable
      refine ⟨⟨And.left, fun h => ⟨h, havailable h⟩⟩, fun page' e herror => ?_⟩
      obtain ⟨page'', record_id, hok⟩ := insertRecord_ok_iff.mpr ⟨hspace, havailable hspace⟩
      rw [hok] at herror
      exact absurd (congrArg Prod.snd herror) (by simp)
  · refine ⟨fun _ h => absurd h hspace, fun _ => ⟨⟨And.left, fun h => absurd h hspace⟩, fun page' e herror => ?_⟩⟩
    rw [insertRecord_noSpace hspace] at herror
    obtain ⟨rfl, he⟩ := Prod.mk.inj herror
    exact ⟨rfl, (Except.error.inj he).symm⟩

/-- On a page in order the header is right about the unused slots. -/
theorem Valid.slotAvailable_iff (h : page.Valid) :
    page.SlotAvailable ↔ (page.header.num_free_slots = 0 → page.data (6 * page.header.num_slots) = 0) := by
  unfold SlotAvailable
  by_cases hfree : page.header.num_free_slots > 0
  · have hcount : 0 < page.unusedSlots := by
      rw [← h.free_eq]
      exact hfree
    obtain ⟨i, hi, hunused⟩ := List.countP_pos_iff.mp hcount
    rw [List.mem_range'_1] at hi
    rw [if_pos hfree]
    exact ⟨fun _ hzero => absurd hzero (Nat.ne_of_gt hfree), fun _ => ⟨i, hi.1, by omega, by simpa using hunused⟩⟩
  · have hzero : page.header.num_free_slots = 0 := Nat.eq_zero_of_not_pos hfree
    have hslots := h.num_slots_le
    have hu16 : u16 (page.header.num_slots + 1) = page.header.num_slots + 1 := by
      unfold u16
      omega
    have hslot : getSlot (page.header.num_slots + 1) = 6 * page.header.num_slots := by
      unfold getSlot pageSlotSize
      omega
    rw [if_neg hfree, hu16, used_eq (Nat.le_add_left 1 _), hslot]
    simp [hzero]

/-- A page takes a record exactly when it says that it has space for it if the slot that the record gets is there and
not marked as used.  After calls that keep the page in order, only a new slot can be marked. -/
theorem insertRecord_accepts_iff (page : Page) (record : List UInt8) :
    (page.AcceptsIfSpace record ↔ (page.hasSpaceForRecord record = true → page.SlotAvailable)) ∧
    ∀ (number : PageId) (live : RecordMap), PageRun number (fun page call => call.Safe page) page live →
      (page.AcceptsIfSpace record ↔ (page.hasSpaceForRecord record = true →
        page.header.num_free_slots = 0 → page.data (6 * page.header.num_slots) = 0)) := by
  refine ⟨acceptsIfSpace_iff, fun number live hrun => ?_⟩
  rw [acceptsIfSpace_iff]
  exact imp_congr_right fun _ => (holds_of_run hrun).valid.slotAvailable_iff

theorem insertRecord_accepts_one : (runCalls sampleCalls).1.AcceptsIfSpace [97] ∧
    (runCalls (sampleCalls ++ [.insertRecord [109]])).1.AcceptsIfSpace [97] := by
  constructor
  · have hdeleted : (runCalls sampleCalls).1.SlotAvailable := by
      rw [SlotAvailable, if_pos (by decide +kernel)]
      exact ⟨3, by decide +kernel⟩
    exact (insertRecord_accepts_iff _ [97]).1.mpr fun _ => hdeleted
  · -- all slots are used
    have hrun : PageRun 0 (fun page call => call.Safe page) (runCalls (sampleCalls ++ [.insertRecord [109]])).1
        (runCalls (sampleCalls ++ [.insertRecord [109]])).2 := pageRun_runCalls _ (by decide +kernel)
    exact ((insertRecord_accepts_iff _ [97]).2 0 _ hrun).mpr fun _ _ => by decide +kernel

/-! ### A slot array that grows onto old bytes -/

section OldBytes

/-- A delete in the middle of the slot array, by its steps. -/
private theorem deleteRecord_of_moved {moved : Page} {record_id : RecordId}
    (hpage : record_id.page_number = page.page_number) (hused : page.used record_id.slot_number = true)
    (hslot : 1 ≤ record_id.slot_number)
    (hbehind : page.item_length record_id.slot_number = 0 ∨
      6 * record_id.slot_number ≤ page.item_offset record_id.slot_number)
    (hmove : ((page.erased record_id.slot_number).shiftSlots record_id.slot_number).1.moveData record_id.slot_number
      ((page.erased record_id.slot_number).shiftSlots record_id.slot_number).2.1
      ((page.erased record_id.slot_number).shiftSlots record_id.slot_number).2.2 = .ok moved)
    (hlast : record_id.slot_number ≠ (moved.releaseSlot record_id.slot_number).header.num_slots) :
    page.deleteRecord record_id = (moved.releaseSlot record_id.slot_number, .ok ()) := by
  have hloop := writeBytes_slot page (fun _ => 0) hslot hbehind
  unfold deleteRecord deleteRecordWith
  rw [validateRecordId_ok hpage hused]
  simp only [hloop]
  rw [← erased, hmove]
  simp only [hlast, and_false, if_false]

private theorem eq_ok_getD {ε α : Type} {x : Except ε α} (d : α) (h : x.toOption.isSome = true) :
    x = .ok (x.toOption.getD d) := by
  cases x with
  | error e => exact absurd h (by simp [Except.toOption])
  | ok a => rfl

private theorem eq_ok_of_toOption {α : Type} {x : Page × Except PageError α} {a : α} (h : x.2.toOption = some a) :
    x = (x.1, .ok a) := by
  obtain ⟨page, e | b⟩ := x
  · exact absurd h (by simp [Except.toOption])
  · exact congrArg (fun c => (page, Except.ok c)) (Option.some.inj h)

variable {number : PageId} {page' : Page} {live : RecordMap}

private theorem run_insert (h : PageRun number (fun _ _ => True) page live) {record_id : RecordId}
    (heq : page.insertRecord record = (page', .ok record_id)) :
    PageRun number (fun _ _ => True) page' (Function.update live record_id.slot_number (some record)) := by
  have hcall := PageRun.call (.insertRecord record) h trivial trivial
  simp only [PageCall.run, heq] at hcall
  exact hcall

private theorem run_delete (h : PageRun number (fun _ _ => True) page live) {record_id : RecordId}
    (hnames : (PageCall.deleteRecord record_id).Names number live)
    (heq : page.deleteRecord record_id = (page', .ok ())) :
    PageRun number (fun _ _ => True) page' (Function.update live record_id.slot_number none) := by
  have hcall := PageRun.call (.deleteRecord record_id) h hnames trivial
  simp only [PageCall.run, heq] at hcall
  exact hcall

/-- A record that fills a fresh page but for thirteen bytes. -/
def largeRecord : List UInt8 := List.replicate 8163 0

/-- A fresh page with a slot for the large record. -/
private def largeClaimed : Page :=
  { header := { free_space_lower_bound := 6, free_space_upper_bound := 13, num_slots := 1, num_free_slots := 0,
                current_page_number := 0, next_page_number := 0 }
    data := (((blankMemory.initializePage.setUsed 1 true).setLength 1 8163).setOffset 1 13).data }

/-- A fresh page with the large record. -/
private def largeInserted : Page := largeClaimed.overwrite 13 8163 (largeRecord.getD · 0)

private theorem insert_large : blankMemory.initializePage.insertRecord largeRecord =
    (largeInserted, .ok { page_number := 0, slot_number := 1, padding := 0 }) := by
  have hlen : largeRecord.length = 8163 := List.length_replicate ..
  have hoffset : largeClaimed.item_offset 1 = 13 := by decide +kernel
  have hlength : largeClaimed.item_length 1 = 8163 := by decide +kernel
  have hloop := writeBytes_slot largeClaimed (largeRecord.getD · 0) (Nat.le_refl 1) (by rw [hoffset]; decide)
  rw [hoffset, hlength] at hloop
  have hspace : blankMemory.initializePage.hasSpaceForRecord largeRecord = true := by
    unfold hasSpaceForRecord
    rw [hlen]
    decide +kernel
  obtain ⟨page, hpage⟩ : ∃ page : Page, page = { blankMemory.initializePage with header :=
    { free_space_lower_bound := 6, free_space_upper_bound := 8176, num_slots := 1, num_free_slots := 1,
      current_page_number := 0, next_page_number := 0 } } := ⟨_, rfl⟩
  have hslot : blankMemory.initializePage.getAvailableSlot = (page, .ok 1) := by
    rw [hpage]
    rfl
  have hinsert : page.insertRecordInSlot 1 largeRecord = (largeInserted, .ok ()) := by
    unfold insertRecordInSlot
    rw [if_neg (by rw [hpage]; decide), if_neg (by rw [hpage]; decide +kernel), largeInserted, ← hloop, hpage]
    simp only [hlen]
    rfl
  unfold insertRecord
  rw [if_neg (by simp [hspace]), hslot]
  simp only [hinsert]
  rfl

/-- A record of one byte has been inserted behind it. -/
private def smallInserted : Page := (largeInserted.insertRecord [1]).1

/-- The move of the small record in the delete of the large one. -/
private def moveSmall : Except PageError Page :=
  ((smallInserted.erased 1).shiftSlots 1).1.moveData 1 ((smallInserted.erased 1).shiftSlots 1).2.1
    ((smallInserted.erased 1).shiftSlots 1).2.2

/-- The large record has been deleted. -/
private def largeDeleted : Page := (moveSmall.toOption.getD smallInserted).releaseSlot 1

private theorem delete_large : smallInserted.deleteRecord { page_number := 0, slot_number := 1, padding := 0 } =
    (largeDeleted, .ok ()) := by
  have hnumber : 0 = smallInserted.page_number := by decide +kernel
  have hused : smallInserted.used 1 = true := by decide +kernel
  have hbehind : smallInserted.item_length 1 = 0 ∨ 6 * 1 ≤ smallInserted.item_offset 1 := by decide +kernel
  have hmove : moveSmall = .ok (moveSmall.toOption.getD smallInserted) := eq_ok_getD _ (by decide +kernel)
  have hlast : 1 ≠ ((moveSmall.toOption.getD smallInserted).releaseSlot 1).header.num_slots := by decide +kernel
  exact deleteRecord_of_moved hnumber hused (Nat.le_refl 1) hbehind hmove hlast

/-- The hole is used again. -/
private def holeFilled : Page := (largeDeleted.insertRecord [0]).1

/-- Insert a record of 8163 bytes and the byte 1; delete the large record; insert a byte.  The byte 1 was moved to the
end, but is still there at its old place, where the next slot gets its used mark. -/
theorem insertRecord_refuses : ¬ ∀ (page : Page) (live : RecordMap), PageRun 0 (fun _ _ => True) page live →
    ∀ record : List UInt8, page.AcceptsIfSpace record := by
  intro hall
  have h₀ : PageRun 0 (fun _ _ => True) blankMemory.initializePage (fun _ => none) := .fresh blankMemory
  have h₁ := run_insert h₀ insert_large
  have hsmall : (largeInserted.insertRecord [1]).2.toOption = some { page_number := 0, slot_number := 2, padding := 0 } := by
    decide +kernel
  have h₂ := run_insert h₁ (eq_ok_of_toOption hsmall)
  have h₃ := run_delete h₂ ⟨rfl, by simp [Function.update]⟩ delete_large
  have hhole : (largeDeleted.insertRecord [0]).2.toOption = some { page_number := 0, slot_number := 1, padding := 0 } := by
    decide +kernel
  have h₄ := run_insert h₃ (eq_ok_of_toOption hhole)
  have hspace : holeFilled.hasSpaceForRecord [0] = true := by decide +kernel
  obtain ⟨page', record_id, hok⟩ := (hall holeFilled _ h₄ [0]).1.mpr hspace
  have hthrows : (holeFilled.insertRecord [0]).2.toOption = none := by decide +kernel
  rw [hok] at hthrows
  exact absurd hthrows (by simp [Except.toOption])

end OldBytes

/-! ### Record ids -/

/-- `getRecord`, `updateRecord` and `deleteRecord` throw `InvalidRecordException` and leave the page as it is. -/
def Rejects (page : Page) (record_id : RecordId) : Prop :=
  page.getRecord record_id = .error (.invalidRecord record_id page.page_number) ∧
    (∀ record, page.updateRecord record_id record = (page, .error (.invalidRecord record_id page.page_number))) ∧
    page.deleteRecord record_id = (page, .error (.invalidRecord record_id page.page_number))

private theorem validateRecordId_error_iff {record_id : RecordId} :
    page.validateRecordId record_id = .error (.invalidRecord record_id page.page_number) ↔
      record_id.page_number ≠ page.page_number ∨ page.used record_id.slot_number = false := by
  unfold validateRecordId
  by_cases hpage : record_id.page_number = page.page_number
  · by_cases hused : page.used record_id.slot_number = true
    · simp [hpage, hused]
    · simp [hpage, hused]
  · simp [hpage]

private theorem rejects_iff_validate {record_id : RecordId} : page.Rejects record_id ↔
    page.validateRecordId record_id = .error (.invalidRecord record_id page.page_number) := by
  constructor
  · rintro ⟨hget, -, -⟩
    unfold getRecord at hget
    rcases hvalidate : page.validateRecordId record_id with e | _
    · simp only [hvalidate] at hget
      exact congrArg Except.error (Except.error.inj hget)
    · simp only [hvalidate, substrData] at hget
      split at hget
      · exact absurd hget (by simp)
      · exact absurd hget (by simp)
  · intro hvalidate
    refine ⟨?_, fun record => ?_, ?_⟩
    · unfold getRecord
      rw [hvalidate]
    · unfold updateRecord
      rw [hvalidate]
    · unfold deleteRecord deleteRecordWith
      rw [hvalidate]

/-- On a page in order that does not hold a record under this id, only the end of the header and the bytes behind the slot
array can be taken for a used mark. -/
private theorem Holds.rejected_iff {number : PageId} {live : RecordMap} (h : page.Holds number live) {record_id : RecordId}
    (hnot : ¬ (record_id.page_number = number ∧ live record_id.slot_number ≠ none)) :
    page.Rejects record_id ↔ (record_id.page_number = number →
      (record_id.slot_number = INVALID_SLOT → number / 2 ^ 16 % 2 ^ 8 = 0) ∧
      (page.header.num_slots < record_id.slot_number → page.data (6 * (record_id.slot_number - 1)) = 0)) := by
  rw [rejects_iff_validate, validateRecordId_error_iff, h.number_eq, ← imp_iff_not_or]
  refine imp_congr_right fun hpage => ?_
  by_cases hzero : record_id.slot_number = INVALID_SLOT
  · have hused : page.used record_id.slot_number = (number / 2 ^ 16 % 2 ^ 8 != 0) := by
      rw [hzero, ← h.number_eq]
      rfl
    rw [hused]
    simp [hzero]
  · have hpos : 1 ≤ record_id.slot_number := Nat.pos_of_ne_zero hzero
    have hslot : getSlot record_id.slot_number = 6 * (record_id.slot_number - 1) := Nat.mul_comm _ _
    by_cases hbehind : page.header.num_slots < record_id.slot_number
    · rw [used_eq hpos, hslot]
      simp [hzero, hbehind]
    · have hunused : page.used record_id.slot_number = false := by
        by_contra hused
        apply hnot
        refine ⟨hpage, ?_⟩
        have hstored : page.Stored record_id.slot_number := ⟨hpos, Nat.le_of_not_lt hbehind, by simpa using hused⟩
        rw [← h.contents_eq]
        unfold contents
        rw [if_pos hstored]
        exact Option.some_ne_none _
      simp [hzero, hbehind, hunused]

/-- The record ids of the page that are not live are rejected where the used mark is zero.  After calls that keep the page
in order, this does not go wrong in the slot array. -/
theorem rejects_iff (page : Page) (record_id : RecordId) :
    (page.Rejects record_id ↔
      (record_id.page_number = page.page_number → page.used record_id.slot_number = false)) ∧
    ∀ (number : PageId) (live : RecordMap), PageRun number (fun page call => call.Safe page) page live →
      ¬ (record_id.page_number = number ∧ live record_id.slot_number ≠ none) →
        (page.Rejects record_id ↔ (record_id.page_number = number →
          (record_id.slot_number = INVALID_SLOT → number / 2 ^ 16 % 2 ^ 8 = 0) ∧
          (page.header.num_slots < record_id.slot_number → page.data (6 * (record_id.slot_number - 1)) = 0))) := by
  constructor
  · rw [rejects_iff_validate, validateRecordId_error_iff, imp_iff_not_or]
  · intro number live hrun hnot
    exact (holds_of_run hrun).rejected_iff hnot

theorem rejects_other_page :
    (runCalls sampleCalls).1.Rejects { page_number := 1, slot_number := 1, padding := 0 } ∧
      (runCalls sampleCalls).1.Rejects { page_number := 0, slot_number := 3, padding := 0 } ∧
      (runCalls sampleCalls).1.Rejects { page_number := 0, slot_number := 5, padding := 0 } := by
  refine ⟨(rejects_iff _ _).1.mpr fun hpage => absurd hpage (by decide +kernel), ?_, ?_⟩
  · exact ((rejects_iff _ _).2 0 _ pageRun_sample (by decide +kernel)).mpr (by decide +kernel)
  · exact ((rejects_iff _ _).2 0 _ pageRun_sample (by decide +kernel)).mpr (by decide +kernel)

/-- A record of six bytes lies where the slot 1363 would be. -/
theorem getRecord_accepts_bytes : ¬ ∀ (page : Page) (live : RecordMap), PageRun 0 (fun _ _ => True) page live →
    ∀ record_id : RecordId, ¬ (record_id.page_number = 0 ∧ live record_id.slot_number ≠ none) →
      page.Rejects record_id := by
  intro hall
  have h₀ : PageRun 0 (fun _ _ => True) blankMemory.initializePage (fun _ => none) := .fresh blankMemory
  have hinsert : (blankMemory.initializePage.insertRecord [1, 1, 1, 1, 1, 1]).2.toOption =
      some { page_number := 0, slot_number := 1, padding := 0 } := by decide +kernel
  have h₁ := run_insert h₀ (eq_ok_of_toOption hinsert)
  have hrejects := hall _ _ h₁ { page_number := 0, slot_number := 1363, padding := 0 } (by simp [Function.update])
  have hget := congrArg Except.toOption hrejects.1
  revert hget
  decide +kernel

end Page

end Cs564
