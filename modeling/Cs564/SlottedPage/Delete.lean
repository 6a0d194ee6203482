import Cs564.Lib.Arrays
import Cs564.SlottedPage.Compaction
/-!
# Deleting and updating records

After the hole is closed, `deleteRecord` gives up the slot, and the slot array is shortened when the slot was its last
one.  With `Page.Movable` a delete removes one record and an update replaces one, and no other record changes
(`deleteRecord_spec`, `updateRecord_spec`).
-/

namespace Cs564

namespace Page

/-! ### Giving up the slot -/

section Release

variable {page page' : Page} {s i : Nat}

private theorem releaseSlot_slot (page' : Page) (hs : 1 ≤ s) (hi : 1 ≤ i) (his : i ≠ s) :
    (page'.releaseSlot s).used i = page'.used i ∧ (page'.releaseSlot s).item_offset i = page'.item_offset i ∧
      (page'.releaseSlot s).item_length i = page'.item_length i := by
  apply slot_congr hi
  intro q hq hq'
  have hapart := getSlot_apart hi hs his
  unfold releaseSlot
  rw [setLength_data (by omega), setOffset_data (by omega), setUsed_data (by omega)]

private theorem releaseSlot_used (page' : Page) (hs : 1 ≤ s) : (page'.releaseSlot s).used s = false := by
  obtain ⟨p, hp⟩ : ∃ p : Page, p = ((page'.setUsed s false).setOffset s 0).setLength s 0 := ⟨_, rfl⟩
  have hdata : (page'.releaseSlot s).data = p.data := by
    rw [hp]
    rfl
  rw [(slot_congr hs fun q _ _ => congrFun hdata q).1, hp, used_setLength hs, used_setOffset hs, used_setUsed hs]

private theorem releaseSlot_data (hs : 1 ≤ s) {q : Nat} (hq : 6 * s ≤ q) :
    (page'.releaseSlot s).data q = page'.data q := by
  have hslot := getSlot_add hs
  unfold releaseSlot
  rw [setLength_data (by omega), setOffset_data (by omega), setUsed_data (by omega)]

private theorem releaseSlot_header (h : page.Valid) (hs : page.Stored s) (hc : page.Closed page' s) :
    (page'.releaseSlot s).header = { page.header with
      free_space_upper_bound := page.header.free_space_upper_bound + page.item_length s
      num_free_slots := page.header.num_free_slots + 1 } := by
  have hupper : page.header.free_space_upper_bound + page.item_length s ≤ 8176 := by
    by_cases hpos : 0 < page.item_length s
    · have hbounds := h.tiles.bounds hs hpos
      have hend := h.end_le hs
      omega
    · have hle := h.upper_le
      omega
  have hfree := h.free_le
  have hslots := h.num_slots_le
  have hupper' : u16 (page.header.free_space_upper_bound + page.item_length s) =
      page.header.free_space_upper_bound + page.item_length s := by
    unfold u16
    omega
  have hfree' : u16 (page.header.num_free_slots + 1) = page.header.num_free_slots + 1 := by
    unfold u16
    omega
  unfold releaseSlot
  simp only [setUsed_header, setOffset_header, setLength_header, hc.header_eq, hc.length_eq s hs.1 hs.2.1, hupper',
    hfree']

private theorem releaseSlot_stored (h : page.Valid) (hs : page.Stored s) (hc : page.Closed page' s) :
    (page'.releaseSlot s).Stored i ↔ page.Stored i ∧ i ≠ s := by
  have hnum : (page'.releaseSlot s).header.num_slots = page.header.num_slots := by rw [releaseSlot_header h hs hc]
  unfold Stored
  rw [hnum]
  by_cases his : i = s
  · subst his
    simp [releaseSlot_used page' hs.1]
  · constructor
    · rintro ⟨hi, hi', hu⟩
      rw [(releaseSlot_slot page' hs.1 hi his).1, hc.used_eq i hi hi'] at hu
      exact ⟨⟨hi, hi', hu⟩, his⟩
    · rintro ⟨⟨hi, hi', hu⟩, -⟩
      rw [(releaseSlot_slot page' hs.1 hi his).1, hc.used_eq i hi hi']
      exact ⟨hi, hi', hu⟩

private theorem releaseSlot_valid (h : page.Valid) (hs : page.Stored s) (hc : page.Closed page' s) :
    (page'.releaseSlot s).Valid := by
  have hheader := releaseSlot_header h hs hc
  have hstored : ∀ i, (page'.releaseSlot s).Stored i ↔ page.Stored i ∧ i ≠ s := fun i => releaseSlot_stored h hs hc
  have hend := h.end_le hs
  have hoff : ∀ i, (page'.releaseSlot s).Stored i → (page'.releaseSlot s).item_offset i =
      if page.item_offset i < page.item_offset s then page.item_offset i + page.item_length s
      else page.item_offset i := by
    intro i hi
    obtain ⟨hi, his⟩ := (hstored i).mp hi
    rw [(releaseSlot_slot page' hs.1 hi.1 his).2.1, hc.offset_eq i hi.1 hi.2.1]
    unfold Before
    simp only [hi.2.2, true_and]
  have hlen : ∀ i, (page'.releaseSlot s).Stored i → (page'.releaseSlot s).item_length i = page.item_length i := by
    intro i hi
    obtain ⟨hi, his⟩ := (hstored i).mp hi
    rw [(releaseSlot_slot page' hs.1 hi.1 his).2.2, hc.length_eq i hi.1 hi.2.1]
  constructor
  · rw [hheader]
    exact h.lower_eq
  · rw [hheader]
    exact Nat.le_trans h.lower_le (Nat.le_add_right _ _)
  · have hcount : (page'.releaseSlot s).unusedSlots = page.unusedSlots + 1 := by
      unfold unusedSlots
      have hnum : (page'.releaseSlot s).header.num_slots = page.header.num_slots := by rw [hheader]
      have hnodup : (List.range' 1 page.header.num_slots).Nodup := List.nodup_range'
      have hslots := hs.2.1
      rw [hnum]
      apply countP_flip hnodup (List.mem_range'_1.mpr ⟨hs.1, by omega⟩)
      · simp [hs.2.2]
      · simp [releaseSlot_used page' hs.1]
      · intro b hb hbs
        rw [List.mem_range'_1] at hb
        rw [(releaseSlot_slot page' hs.1 hb.1 hbs).1, hc.used_eq b hb.1 (by omega)]
    rw [hcount, hheader, ← h.free_eq]
  · intro i hi
    rw [hoff i hi, dataSize_eq]
    have hle : page.item_offset i ≤ 8176 := h.offset_le i ((hstored i).mp hi).1
    split <;> omega
  · rw [hheader]
    exact h.tiles.remove hs hstored hoff hlen

private theorem releaseSlot_contents (h : page.Valid) (hs : page.Stored s) (hc : page.Closed page' s) :
    (page'.releaseSlot s).contents = Function.update page.contents s none := by
  have hstored : ∀ i, (page'.releaseSlot s).Stored i ↔ page.Stored i ∧ i ≠ s := fun i => releaseSlot_stored h hs hc
  have hvalid := releaseSlot_valid h hs hc
  have hlower := h.lower_eq
  have hlower' := hvalid.lower_eq
  have hle := hvalid.lower_le
  have hheader := releaseSlot_header h hs hc
  funext i
  by_cases his : i = s
  · subst his
    rw [Function.update_self]
    unfold contents
    rw [if_neg fun hi => ((hstored i).mp hi).2 rfl]
  · rw [Function.update_of_ne his]
    unfold contents
    by_cases hi : page.Stored i
    · have hi' := (hstored i).mpr ⟨hi, his⟩
      obtain ⟨-, hoff, hlen⟩ := releaseSlot_slot page' hs.1 hi.1 his
      have hbytes : (page'.releaseSlot s).bytes i = page.bytes i := by
        have hlen' := hlen.trans (hc.length_eq i hi.1 hi.2.1)
        apply bytes_congr hlen'
        intro k hk
        have hin := hvalid.tiles.inside i ((page'.releaseSlot s).item_offset i + k) hi' ⟨by omega, by omega⟩
        have hnum : (page'.releaseSlot s).header.num_slots = page.header.num_slots := by rw [hheader]
        have hslots := hs.2.1
        rw [releaseSlot_data hs.1 (by omega), hoff]
        exact hc.bytes_eq i hi his k hk
      rw [if_pos hi, if_pos hi', hbytes]
    · rw [if_neg hi, if_neg fun hi' => hi ((hstored i).mp hi').1]

/-! ### Shortening the slot array -/

/-- The slots that are given up are unused. -/
private theorem numSlotsToDelete_spec (hlast : page.used page.header.num_slots = false)
    (hpos : 1 ≤ page.header.num_slots) : 1 ≤ page.numSlotsToDelete ∧ page.numSlotsToDelete ≤ page.header.num_slots ∧
      ∀ i, page.header.num_slots - page.numSlotsToDelete < i → i ≤ page.header.num_slots → page.used i = false := by
  unfold numSlotsToDelete
  refine ⟨by omega, ?_, ?_⟩
  · have hle := List.length_range' ▸ (List.takeWhile_sublist (l := List.range' 1 (page.header.num_slots - 1))
      fun i => !page.used (page.header.num_slots - i)).length_le
    exact Nat.le_trans (Nat.add_le_add_left hle 1) (by omega)
  · intro i hi hi'
    by_cases heq : i = page.header.num_slots
    · rw [heq, hlast]
    · have hlt : page.header.num_slots - i - 1 <
          ((List.range' 1 (page.header.num_slots - 1)).takeWhile fun i =>
            !page.used (page.header.num_slots - i)).length := by omega
      have hmem := getElem_of_lt_takeWhile (by rw [List.length_range']; omega) hlt
      rw [List.getElem_range'] at hmem
      have hidx : page.header.num_slots - (1 + 1 * (page.header.num_slots - i - 1)) = i := by omega
      rw [hidx] at hmem
      simpa using hmem

/-- In front of them is a used slot. -/
private theorem numSlotsToDelete_stop (hpos : 1 ≤ page.header.num_slots) :
    page.numSlotsToDelete = page.header.num_slots ∨
      page.used (page.header.num_slots - page.numSlotsToDelete) = true := by
  have hlen : (List.range' 1 (page.header.num_slots - 1)).length = page.header.num_slots - 1 := List.length_range'
  have hle := (List.takeWhile_sublist (l := List.range' 1 (page.header.num_slots - 1))
    fun i => !page.used (page.header.num_slots - i)).length_le
  unfold numSlotsToDelete
  by_cases hall : ((List.range' 1 (page.header.num_slots - 1)).takeWhile fun i =>
      !page.used (page.header.num_slots - i)).length = page.header.num_slots - 1
  · left
    omega
  · right
    have hstop := getElem_length_takeWhile (l := List.range' 1 (page.header.num_slots - 1))
      (p := fun i => !page.used (page.header.num_slots - i)) (Nat.lt_of_le_of_ne hle fun heq => hall (heq.trans hlen))
    rw [List.getElem_range', Nat.one_mul] at hstop
    simpa using hstop

/-- All slots that are given up are counted as unused. -/
private theorem unusedSlots_split (hlast : page.used page.header.num_slots = false) (hpos : 1 ≤ page.header.num_slots) :
    page.unusedSlots = (List.range' 1 (page.header.num_slots - page.numSlotsToDelete)).countP (fun i => !page.used i) +
      page.numSlotsToDelete := by
  obtain ⟨-, hle, hunused⟩ := numSlotsToDelete_spec hlast hpos
  obtain ⟨d, hd⟩ : ∃ d, d = page.numSlotsToDelete := ⟨_, rfl⟩
  rw [← hd] at hle hunused ⊢
  have hsplit : List.range' 1 page.header.num_slots =
      List.range' 1 (page.header.num_slots - d) ++ List.range' (1 + (page.header.num_slots - d)) d := by
    rw [List.range'_append_1, Nat.sub_add_cancel hle]
  have hall : (List.range' (1 + (page.header.num_slots - d)) d).countP (fun i => !page.used i) = d := by
    rw [List.countP_eq_length.mpr, List.length_range']
    intro i hi
    rw [List.mem_range'_1] at hi
    simp [hunused i (by omega) (by omega)]
  unfold unusedSlots
  rw [hsplit, List.countP_append, hall]

private theorem compactSlots_header (h : page.Valid) (hlast : page.used page.header.num_slots = false)
    (hpos : 1 ≤ page.header.num_slots) : page.compactSlots.header = { page.header with
      num_slots := page.header.num_slots - page.numSlotsToDelete
      num_free_slots := page.header.num_free_slots - page.numSlotsToDelete
      free_space_lower_bound := page.header.free_space_lower_bound - 6 * page.numSlotsToDelete } := by
  obtain ⟨-, hle, -⟩ := numSlotsToDelete_spec hlast hpos
  have hsplit := unusedSlots_split hlast hpos
  have hslots := h.num_slots_le
  have hlower := h.lower_eq
  have hfree := h.free_eq
  have hfreele := h.free_le
  have hnum : u16 (page.header.num_slots + 2 ^ 16 - page.numSlotsToDelete) =
      page.header.num_slots - page.numSlotsToDelete := by
    unfold u16
    omega
  have hnumfree : u16 (page.header.num_free_slots + 2 ^ 16 - page.numSlotsToDelete) =
      page.header.num_free_slots - page.numSlotsToDelete := by
    unfold u16
    omega
  have hnumlower : u16 (page.header.free_space_lower_bound + 2 ^ 16 - pageSlotSize * page.numSlotsToDelete) =
      page.header.free_space_lower_bound - 6 * page.numSlotsToDelete := by
    unfold u16 pageSlotSize
    omega
  unfold compactSlots
  simp only [hnum, hnumfree, hnumlower]

private theorem data_with_header (page : Page) (header : PageHeader) : { page with header := header }.data = page.data := rfl

private theorem compactSlots_data : page.compactSlots.data = page.data := by
  unfold compactSlots
  exact data_with_header page _

private theorem compactSlots_used (hi : 1 ≤ i) : page.compactSlots.used i = page.used i := by
  rw [used_eq hi, used_eq hi, compactSlots_data]

private theorem compactSlots_offset : page.compactSlots.item_offset = page.item_offset := by
  unfold item_offset
  rw [compactSlots_data]

private theorem compactSlots_length : page.compactSlots.item_length = page.item_length := by
  unfold item_length
  rw [compactSlots_data]

private theorem compactSlots_stored (h : page.Valid) (hlast : page.used page.header.num_slots = false)
    (hpos : 1 ≤ page.header.num_slots) (i : Nat) : page.compactSlots.Stored i ↔ page.Stored i := by
  obtain ⟨-, -, hunused⟩ := numSlotsToDelete_spec hlast hpos
  unfold Stored
  rw [compactSlots_header h hlast hpos]
  constructor
  · rintro ⟨hi, hi', hu⟩
    rw [compactSlots_used hi] at hu
    exact ⟨hi, Nat.le_trans hi' (Nat.sub_le _ _), hu⟩
  · rintro ⟨hi, hi', hu⟩
    refine ⟨hi, ?_, by rw [compactSlots_used hi, hu]⟩
    by_contra hnot
    have hlt : ¬ i ≤ page.header.num_slots - page.numSlotsToDelete := hnot
    have hu' := hunused i (by omega) hi'
    rw [hu] at hu'
    exact absurd hu' (by simp)

private theorem compactSlots_valid (h : page.Valid) (hlast : page.used page.header.num_slots = false)
    (hpos : 1 ≤ page.header.num_slots) : page.compactSlots.Valid := by
  have hheader := compactSlots_header h hlast hpos
  have hstored := compactSlots_stored h hlast hpos
  have hlower := h.lower_eq
  have hlowerle := h.lower_le
  constructor
  · rw [hheader]
    change page.header.free_space_lower_bound - 6 * page.numSlotsToDelete =
      6 * (page.header.num_slots - page.numSlotsToDelete)
    omega
  · rw [hheader]
    change page.header.free_space_lower_bound - 6 * page.numSlotsToDelete ≤ page.header.free_space_upper_bound
    omega
  · have hcount : page.compactSlots.unusedSlots =
        (List.range' 1 (page.header.num_slots - page.numSlotsToDelete)).countP fun i => !page.used i := by
      unfold unusedSlots
      rw [hheader]
      apply List.countP_congr
      intro i hi
      rw [List.mem_range'_1] at hi
      rw [compactSlots_used hi.1]
    have hsplit := unusedSlots_split hlast hpos
    have hfree := h.free_eq
    rw [hcount, hheader]
    change page.header.num_free_slots - page.numSlotsToDelete = _
    omega
  · intro i hi
    rw [compactSlots_offset]
    exact h.offset_le i ((hstored i).mp hi)
  · have hsame : page.compactSlots.Stored = page.Stored := funext fun i => propext (hstored i)
    rw [hsame, hheader, compactSlots_offset, compactSlots_length]
    exact h.tiles

private theorem compactSlots_contents (h : page.Valid) (hlast : page.used page.header.num_slots = false)
    (hpos : 1 ≤ page.header.num_slots) : page.compactSlots.contents = page.contents := by
  funext i
  unfold contents
  by_cases hi : page.Stored i
  · have hbytes : page.compactSlots.bytes i = page.bytes i := by
      unfold bytes
      rw [compactSlots_length, compactSlots_offset, compactSlots_data]
    rw [if_pos hi, if_pos ((compactSlots_stored h hlast hpos i).mpr hi), hbytes]
  · rw [if_neg hi, if_neg (mt (compactSlots_stored h hlast hpos i).mp hi)]

/-- The slot array ends with a used slot. -/
private theorem compactSlots_last (h : page.Valid) (hlast : page.used page.header.num_slots = false)
    (hpos : 1 ≤ page.header.num_slots) :
    page.compactSlots.header.num_slots = 0 ∨ page.compactSlots.used page.compactSlots.header.num_slots = true := by
  obtain ⟨-, hle, -⟩ := numSlotsToDelete_spec hlast hpos
  have hnum : page.compactSlots.header.num_slots = page.header.num_slots - page.numSlotsToDelete := by
    rw [compactSlots_header h hlast hpos]
  rw [hnum]
  by_cases hall : page.numSlotsToDelete = page.header.num_slots
  · left
    omega
  · right
    have hfirst : 1 ≤ page.header.num_slots - page.numSlotsToDelete := by omega
    have hused := (numSlotsToDelete_stop hpos).resolve_left hall
    rw [compactSlots_used hfirst, hused]

/-! ### The calls -/

variable {record_id : RecordId}

/-- A delete without compaction of the slot array, as an update makes it. -/
theorem deleteRecordWith_false (h : page.Valid) (hpage : record_id.page_number = page.page_number)
    (hs : page.Stored record_id.slot_number) (hmov : page.Movable record_id.slot_number) :
    ∃ page', page.deleteRecordWith record_id false = (page', .ok ()) ∧ page'.Valid ∧
      page'.page_number = page.page_number ∧
      page'.contents = Function.update page.contents record_id.slot_number none ∧
      page'.used record_id.slot_number = false ∧ page'.header.num_slots = page.header.num_slots ∧
      page'.header.free_space_lower_bound = page.header.free_space_lower_bound ∧
      page'.header.free_space_upper_bound =
        page.header.free_space_upper_bound + page.item_length record_id.slot_number := by
  obtain ⟨page', hmove, hclosed⟩ := close_spec h hs hmov
  have hheader := releaseSlot_header h hs hclosed
  refine ⟨page'.releaseSlot record_id.slot_number, ?_, releaseSlot_valid h hs hclosed, ?_,
    releaseSlot_contents h hs hclosed, releaseSlot_used page' hs.1, by rw [hheader], by rw [hheader], by rw [hheader]⟩
  · unfold deleteRecordWith
    rw [validateRecordId_ok hpage hs.2.2]
    simp only [eraseRecord_eq h hs, hmove]
    rfl
  · unfold page_number
    rw [hheader]

/-- `deleteRecord` closes the hole, gives up the slot and shortens the slot array when this was its last one. -/
private theorem deleteRecord_eq (h : page.Valid) (hpage : record_id.page_number = page.page_number)
    (hs : page.Stored record_id.slot_number) (hmov : page.Movable record_id.slot_number) :
    ∃ page', page.Closed page' record_id.slot_number ∧ page.deleteRecord record_id =
      if record_id.slot_number = (page'.releaseSlot record_id.slot_number).header.num_slots then
        ((page'.releaseSlot record_id.slot_number).compactSlots, .ok ())
      else (page'.releaseSlot record_id.slot_number, .ok ()) := by
  obtain ⟨page', hmove, hclosed⟩ := close_spec h hs hmov
  refine ⟨page', hclosed, ?_⟩
  unfold deleteRecord deleteRecordWith
  rw [validateRecordId_ok hpage hs.2.2]
  simp only [eraseRecord_eq h hs, hmove, true_and]

/-- `deleteRecord` removes the record and keeps the others. -/
theorem deleteRecord_spec (h : page.Valid) (hpage : record_id.page_number = page.page_number)
    (hs : page.Stored record_id.slot_number) (hmov : page.Movable record_id.slot_number) :
    ∃ page', page.deleteRecord record_id = (page', .ok ()) ∧ page'.Valid ∧ page'.page_number = page.page_number ∧
      page'.contents = Function.update page.contents record_id.slot_number none := by
  obtain ⟨page', hclosed, hcall⟩ := deleteRecord_eq h hpage hs hmov
  have hheader := releaseSlot_header h hs hclosed
  have hvalid := releaseSlot_valid h hs hclosed
  have hcontents := releaseSlot_contents h hs hclosed
  have hnumber : (page'.releaseSlot record_id.slot_number).page_number = page.page_number := by
    unfold page_number
    rw [hheader]
  by_cases hend : record_id.slot_number = (page'.releaseSlot record_id.slot_number).header.num_slots
  · have hlast := releaseSlot_used page' hs.1
    have hnumber' : (page'.releaseSlot record_id.slot_number).compactSlots.page_number =
        (page'.releaseSlot record_id.slot_number).page_number := by
      unfold page_number
      rw [compactSlots_header hvalid (hend ▸ hlast) (hend ▸ hs.1)]
    have hcontents' := compactSlots_contents hvalid (hend ▸ hlast) (hend ▸ hs.1)
    exact ⟨_, hcall.trans (if_pos hend), compactSlots_valid hvalid (hend ▸ hlast) (hend ▸ hs.1),
      hnumber'.trans hnumber, hcontents'.trans hcontents⟩
  · exact ⟨_, hcall.trans (if_neg hend), hvalid, hnumber, hcontents⟩

/-- After the record in the last slot, the unused slots in front of it are gone too. -/
theorem deleteRecord_last (h : page.Valid) (hpage : record_id.page_number = page.page_number)
    (hs : page.Stored record_id.slot_number) (hmov : page.Movable record_id.slot_number)
    (hlast : record_id.slot_number = page.header.num_slots) :
    (page.deleteRecord record_id).1.header.num_slots = 0 ∨
      (page.deleteRecord record_id).1.used (page.deleteRecord record_id).1.header.num_slots = true := by
  obtain ⟨page', hclosed, hcall⟩ := deleteRecord_eq h hpage hs hmov
  have hheader := releaseSlot_header h hs hclosed
  have hend : record_id.slot_number = (page'.releaseSlot record_id.slot_number).header.num_slots := by
    rw [hheader, hlast]
  have hunused := releaseSlot_used page' hs.1
  rw [hcall, if_pos hend]
  exact compactSlots_last (releaseSlot_valid h hs hclosed) (hend ▸ hunused) (hend ▸ hs.1)

/-- `updateRecord` throws and leaves the page as it is, or replaces the record and keeps the others. -/
theorem updateRecord_spec (h : page.Valid) (hpage : record_id.page_number = page.page_number)
    (hs : page.Stored record_id.slot_number) (record : List UInt8)
    (hmov : record.length ≤ page.getFreeSpace + page.item_length record_id.slot_number →
      page.Movable record_id.slot_number) :
    (∃ e, page.updateRecord record_id record = (page, .error e)) ∨
      ∃ page', page.updateRecord record_id record = (page', .ok ()) ∧ page'.Valid ∧
        page'.page_number = page.page_number ∧
        page'.contents = Function.update page.contents record_id.slot_number (some record) := by
  by_cases hroom : record.length ≤ page.getFreeSpace + page.item_length record_id.slot_number
  · right
    obtain ⟨page₁, hdelete, hvalid, hnumber, hcontents, hused, hnum, hlower, hupper⟩ :=
      deleteRecordWith_false h hpage hs (hmov hroom)
    have hslot : record_id.slot_number ≤ page₁.header.num_slots := by
      rw [hnum]
      exact hs.2.1
    have hspace : record.length ≤ page₁.header.free_space_upper_bound - page₁.header.free_space_lower_bound := by
      have hle := h.lower_le
      rw [h.getFreeSpace_eq] at hroom
      rw [hlower, hupper]
      omega
    obtain ⟨page', hinsert, hfilled⟩ := insertRecordInSlot_filled hvalid hs.1 hslot hused hspace
    refine ⟨page', ?_, hfilled.valid hvalid hs.1 hslot hused hspace, hfilled.page_number_eq.trans hnumber, ?_⟩
    · unfold updateRecord
      rw [validateRecordId_ok hpage hs.2.2]
      simp only [if_neg (Nat.not_lt.mpr hroom), hdelete, hinsert]
    · rw [hfilled.contents hvalid hs.1 hslot, hcontents, Function.update_idem]
  · left
    unfold updateRecord
    rw [validateRecordId_ok hpage hs.2.2]
    simp only [if_pos (Nat.lt_of_not_le hroom)]
    exact ⟨_, rfl⟩

end Release

end Page

end Cs564
