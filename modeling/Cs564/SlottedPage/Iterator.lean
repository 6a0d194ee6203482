import Cs564.SlottedPage.Records

/-!
# Iterating over the records of a page

`PageIterator` (`page_iterator.h` of `p3`) as far as it looks at its page: the next used slot, and the record ids that
`begin` and `end` of a page start from.  From any slot on, advancing runs through the records behind it in order
(`recordsAfter_cases`).
-/

namespace Cs564.Page

variable (page : Page)

/-- `getNextUsedSlot`.  The slots of a page are fewer than `2 ^ 16 - 1`, so the loop counter does not wrap around. -/
def getNextUsedSlot (start : SlotId) : SlotId :=
  ((List.range' (start + 1) (page.header.num_slots - start)).find? page.used).getD INVALID_SLOT

/-- The `current_record_` at a slot. -/
def recordAt (slot_number : SlotId) : RecordId :=
  { page_number := page.page_number, slot_number := slot_number, padding := 0 }

/-- The used slots behind `start`. -/
def slotsAfter (start : SlotId) : List SlotId :=
  (List.range' (start + 1) (page.header.num_slots - start)).filter page.used

/-- The bytes of the record at a slot, as far as they lie in the page. -/
def recordBytes (slot_number : SlotId) : List UInt8 :=
  (List.range (min (page.item_length slot_number) (DATA_SIZE - page.item_offset slot_number))).map fun k =>
    page.data (page.item_offset slot_number + k)

/-- The records behind slot `start`, with their ids, in the order of their slots. -/
def recordsAfter (start : SlotId) : List (RecordId × List UInt8) :=
  (page.slotsAfter start).map fun i => (page.recordAt i, page.recordBytes i)

/-- No record begins behind the page. -/
def Readable : Prop := ∀ i, page.Stored i → page.item_offset i ≤ DATA_SIZE

variable {page} {start i : SlotId} {l : List SlotId}

theorem getNextUsedSlot_eq : page.getNextUsedSlot start = (page.slotsAfter start).head?.getD INVALID_SLOT := by
  unfold getNextUsedSlot slotsAfter
  rw [List.head?_filter]

/-- The elements behind the first one that a filter keeps. -/
private theorem filter_range'_tail {p : Nat → Bool} {s a : Nat} {l : List Nat} (n : Nat)
    (h : (List.range' a n).filter p = s :: l) : (List.range' (s + 1) (a + n - (s + 1))).filter p = l := by
  induction n generalizing a with
  | zero => simp at h
  | succ n ih =>
    rw [List.range'_succ] at h
    by_cases ha : p a = true
    · rw [List.filter_cons_of_pos ha] at h
      obtain ⟨rfl, rfl⟩ := List.cons.inj h
      have hcount : a + (n + 1) - (a + 1) = n := by omega
      rw [hcount]
    · rw [List.filter_cons_of_neg ha] at h
      have hcount : a + (n + 1) - (s + 1) = a + 1 + n - (s + 1) := by omega
      rw [hcount]
      exact ih h

/-- The slots behind the next used one. -/
theorem slotsAfter_tail (h : page.slotsAfter start = i :: l) : page.slotsAfter i = l := by
  have hmem : i ∈ page.slotsAfter start := by
    rw [h]
    exact List.mem_cons_self
  have hcount : ∀ n s k : Nat, s + 1 ≤ k → k < s + 1 + (n - s) → s + 1 + (n - s) - (k + 1) = n - k := by omega
  obtain ⟨hlow, hhigh⟩ := List.mem_range'_1.mp (List.mem_filter.mp hmem).1
  have htail := filter_range'_tail _ h
  rwa [hcount _ _ _ hlow hhigh] at htail

theorem stored_of_mem (hi : i ∈ page.slotsAfter start) : page.Stored i := by
  have hbounds : ∀ n s k : Nat, s + 1 ≤ k → k < s + 1 + (n - s) → 1 ≤ k ∧ k ≤ n := by omega
  obtain ⟨hrange, hused⟩ := List.mem_filter.mp hi
  obtain ⟨hlow, hhigh⟩ := List.mem_range'_1.mp hrange
  obtain ⟨hpos, hle⟩ := hbounds _ _ _ hlow hhigh
  exact ⟨hpos, hle, hused⟩

/-- An advance goes to the next record, or to the end if there is none. -/
theorem recordsAfter_cases (page : Page) (start : SlotId) :
    (page.getNextUsedSlot start = INVALID_SLOT ∧ page.recordsAfter start = []) ∨
      (page.Stored (page.getNextUsedSlot start) ∧ page.recordsAfter start =
        (page.recordAt (page.getNextUsedSlot start), page.recordBytes (page.getNextUsedSlot start)) ::
          page.recordsAfter (page.getNextUsedSlot start)) := by
  rw [getNextUsedSlot_eq, recordsAfter]
  cases h : page.slotsAfter start with
  | nil => exact .inl ⟨rfl, rfl⟩
  | cons i l =>
    have hstored : page.Stored i := stored_of_mem (h ▸ List.mem_cons_self)
    refine .inr ⟨hstored, ?_⟩
    simp [recordsAfter, slotsAfter_tail h]

/-- All records are behind slot 0. -/
theorem mem_slotsAfter_zero : i ∈ page.slotsAfter INVALID_SLOT ↔ page.Stored i := by
  have hbounds : ∀ n k : Nat, 0 + 1 ≤ k ∧ k < 0 + 1 + (n - 0) ↔ 1 ≤ k ∧ k ≤ n := by omega
  rw [slotsAfter, List.mem_filter, List.mem_range'_1, hbounds, Stored, and_assoc]

theorem slotsAfter_pairwise : (page.slotsAfter start).Pairwise (· < ·) := by
  apply List.Pairwise.filter
  exact List.pairwise_lt_range'

theorem Valid.readable (h : page.Valid) : page.Readable := h.offset_le

/-- `getRecord` gives these bytes. -/
theorem Readable.getRecord_eq (h : page.Readable) (hi : page.Stored i) :
    page.getRecord (page.recordAt i) = .ok (page.recordBytes i) := by
  have hvalidate : page.validateRecordId (page.recordAt i) = .ok () := validateRecordId_ok rfl hi.2.2
  rw [getRecord, hvalidate]
  exact if_pos (h i hi)

/-- The records of a page are those that `getRecord` gives. -/
theorem Readable.mem_recordsAfter (h : page.Readable) {record_id : RecordId} {record : List UInt8} :
    (record_id, record) ∈ page.recordsAfter INVALID_SLOT ↔ record_id.page_number = page.page_number ∧
      record_id.padding = 0 ∧ page.Stored record_id.slot_number ∧ page.getRecord record_id = .ok record := by
  rw [recordsAfter, List.mem_map]
  constructor
  · rintro ⟨i, hi, heq⟩
    obtain ⟨rfl, rfl⟩ := Prod.mk.inj heq
    have hstored := mem_slotsAfter_zero.mp hi
    exact ⟨rfl, rfl, hstored, h.getRecord_eq hstored⟩
  · intro hrecord
    obtain ⟨hnumber, hpadding, hstored, hget⟩ := hrecord
    have hid : page.recordAt record_id.slot_number = record_id := by
      rw [recordAt, ← hnumber, ← hpadding]
    have hbytes := h.getRecord_eq hstored
    rw [hid, hget] at hbytes
    exact ⟨record_id.slot_number, mem_slotsAfter_zero.mpr hstored, Prod.ext hid (Except.ok.inj hbytes).symm⟩

/-- No record comes twice. -/
theorem recordsAfter_nodup : ((page.recordsAfter start).map Prod.fst).Nodup := by
  rw [recordsAfter, List.map_map]
  refine List.Nodup.map ?_ (slotsAfter_pairwise.imp fun hlt => Nat.ne_of_lt hlt)
  intro i j h
  exact congrArg RecordId.slot_number h

end Cs564.Page
