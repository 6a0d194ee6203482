import Mathlib.Data.List.GetD
import Mathlib.Logic.Function.Basic
import Cs564.Lib.Tiling
import Cs564.SlottedPage.Slots
/-!
# The records of a page

The used slots of a page hold records (`Page.Stored`, `Page.contents`).  On a page in order (`Page.Valid`) the
non-empty records tile the data from the upper bound of the free space to the end, and the header counts the slots;
then `getRecord` returns what a slot holds, and `insertRecord` adds one record and changes no other.
-/

namespace Cs564

/-- Counting after the predicate has become true at one more element. -/
theorem countP_flip {α : Type} {l : List α} {p p' : α → Bool} {a : α} (hl : l.Nodup) (ha : a ∈ l) (hp : p a = false)
    (hp' : p' a = true) (h : ∀ b ∈ l, b ≠ a → p' b = p b) : l.countP p' = l.countP p + 1 := by
  induction l with
  | nil => simp at ha
  | cons b l ih =>
    rw [List.nodup_cons] at hl
    rw [List.countP_cons, List.countP_cons]
    by_cases hb : b = a
    · subst hb
      have hrest : l.countP p' = l.countP p := by
        apply List.countP_congr
        intro c hc
        rw [h c (by simp [hc]) (ne_of_mem_of_not_mem hc hl.1)]
      simp [hrest, hp, hp']
    · have hmem : a ∈ l := by
        rcases List.mem_cons.mp ha with rfl | hmem
        · exact absurd rfl hb
        · exact hmem
      rw [ih hl.2 hmem fun c hc => h c (by simp [hc]), h b (by simp) hb]
      omega

theorem dataSize_eq : DATA_SIZE = 8176 := rfl

namespace Page

/-- The slot `i` holds a record. -/
def Stored (page : Page) (i : Nat) : Prop := 1 ≤ i ∧ i ≤ page.header.num_slots ∧ page.used i = true

instance (page : Page) (i : Nat) : Decidable (page.Stored i) := inferInstanceAs (Decidable (_ ∧ _ ∧ _))

/-- The bytes a slot refers to. -/
def bytes (page : Page) (i : Nat) : List UInt8 :=
  (List.range (page.item_length i)).map fun k => page.data (page.item_offset i + k)

/-- The records of the page by slot. -/
def contents (page : Page) (i : Nat) : Option (List UInt8) := if page.Stored i then some (page.bytes i) else none

/-- The number of unused slots in the slot array. -/
def unusedSlots (page : Page) : Nat := (List.range' 1 page.header.num_slots).countP fun i => !page.used i

/-- A page in order. -/
structure Valid (page : Page) : Prop where
  lower_eq : page.header.free_space_lower_bound = 6 * page.header.num_slots
  lower_le : page.header.free_space_lower_bound ≤ page.header.free_space_upper_bound
  free_eq : page.header.num_free_slots = page.unusedSlots
  offset_le : ∀ i, page.Stored i → page.item_offset i ≤ DATA_SIZE
  tiles : Tiles page.Stored page.item_offset page.item_length page.header.free_space_upper_bound DATA_SIZE

section Valid

variable {page page' : Page} {i s : Nat}

theorem contents_eq_some {record : List UInt8} : page.contents i = some record ↔ page.Stored i ∧ page.bytes i = record := by
  unfold contents
  by_cases h : page.Stored i
  · simp [h]
  · simp [h]

theorem bytes_congr (hlen : page'.item_length i = page.item_length i)
    (h : ∀ k, k < page.item_length i → page'.data (page'.item_offset i + k) = page.data (page.item_offset i + k)) :
    page'.bytes i = page.bytes i := by
  unfold bytes
  rw [hlen]
  apply List.map_congr_left
  intro k hk
  exact h k (List.mem_range.mp hk)

theorem bytes_eq_of {record : List UInt8} (hlen : page.item_length i = record.length)
    (h : ∀ k, k < record.length → page.data (page.item_offset i + k) = record.getD k 0) : page.bytes i = record := by
  unfold bytes
  rw [hlen]
  apply List.ext_getElem
  · simp
  · intro k hk hk'
    rw [List.getElem_map, List.getElem_range, h k hk', List.getD_eq_getElem _ _ hk']

theorem Valid.upper_le (h : page.Valid) : page.header.free_space_upper_bound ≤ 8176 := h.tiles.le

theorem Valid.num_slots_le (h : page.Valid) : 6 * page.header.num_slots ≤ 8176 := by
  have hupper := h.upper_le
  have hlower := h.lower_eq
  have hle := h.lower_le
  omega

/-- A record ends before the end of the data. -/
theorem Valid.end_le (h : page.Valid) (hs : page.Stored s) : page.item_offset s + page.item_length s ≤ 8176 := by
  by_cases hpos : 0 < page.item_length s
  · exact (h.tiles.bounds hs hpos).2
  · have hoff : page.item_offset s ≤ 8176 := h.offset_le s hs
    omega

theorem Valid.getFreeSpace_eq (h : page.Valid) :
    page.getFreeSpace = page.header.free_space_upper_bound - page.header.free_space_lower_bound := by
  have hupper := h.upper_le
  have hle := h.lower_le
  unfold getFreeSpace u16
  omega

theorem validateRecordId_ok {record_id : RecordId} (hpage : record_id.page_number = page.page_number)
    (hused : page.used record_id.slot_number = true) : page.validateRecordId record_id = .ok () := by
  unfold validateRecordId
  rw [if_neg (by simp [hpage]), if_neg (by simp [hused])]

/-- `getRecord` returns the bytes of the slot. -/
theorem Valid.getRecord_eq (h : page.Valid) {record_id : RecordId} (hpage : record_id.page_number = page.page_number)
    (hs : page.Stored record_id.slot_number) : page.getRecord record_id = .ok (page.bytes record_id.slot_number) := by
  have hend := h.end_le hs
  have hoff := h.offset_le _ hs
  unfold getRecord
  rw [validateRecordId_ok hpage hs.2.2]
  unfold substrData bytes
  have hmin : min (page.item_length record_id.slot_number) (DATA_SIZE - page.item_offset record_id.slot_number) =
      page.item_length record_id.slot_number := by
    rw [dataSize_eq]
    omega
  simp only [if_pos hoff, hmin]

/-- An unused slot is counted. -/
theorem Valid.free_pos (h : page.Valid) (hs : 1 ≤ s) (hs' : s ≤ page.header.num_slots) (hused : page.used s = false) :
    0 < page.header.num_free_slots := by
  rw [h.free_eq]
  unfold unusedSlots
  rw [List.countP_pos_iff]
  exact ⟨s, by rw [List.mem_range'_1]; omega, by simp [hused]⟩

theorem Valid.free_le (h : page.Valid) : page.header.num_free_slots ≤ page.header.num_slots := by
  rw [h.free_eq]
  have hle := List.countP_le_length (l := List.range' 1 page.header.num_slots) (p := fun i => !page.used i)
  rw [List.length_range'] at hle
  exact hle

/-! ### Inserting a record -/

/-- A page whose unused slot `s` was filled with a record at the upper end of the free space. -/
structure Filled (page page' : Page) (s : Nat) (record : List UInt8) : Prop where
  lower_eq : page'.header.free_space_lower_bound = page.header.free_space_lower_bound
  num_slots_eq : page'.header.num_slots = page.header.num_slots
  page_number_eq : page'.page_number = page.page_number
  upper_eq : page'.header.free_space_upper_bound = page.header.free_space_upper_bound - record.length
  free_eq : page'.header.num_free_slots = page.header.num_free_slots - 1
  used_self : page'.used s = true
  offset_self : page'.item_offset s = page.header.free_space_upper_bound - record.length
  length_self : page'.item_length s = record.length
  other : ∀ i, 1 ≤ i → i ≤ page.header.num_slots → i ≠ s →
    page'.used i = page.used i ∧ page'.item_offset i = page.item_offset i ∧ page'.item_length i = page.item_length i
  above : ∀ q, page.header.free_space_upper_bound ≤ q → page'.data q = page.data q
  bytes_self : ∀ k, k < record.length →
    page'.data (page.header.free_space_upper_bound - record.length + k) = record.getD k 0

/-- The page after `insertRecordInSlot` has set the header and the slot, before it copies the record. -/
private def claimSlot (page : Page) (s n : Nat) : Page :=
  { header := { page.header with free_space_upper_bound := page.header.free_space_upper_bound - n
                                 num_free_slots := page.header.num_free_slots - 1 }
    data := (((page.setUsed s true).setLength s n).setOffset s (page.header.free_space_upper_bound - n)).data }

private theorem claimSlot_data {n q : Nat} (hq : q < getSlot s ∨ getSlot s + 6 ≤ q) :
    (page.claimSlot s n).data q = page.data q := by
  unfold claimSlot
  rw [setOffset_data hq, setLength_data hq, setUsed_data hq]

private theorem claimSlot_other {n : Nat} (hs : 1 ≤ s) (hi : 1 ≤ i) (his : i ≠ s) :
    (page.claimSlot s n).used i = page.used i ∧ (page.claimSlot s n).item_offset i = page.item_offset i ∧
      (page.claimSlot s n).item_length i = page.item_length i := by
  apply slot_congr hi
  intro q hq hq'
  have hapart := getSlot_apart hi hs his
  exact claimSlot_data (by omega)

private theorem claimSlot_self (page : Page) {n : Nat} (hs : 1 ≤ s) (hn : n < 2 ^ 16)
    (hupper : page.header.free_space_upper_bound < 2 ^ 16) :
    (page.claimSlot s n).used s = true ∧
      (page.claimSlot s n).item_offset s = page.header.free_space_upper_bound - n ∧
      (page.claimSlot s n).item_length s = n := by
  obtain ⟨p, hp⟩ : ∃ p : Page, p = ((page.setUsed s true).setLength s n).setOffset s
      (page.header.free_space_upper_bound - n) := ⟨_, rfl⟩
  have hdata : (page.claimSlot s n).data = p.data := by
    rw [hp]
    rfl
  have hsame := slot_congr hs fun q _ _ => congrFun hdata q
  rw [hsame.1, hsame.2.1, hsame.2.2, hp]
  refine ⟨?_, ?_, ?_⟩
  · rw [used_setOffset hs, used_setLength hs, used_setUsed hs]
  · exact item_offset_setOffset (by omega)
  · rw [item_length_setOffset, item_length_setLength hn]

private theorem insertRecordInSlot_eq (h : page.Valid) {record : List UInt8} (hs : 1 ≤ s)
    (hs' : s ≤ page.header.num_slots) (hused : page.used s = false)
    (hspace : record.length ≤ page.header.free_space_upper_bound - page.header.free_space_lower_bound) :
    page.insertRecordInSlot s record = ((page.claimSlot s record.length).overwrite
      (page.header.free_space_upper_bound - record.length) record.length (record.getD · 0), .ok ()) := by
  have hupper := h.upper_le
  have hlower := h.lower_eq
  have hle := h.lower_le
  have hfree := h.free_pos hs hs' hused
  have hfree' := h.free_le
  have hslots := h.num_slots_le
  have hlen : u16 record.length = record.length := by
    unfold u16
    omega
  have hoff : u16 (page.header.free_space_upper_bound + 2 ^ 16 - record.length % 2 ^ 16) =
      page.header.free_space_upper_bound - record.length := by
    unfold u16
    omega
  have hdec : u16 (page.header.num_free_slots + (2 ^ 16 - 1)) = page.header.num_free_slots - 1 := by
    unfold u16
    omega
  have hoffset : (((page.setUsed s true).setLength s record.length).setOffset s
      (page.header.free_space_upper_bound - record.length)).item_offset s =
        page.header.free_space_upper_bound - record.length := item_offset_setOffset (by omega)
  have hlen' : record.length < 2 ^ 16 := by omega
  have hself := claimSlot_self page hs hlen' (by omega)
  have hclaim : ({ (((page.setUsed s true).setLength s record.length).setOffset s
      (page.header.free_space_upper_bound - record.length)) with
        header := { page.header with free_space_upper_bound := page.header.free_space_upper_bound - record.length
                                     num_free_slots := page.header.num_free_slots - 1 } } : Page) =
      page.claimSlot s record.length := rfl
  have hvalid : ¬ (s > page.header.num_slots ∨ s = INVALID_SLOT) := by
    rintro (hgt | hzero)
    · exact Nat.not_lt.mpr hs' hgt
    · exact Nat.ne_of_gt hs hzero
  unfold insertRecordInSlot
  rw [if_neg hvalid, if_neg (by simp [hused])]
  simp only [hlen, setUsed_header, setLength_header, setOffset_header, hoff, hoffset, hdec, hclaim]
  rw [writeBytes_eq (n := record.length) (s := page.header.free_space_upper_bound - record.length) _ (by omega)]
  intro i hi
  have hbehind : i = 0 ∨ 6 * s ≤ page.header.free_space_upper_bound - record.length := Or.inr (by omega)
  have hview := slot_overwrite (page.claimSlot s record.length) (record.getD · 0) hs hbehind
  exact ⟨hview.2.2.trans hself.2.2, hview.2.1.trans hself.2.1⟩

/-- `insertRecordInSlot` fills an unused slot. -/
theorem insertRecordInSlot_filled (h : page.Valid) {record : List UInt8} (hs : 1 ≤ s)
    (hs' : s ≤ page.header.num_slots) (hused : page.used s = false)
    (hspace : record.length ≤ page.header.free_space_upper_bound - page.header.free_space_lower_bound) :
    ∃ page', page.insertRecordInSlot s record = (page', .ok ()) ∧ Filled page page' s record := by
  have hupper := h.upper_le
  have hlower := h.lower_eq
  have hle := h.lower_le
  have hbehind : ∀ i, i ≤ page.header.num_slots →
      record.length = 0 ∨ 6 * i ≤ page.header.free_space_upper_bound - record.length := fun i hi => Or.inr (by omega)
  have hview := fun i (hi : 1 ≤ i) hi' =>
    slot_overwrite (page.claimSlot s record.length) (record.getD · 0) hi (hbehind i hi')
  have hlen' : record.length < 2 ^ 16 := by omega
  have hself := claimSlot_self page hs hlen' (by omega)
  refine ⟨_, insertRecordInSlot_eq h hs hs' hused hspace, ?_⟩
  constructor
  · rfl
  · rfl
  · rfl
  · rfl
  · rfl
  · rw [(hview s hs hs').1, hself.1]
  · rw [(hview s hs hs').2.1, hself.2.1]
  · rw [(hview s hs hs').2.2, hself.2.2]
  · intro i hi hi' his
    rw [(hview i hi hi').1, (hview i hi hi').2.1, (hview i hi hi').2.2]
    exact claimSlot_other hs hi his
  · intro q hq
    have hslot := getSlot_add hs
    rw [overwrite_data_of (by omega), claimSlot_data (by omega)]
  · intro k hk
    exact overwrite_data hk

section Filled

variable {record : List UInt8}

private theorem Filled.stored (hf : Filled page page' s record) (hs : 1 ≤ s) (hs' : s ≤ page.header.num_slots) :
    page'.Stored i ↔ page.Stored i ∨ i = s := by
  unfold Stored
  rw [hf.num_slots_eq]
  by_cases his : i = s
  · subst his
    simp [hs, hs', hf.used_self]
  · constructor
    · rintro ⟨hi, hi', hused⟩
      rw [(hf.other i hi hi' his).1] at hused
      exact Or.inl ⟨hi, hi', hused⟩
    · rintro (⟨hi, hi', hused⟩ | heq)
      · rw [← (hf.other i hi hi' his).1] at hused
        exact ⟨hi, hi', hused⟩
      · exact absurd heq his

/-- Filling an unused slot keeps the page in order. -/
theorem Filled.valid (hf : Filled page page' s record) (h : page.Valid) (hs : 1 ≤ s)
    (hs' : s ≤ page.header.num_slots) (hused : page.used s = false)
    (hspace : record.length ≤ page.header.free_space_upper_bound - page.header.free_space_lower_bound) :
    page'.Valid := by
  have hle := h.lower_le
  have hupper := h.upper_le
  constructor
  · rw [hf.lower_eq, hf.num_slots_eq, h.lower_eq]
  · rw [hf.lower_eq, hf.upper_eq]
    omega
  · have hcount : page.unusedSlots = page'.unusedSlots + 1 := by
      unfold unusedSlots
      rw [hf.num_slots_eq]
      have hnodup : (List.range' 1 page.header.num_slots).Nodup := List.nodup_range'
      apply countP_flip hnodup (List.mem_range'_1.mpr ⟨hs, by omega⟩)
      · simp [hf.used_self]
      · simp [hused]
      · intro b hb hbs
        rw [List.mem_range'_1] at hb
        rw [(hf.other b hb.1 (by omega) hbs).1]
    rw [hf.free_eq, h.free_eq, hcount, Nat.add_sub_cancel]
  · intro i hi
    rw [hf.stored hs hs'] at hi
    rcases hi with hi | rfl
    · by_cases his : i = s
      · rw [his, hf.offset_self, dataSize_eq]
        omega
      · rw [(hf.other i hi.1 hi.2.1 his).2.1]
        exact h.offset_le i hi
    · rw [hf.offset_self, dataSize_eq]
      omega
  · rw [hf.upper_eq]
    have hnot : ¬ page.Stored s := by
      rintro ⟨-, -, hused'⟩
      rw [hused] at hused'
      exact absurd hused' (by simp)
    apply h.tiles.insert (by omega) hnot
    · intro i
      exact hf.stored hs hs'
    · intro i hi
      have his : i ≠ s := by
        rintro rfl
        exact hnot hi
      exact (hf.other i hi.1 hi.2.1 his).2
    · exact hf.offset_self
    · exact hf.length_self

/-- Filling an unused slot adds its record. -/
theorem Filled.contents (hf : Filled page page' s record) (h : page.Valid) (hs : 1 ≤ s)
    (hs' : s ≤ page.header.num_slots) : page'.contents = Function.update page.contents s (some record) := by
  funext i
  by_cases his : i = s
  · subst his
    rw [Function.update_self, contents_eq_some, hf.stored hs hs']
    refine ⟨Or.inr rfl, bytes_eq_of hf.length_self ?_⟩
    intro k hk
    rw [hf.offset_self]
    exact hf.bytes_self k hk
  · rw [Function.update_of_ne his]
    unfold Page.contents
    by_cases hi : page.Stored i
    · obtain ⟨-, hoff, hlen⟩ := hf.other i hi.1 hi.2.1 his
      have hbytes : page'.bytes i = page.bytes i := by
        apply bytes_congr hlen
        intro k hk
        have hin := h.tiles.inside i (page.item_offset i + k) hi ⟨by omega, by omega⟩
        rw [hoff, hf.above _ hin.1]
      rw [if_pos hi, if_pos ((hf.stored hs hs').mpr (Or.inl hi)), hbytes]
    · have hi' : ¬ page'.Stored i := by
        rw [hf.stored hs hs']
        rintro (hi' | heq)
        · exact hi hi'
        · exact his heq
      rw [if_neg hi, if_neg hi']

end Filled

/-- The page with one more slot, which is free. -/
private def withSlot (page : Page) : Page :=
  { page with header := { page.header with
      num_slots := page.header.num_slots + 1, num_free_slots := 1
      free_space_lower_bound := 6 * (page.header.num_slots + 1) } }

private theorem withSlot_used (page : Page) {i : Nat} (hi : 1 ≤ i) : page.withSlot.used i = page.used i := by
  rw [used_eq hi, used_eq hi]
  rfl

/-- The new slot holds no record. -/
private theorem withSlot_stored (hnew : page.used (page.header.num_slots + 1) = false) (i : Nat) :
    page.withSlot.Stored i ↔ page.Stored i := by
  have hnum : page.withSlot.header.num_slots = page.header.num_slots + 1 := rfl
  unfold Stored
  constructor
  · rintro ⟨hi, hi', hu⟩
    rw [withSlot_used page hi] at hu
    have hne : i ≠ page.header.num_slots + 1 := by
      rintro rfl
      rw [hnew] at hu
      exact absurd hu (by simp)
    exact ⟨hi, by omega, hu⟩
  · rintro ⟨hi, hi', hu⟩
    exact ⟨hi, by omega, by rw [withSlot_used page hi, hu]⟩

private theorem withSlot_unusedSlots (hnew : page.used (page.header.num_slots + 1) = false) :
    page.withSlot.unusedSlots = page.unusedSlots + 1 := by
  have hnum : page.withSlot.header.num_slots = page.header.num_slots + 1 := rfl
  have hold : (List.range' 1 page.header.num_slots).countP (fun i => !page.withSlot.used i) = page.unusedSlots := by
    apply List.countP_congr
    intro i hi
    rw [List.mem_range'_1] at hi
    rw [withSlot_used page hi.1]
  have hlast : 1 + 1 * page.header.num_slots = page.header.num_slots + 1 := by omega
  have hcount : page.withSlot.unusedSlots =
      (List.range' 1 page.header.num_slots).countP (fun i => !page.withSlot.used i) + 1 := by
    rw [unusedSlots, hnum, List.range'_concat, List.countP_append, hlast, List.countP_singleton,
      withSlot_used page (Nat.le_add_left 1 _), hnew]
    rfl
  rw [hcount, hold]

private theorem withSlot_valid (h : page.Valid) (hfree : page.header.num_free_slots = 0)
    (hnew : page.used (page.header.num_slots + 1) = false)
    (hroom : 6 ≤ page.header.free_space_upper_bound - page.header.free_space_lower_bound) : page.withSlot.Valid := by
  have hlower := h.lower_eq
  have hsame : page.withSlot.Stored = page.Stored := funext fun i => propext (withSlot_stored hnew i)
  refine ⟨rfl, ?_, ?_, fun i hi => h.offset_le i ((withSlot_stored hnew i).mp hi), ?_⟩
  · show 6 * (page.header.num_slots + 1) ≤ page.header.free_space_upper_bound
    omega
  · rw [withSlot_unusedSlots hnew, ← h.free_eq, hfree]
    rfl
  · rw [hsame]
    exact h.tiles

private theorem withSlot_contents (hnew : page.used (page.header.num_slots + 1) = false) :
    page.withSlot.contents = page.contents := by
  funext i
  unfold contents
  by_cases hi : page.Stored i
  · rw [if_pos hi, if_pos ((withSlot_stored hnew i).mpr hi)]
    rfl
  · rw [if_neg hi, if_neg (mt (withSlot_stored hnew i).mp hi)]

/-- Without a free slot, `getAvailableSlot` adds one. -/
private theorem getAvailableSlot_grow (h : page.Valid) (hfree : page.header.num_free_slots = 0) :
    page.getAvailableSlot = (page.withSlot, .ok (page.header.num_slots + 1)) := by
  have hupper := h.upper_le
  have hle := h.lower_le
  have hlower := h.lower_eq
  have hslots : u16 (page.header.num_slots + 1) = page.header.num_slots + 1 := by
    unfold u16
    omega
  have hlower' : u16 (pageSlotSize * (page.header.num_slots + 1)) = 6 * (page.header.num_slots + 1) := by
    unfold u16 pageSlotSize
    omega
  unfold getAvailableSlot
  simp only [hfree, hslots, hlower']
  rfl

/-- Else it takes an unused one. -/
private theorem getAvailableSlot_reuse (h : page.Valid) (hfree : page.header.num_free_slots ≠ 0) :
    ∃ s : Nat, page.getAvailableSlot = (page, .ok s) ∧ 1 ≤ s ∧ s ≤ page.header.num_slots ∧ page.used s = false := by
  have hcount : 0 < page.unusedSlots := by
    rw [← h.free_eq]
    omega
  obtain ⟨a, ha, hunused⟩ := List.countP_pos_iff.mp hcount
  obtain ⟨s, hs⟩ : ∃ s, (List.range' 1 page.header.num_slots).find? (fun i => !page.used i) = some s := by
    rw [← Option.isSome_iff_exists, List.find?_isSome]
    exact ⟨a, ha, hunused⟩
  have hmem := List.mem_of_find?_eq_some hs
  rw [List.mem_range'_1] at hmem
  refine ⟨s, ?_, hmem.1, by omega, by simpa using List.find?_some hs⟩
  unfold getAvailableSlot
  rw [if_pos (Nat.pos_of_ne_zero hfree), hs]

/-- The slot for a new record, when the used mark of a slot behind the array is not set. -/
private theorem getAvailableSlot_spec (h : page.Valid) {record : List UInt8}
    (hspace : page.hasSpaceForRecord record = true)
    (hfresh : page.header.num_free_slots = 0 → page.used (page.header.num_slots + 1) = false) :
    ∃ (page' : Page) (s : Nat), page.getAvailableSlot = (page', .ok s) ∧ page'.Valid ∧ page'.contents = page.contents ∧
      page'.page_number = page.page_number ∧ 1 ≤ s ∧ s ≤ page'.header.num_slots ∧ page'.used s = false ∧
      page.contents s = none ∧
      record.length ≤ page'.header.free_space_upper_bound - page'.header.free_space_lower_bound := by
  have hlower := h.lower_eq
  unfold hasSpaceForRecord at hspace
  rw [h.getFreeSpace_eq] at hspace
  by_cases hfree : page.header.num_free_slots = 0
  · have hspace' : record.length + 6 ≤ page.header.free_space_upper_bound - page.header.free_space_lower_bound := by
      simpa [hfree] using hspace
    have hnew := hfresh hfree
    refine ⟨page.withSlot, page.header.num_slots + 1, getAvailableSlot_grow h hfree, withSlot_valid h hfree hnew (by omega),
      withSlot_contents hnew, rfl, by omega, Nat.le_refl _, ?_, ?_, ?_⟩
    · rw [withSlot_used page (Nat.le_add_left 1 page.header.num_slots), hnew]
    · unfold contents
      rw [if_neg]
      rintro ⟨-, hle', -⟩
      omega
    · show record.length ≤ page.header.free_space_upper_bound - 6 * (page.header.num_slots + 1)
      omega
  · have hspace' : record.length ≤ page.header.free_space_upper_bound - page.header.free_space_lower_bound := by
      simpa [hfree] using hspace
    obtain ⟨s, hget, hpos, hle, hunused⟩ := getAvailableSlot_reuse h hfree
    refine ⟨page, s, hget, h, rfl, rfl, hpos, hle, hunused, ?_, hspace'⟩
    unfold contents
    rw [if_neg]
    rintro ⟨-, -, hu⟩
    rw [hunused] at hu
    exact absurd hu (by simp)

/-- `insertRecord` throws and leaves the page as it is, or adds the record under a new id. -/
theorem insertRecord_spec (h : page.Valid) (record : List UInt8)
    (hfresh : page.header.num_free_slots = 0 → page.hasSpaceForRecord record = true →
      page.used (page.header.num_slots + 1) = false) :
    (∃ e, page.insertRecord record = (page, .error e)) ∨
      ∃ (page' : Page) (s : Nat), page.insertRecord record =
          (page', .ok { page_number := page.page_number, slot_number := s, padding := 0 }) ∧
        page'.Valid ∧ page'.page_number = page.page_number ∧ page.contents s = none ∧
        page'.contents = Function.update page.contents s (some record) := by
  by_cases hspace : page.hasSpaceForRecord record = true
  · obtain ⟨page₁, s, hslot, hvalid, hcontents, hnumber, hs, hs', hused, hnone, hroom⟩ :=
      getAvailableSlot_spec h hspace fun hfree => hfresh hfree hspace
    obtain ⟨page', hinsert, hfilled⟩ := insertRecordInSlot_filled hvalid hs hs' hused hroom
    right
    refine ⟨page', s, ?_, hfilled.valid hvalid hs hs' hused hroom, hfilled.page_number_eq.trans hnumber, hnone, ?_⟩
    · unfold insertRecord
      rw [if_neg (by simp [hspace]), hslot]
      simp only [hinsert, hfilled.page_number_eq, hnumber]
    · rw [hfilled.contents hvalid hs hs', hcontents]
  · left
    unfold insertRecord
    rw [if_pos (by simpa using hspace)]
    exact ⟨_, rfl⟩

end Valid

end Page

end Cs564
