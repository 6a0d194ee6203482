import Cs564.SlottedPage.Acceptance
/-!
# The space of a page

In a run of calls that return normally and store records that are not empty, every call keeps the page in order; so the
counters of the header, the slots and the records always agree (`space_exact`).
-/

namespace Cs564

namespace PageCall

/-- The call returns normally. -/
def Returns (page : Page) : PageCall → Prop
  | insertRecord record_data => ∃ page' record_id, page.insertRecord record_data = (page', .ok record_id)
  | updateRecord record_id record_data => ∃ page', page.updateRecord record_id record_data = (page', .ok ())
  | deleteRecord record_id => ∃ page', page.deleteRecord record_id = (page', .ok ())

/-- The record that the call stores is not empty. -/
def NotEmpty : PageCall → Prop
  | insertRecord record_data => record_data ≠ []
  | updateRecord _ record_data => record_data ≠ []
  | deleteRecord _ => True

private theorem exists_eq_ok_iff {α : Type} {x : Page × Except PageError α} :
    x.2.toOption.isSome = true ↔ ∃ page' a, x = (page', .ok a) := by
  obtain ⟨page, e | a⟩ := x <;> simp [Except.toOption]

private theorem exists_eq_done_iff {x : Page × Except PageError Unit} :
    x.2.toOption.isSome = true ↔ ∃ page', x = (page', .ok ()) := by
  rw [exists_eq_ok_iff]
  exact exists_congr fun _ => ⟨fun ⟨(), h⟩ => h, fun h => ⟨(), h⟩⟩

instance (page : Page) : (call : PageCall) → Decidable (call.Returns page)
  | insertRecord _ => decidable_of_iff _ exists_eq_ok_iff
  | updateRecord _ _ => decidable_of_iff _ exists_eq_done_iff
  | deleteRecord _ => decidable_of_iff _ exists_eq_done_iff

instance : (call : PageCall) → Decidable call.NotEmpty
  | insertRecord record_data => inferInstanceAs (Decidable (record_data ≠ []))
  | updateRecord _ record_data => inferInstanceAs (Decidable (record_data ≠ []))
  | deleteRecord _ => .isTrue trivial

end PageCall

namespace Page

variable {page : Page} {number : PageId} {live : RecordMap}

/-- The page is in order and holds the live records, none of them empty. -/
structure HoldsNonEmpty (page : Page) (number : PageId) (live : RecordMap) : Prop extends page.Holds number live where
  nonEmpty : ∀ i record, live i = some record → record ≠ []

section Step

variable {i s : Nat}

/-- The records have a length. -/
private theorem HoldsNonEmpty.length_pos (h : page.HoldsNonEmpty number live) (hi : page.Stored i) :
    0 < page.item_length i := by
  have hlive : live i = some (page.bytes i) := by
    rw [← h.contents_eq, contents_eq_some]
    exact ⟨hi, rfl⟩
  have hlen : (page.bytes i).length = page.item_length i := by
    unfold bytes
    rw [List.length_map, List.length_range]
  rw [← hlen]
  exact List.length_pos_iff.mpr (h.nonEmpty i _ hlive)

/-- So none of them lies in front of the others. -/
private theorem HoldsNonEmpty.movable (h : page.HoldsNonEmpty number live) (s : Nat) : page.Movable s :=
  .inr (.inr fun _ hi _ => (h.valid.tiles.bounds hi (h.length_pos hi)).1)

/-- A call that returns keeps the page in order. -/
private theorem HoldsNonEmpty.safe (h : page.HoldsNonEmpty number live) {call : PageCall} (hreturns : call.Returns page) :
    call.Safe page := by
  cases call with
  | insertRecord record_data =>
    intro hfree hspace
    obtain ⟨-, havailable⟩ := insertRecord_ok_iff.mp hreturns
    have hzero := h.valid.slotAvailable_iff.mp havailable hfree
    have hslot : getSlot (page.header.num_slots + 1) = 6 * page.header.num_slots := Nat.mul_comm _ _
    rw [used_eq (Nat.le_add_left 1 _), hslot, hzero]
    rfl
  | updateRecord record_id record_data => exact fun _ => h.movable _
  | deleteRecord record_id => exact h.movable _

/-- One call. -/
theorem HoldsNonEmpty.call (h : page.HoldsNonEmpty number live) (call : PageCall) (hnames : call.Names number live)
    (hreturns : call.Returns page) (hstores : call.NotEmpty) :
    (call.run page live).1.HoldsNonEmpty number (call.run page live).2 := by
  refine ⟨h.toHolds.call call hnames (h.safe hreturns), ?_⟩
  have hupdate : ∀ (s : SlotId) (stored : Option (List UInt8)), (∀ record, stored = some record → record ≠ []) →
      ∀ i record, Function.update live s stored i = some record → record ≠ [] := by
    intro s stored hstored i record heq
    by_cases his : i = s
    · rw [his, Function.update_self] at heq
      exact hstored record heq
    · rw [Function.update_of_ne his] at heq
      exact h.nonEmpty i record heq
  have hsome : ∀ {stored : List UInt8}, stored ≠ [] → ∀ record, some stored = some record → record ≠ [] :=
    fun hstored record heq => Option.some.inj heq ▸ hstored
  cases call with
  | insertRecord record_data =>
    obtain ⟨page', record_id, heq⟩ := hreturns
    simp only [PageCall.run, heq]
    exact hupdate _ _ (hsome hstores)
  | updateRecord record_id record_data =>
    obtain ⟨page', heq⟩ := hreturns
    simp only [PageCall.run, heq]
    exact hupdate _ _ (hsome hstores)
  | deleteRecord record_id =>
    obtain ⟨page', heq⟩ := hreturns
    simp only [PageCall.run, heq]
    exact hupdate _ _ fun record heq => absurd heq (by simp)

/-- A run of calls. -/
theorem holdsNonEmpty_of_run (hrun : PageRun number (fun page call => call.Returns page ∧ call.NotEmpty) page live) :
    page.HoldsNonEmpty number live := by
  induction hrun with
  | fresh memory =>
    obtain ⟨hvalid, hcontents⟩ := initializePage_valid memory number
    exact ⟨⟨hvalid, rfl, hcontents⟩, fun i record heq => absurd heq (by simp)⟩
  | call call _ hnames hmeets ih => exact ih.call call hnames hmeets.1 hmeets.2

end Step

/-- The counters of the header, the slots and the records of a page agree. -/
structure SpaceExact (page : Page) : Prop where
  lower_eq : page.header.free_space_lower_bound = 6 * page.header.num_slots
  lower_le : page.header.free_space_lower_bound ≤ page.header.free_space_upper_bound
  upper_le : page.header.free_space_upper_bound ≤ DATA_SIZE
  free_space : page.getFreeSpace + page.header.free_space_lower_bound = page.header.free_space_upper_bound
  inside : ∀ i, page.Stored i → page.header.free_space_upper_bound ≤ page.item_offset i ∧
    page.item_offset i + page.item_length i ≤ DATA_SIZE
  apart : ∀ i j, page.Stored i → page.Stored j → i ≠ j →
    page.item_offset i + page.item_length i ≤ page.item_offset j ∨
      page.item_offset j + page.item_length j ≤ page.item_offset i
  filled : ∀ q, page.header.free_space_upper_bound ≤ q → q < DATA_SIZE →
    ∃ i, page.Stored i ∧ page.item_offset i ≤ q ∧ q < page.item_offset i + page.item_length i
  free_eq : page.header.num_free_slots =
    ((List.range' 1 page.header.num_slots).filter fun i => !page.used i).length

private theorem HoldsNonEmpty.spaceExact (h : page.HoldsNonEmpty number live) : page.SpaceExact := by
  have hle := h.valid.lower_le
  constructor
  · exact h.valid.lower_eq
  · exact hle
  · exact h.valid.upper_le
  · rw [h.valid.getFreeSpace_eq]
    omega
  · exact fun i hi => h.valid.tiles.bounds hi (h.length_pos hi)
  · intro i j hi hj hij
    have hposi := h.length_pos hi
    have hposj := h.length_pos hj
    by_contra hover
    push Not at hover
    -- the later of the two starts is a byte of both records
    rcases Nat.le_total (page.item_offset i) (page.item_offset j) with hij' | hji'
    · exact hij (h.valid.tiles.unique i j (page.item_offset j) hi hj ⟨hij', hover.1⟩ (covers_start hposj))
    · exact hij (h.valid.tiles.unique i j (page.item_offset i) hi hj (covers_start hposi) ⟨hji', hover.2⟩)
  · exact h.valid.tiles.cover
  · rw [h.valid.free_eq]
    exact List.countP_eq_length_filter

/-- In a run of calls that return and store no empty records, the space accounting is exact, and a delete of the record
in the last slot leaves a used slot at the end of the slot array, if any. -/
theorem space_exact (hrun : PageRun number (fun page call => call.Returns page ∧ call.NotEmpty) page live) :
    page.SpaceExact ∧ (∀ i, live i = none ↔ ¬ page.Stored i) ∧
      ∀ (record_id : RecordId) (page' : Page), record_id.page_number = number → live record_id.slot_number ≠ none →
        record_id.slot_number = page.header.num_slots → page.deleteRecord record_id = (page', .ok ()) →
          page'.header.num_slots = 0 ∨ page'.used page'.header.num_slots = true := by
  have h := holdsNonEmpty_of_run hrun
  have hstored : ∀ i, live i = none ↔ ¬ page.Stored i := by
    intro i
    rw [← h.contents_eq]
    unfold contents
    by_cases hi : page.Stored i
    · simp [hi]
    · simp [hi]
  refine ⟨h.spaceExact, hstored, fun record_id page' hpage hlive hlast heq => ?_⟩
  have hs : page.Stored record_id.slot_number := by
    by_contra hnot
    exact hlive ((hstored _).mpr hnot)
  have hused := deleteRecord_last h.valid (hpage.trans h.number_eq.symm) hs (h.movable _) hlast
  rwa [heq] at hused

theorem space_exact_one : (runCalls sampleCalls).1.SpaceExact ∧
    (∀ i, (runCalls sampleCalls).2 i = none ↔ ¬ (runCalls sampleCalls).1.Stored i) ∧
      ∃ page', (runCalls sampleCalls).1.deleteRecord { page_number := 0, slot_number := 4, padding := 0 } = (page', .ok ()) ∧
        (page'.header.num_slots = 0 ∨ page'.used page'.header.num_slots = true) := by
  have hrun : PageRun 0 (fun page call => call.Returns page ∧ call.NotEmpty) (runCalls sampleCalls).1
      (runCalls sampleCalls).2 := pageRun_runCalls sampleCalls (by decide +kernel)
  obtain ⟨hexact, hstored, hlast⟩ := space_exact hrun
  have hreturns : (PageCall.deleteRecord { page_number := 0, slot_number := 4, padding := 0 }).Returns
      (runCalls sampleCalls).1 := by decide +kernel
  obtain ⟨page', heq⟩ := hreturns
  exact ⟨hexact, hstored, page', heq, hlast _ page' rfl (by decide +kernel) (by decide +kernel) heq⟩

end Page

end Cs564
