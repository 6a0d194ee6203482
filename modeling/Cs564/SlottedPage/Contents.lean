import Cs564.SlottedPage.Delete
/-!
# A page as a map from record ids to records

Calls of `insertRecord`, `updateRecord` and `deleteRecord` on a fresh page, beside the map of the records that are live
(`PageCall.run`).  Two things break the map: an offset of an empty record that lies in front of the records when a hole
is closed (then the wrong bytes are moved, `getRecord_after_wrong_move`), and a slot array that grows onto bytes which are
not zero.  In every run without them `getRecord` returns what was stored last (`getRecord_live`).
-/

namespace Cs564

/-- A call on a page. -/
inductive PageCall where
  | insertRecord (record_data : List UInt8)
  | updateRecord (record_id : RecordId) (record_data : List UInt8)
  | deleteRecord (record_id : RecordId)

/-- The live records of a page by slot number. -/
abbrev RecordMap := SlotId → Option (List UInt8)

namespace PageCall

/-- The call on the page, and on the map if it returns normally. -/
def run (page : Page) (live : RecordMap) : PageCall → Page × RecordMap
  | insertRecord record_data =>
    match page.insertRecord record_data with
    | (page', .ok record_id) => (page', Function.update live record_id.slot_number (some record_data))
    | (page', .error _) => (page', live)
  | updateRecord record_id record_data =>
    match page.updateRecord record_id record_data with
    | (page', .ok ()) => (page', Function.update live record_id.slot_number (some record_data))
    | (page', .error _) => (page', live)
  | deleteRecord record_id =>
    match page.deleteRecord record_id with
    | (page', .ok ()) => (page', Function.update live record_id.slot_number none)
    | (page', .error _) => (page', live)

/-- The record id of the call, if it has one, is live on the page with this number. -/
def Names (number : PageId) (live : RecordMap) : PageCall → Prop
  | insertRecord _ => True
  | updateRecord record_id _ => record_id.page_number = number ∧ live record_id.slot_number ≠ none
  | deleteRecord record_id => record_id.page_number = number ∧ live record_id.slot_number ≠ none

/-- The slot array does not grow onto a byte that marks the new slot as used, and the hole that an update or delete
leaves can be closed. -/
def Safe (page : Page) : PageCall → Prop
  | insertRecord record_data => page.header.num_free_slots = 0 → page.hasSpaceForRecord record_data = true →
      page.used (page.header.num_slots + 1) = false
  | updateRecord record_id record_data =>
      record_data.length ≤ page.getFreeSpace + page.item_length record_id.slot_number →
        page.Movable record_id.slot_number
  | deleteRecord record_id => page.Movable record_id.slot_number

instance (number : PageId) (live : RecordMap) : (call : PageCall) → Decidable (call.Names number live)
  | insertRecord _ => .isTrue trivial
  | updateRecord _ _ => inferInstanceAs (Decidable (_ ∧ _))
  | deleteRecord _ => inferInstanceAs (Decidable (_ ∧ _))

instance (page : Page) : (call : PageCall) → Decidable (call.Safe page)
  | insertRecord record_data => inferInstanceAs (Decidable (_ → page.hasSpaceForRecord record_data = true → _))
  | updateRecord record_id record_data =>
    inferInstanceAs (Decidable (record_data.length ≤ page.getFreeSpace + page.item_length record_id.slot_number → _))
  | deleteRecord record_id => inferInstanceAs (Decidable (page.Movable record_id.slot_number))

end PageCall

/-- The pages that calls make of a fresh page with this number, each call meeting `cond`. -/
inductive PageRun (number : PageId) (cond : Page → PageCall → Prop) : Page → RecordMap → Prop where
  | fresh (memory : Page) : PageRun number cond (memory.initializePage.set_page_number number) fun _ => none
  | call {page : Page} {live : RecordMap} (call : PageCall) (before : PageRun number cond page live)
      (names : call.Names number live) (meets : cond page call) :
      PageRun number cond (call.run page live).1 (call.run page live).2

namespace Page

/-- A fresh page is in order and has no records. -/
theorem initializePage_valid (memory : Page) (number : PageId) :
    (memory.initializePage.set_page_number number).Valid ∧
      (memory.initializePage.set_page_number number).contents = fun _ => none := by
  have hnone : ∀ i, ¬ (memory.initializePage.set_page_number number).Stored i := by
    rintro i ⟨hi, hi', -⟩
    exact Nat.not_succ_le_zero 0 (Nat.le_trans hi hi')
  constructor
  · constructor
    · rfl
    · exact Nat.zero_le _
    · rfl
    · intro i hi
      exact absurd hi (hnone i)
    · constructor
      · exact Nat.le_refl _
      · intro i q hi
        exact absurd hi (hnone i)
      · intro q hlo hhi
        exact absurd hhi (Nat.not_lt.mpr hlo)
      · intro i j q hi
        exact absurd hi (hnone i)
  · funext i
    unfold contents
    rw [if_neg (hnone i)]

/-- The page is in order and holds the live records. -/
structure Holds (page : Page) (number : PageId) (live : RecordMap) : Prop where
  valid : page.Valid
  number_eq : page.page_number = number
  contents_eq : page.contents = live

variable {page : Page} {number : PageId} {live : RecordMap}

/-- A live id names a slot that holds a record. -/
private theorem Holds.stored (h : page.Holds number live) {i : Nat} (hi : live i ≠ none) : page.Stored i := by
  rw [← h.contents_eq] at hi
  by_contra hnot
  unfold contents at hi
  rw [if_neg hnot] at hi
  exact hi rfl

/-- One call. -/
theorem Holds.call (h : page.Holds number live) (call : PageCall) (hnames : call.Names number live)
    (hsafe : call.Safe page) : (call.run page live).1.Holds number (call.run page live).2 := by
  cases call with
  | insertRecord record_data =>
    rcases insertRecord_spec h.valid record_data hsafe with ⟨e, heq⟩ | ⟨page', s, heq, hvalid, hnumber, -, hcontents⟩
    · simp only [PageCall.run, heq]
      exact h
    · simp only [PageCall.run, heq]
      exact ⟨hvalid, hnumber.trans h.number_eq, by rw [hcontents, h.contents_eq]⟩
  | updateRecord record_id record_data =>
    have hs := h.stored hnames.2
    have hpage := hnames.1.trans h.number_eq.symm
    rcases updateRecord_spec h.valid hpage hs record_data hsafe with ⟨e, heq⟩ | ⟨page', heq, hvalid, hnumber, hcontents⟩
    · simp only [PageCall.run, heq]
      exact h
    · simp only [PageCall.run, heq]
      exact ⟨hvalid, hnumber.trans h.number_eq, by rw [hcontents, h.contents_eq]⟩
  | deleteRecord record_id =>
    have hs := h.stored hnames.2
    have hpage := hnames.1.trans h.number_eq.symm
    obtain ⟨page', heq, hvalid, hnumber, hcontents⟩ := deleteRecord_spec h.valid hpage hs hsafe
    simp only [PageCall.run, heq]
    exact ⟨hvalid, hnumber.trans h.number_eq, by rw [hcontents, h.contents_eq]⟩

/-- A run of calls. -/
theorem holds_of_run (hrun : PageRun number (fun page call => call.Safe page) page live) : page.Holds number live := by
  induction hrun with
  | fresh memory =>
    obtain ⟨hvalid, hcontents⟩ := initializePage_valid memory number
    exact ⟨hvalid, rfl, hcontents⟩
  | call call _ hnames hsafe ih => exact ih.call call hnames hsafe

/-- In a run of safe calls `getRecord` returns the bytes last stored under a live id. -/
theorem getRecord_live (hrun : PageRun number (fun page call => call.Safe page) page live) {record_id : RecordId}
    {record : List UInt8} (hpage : record_id.page_number = number)
    (hlive : live record_id.slot_number = some record) : page.getRecord record_id = .ok record := by
  have h := holds_of_run hrun
  have hs := h.stored (show live record_id.slot_number ≠ none by simp [hlive])
  rw [h.valid.getRecord_eq (hpage.trans h.number_eq.symm) hs]
  rw [← h.contents_eq] at hlive
  rw [(contents_eq_some.mp hlive).2]

/-! ### Runs on fixed calls -/

/-- Memory for a page. -/
def blankMemory : Page :=
  { header := { free_space_lower_bound := 0, free_space_upper_bound := 0, num_slots := 0, num_free_slots := 0,
                current_page_number := 0, next_page_number := 0 }
    data := fun _ => 0 }

/-- The page and the map after the calls in order. -/
def runCalls (calls : List PageCall) : Page × RecordMap :=
  calls.foldl (fun state call => call.run state.1 state.2) (blankMemory.initializePage, fun _ => none)

theorem runCalls_concat (calls : List PageCall) (call : PageCall) :
    runCalls (calls ++ [call]) = call.run (runCalls calls).1 (runCalls calls).2 := by simp [runCalls]

/-- A list of calls is a run if each of them meets the condition behind those in front of it. -/
theorem pageRun_runCalls {cond : Page → PageCall → Prop} (calls : List PageCall)
    (hmeets : ∀ k (hk : k < calls.length), calls[k].Names 0 (runCalls (calls.take k)).2 ∧
      cond (runCalls (calls.take k)).1 calls[k]) :
    PageRun 0 cond (runCalls calls).1 (runCalls calls).2 := by
  induction calls using List.reverseRecOn with
  | nil => exact .fresh blankMemory
  | append_singleton calls call ih =>
    obtain ⟨hnames, hcond⟩ := hmeets calls.length (by simp)
    simp only [List.getElem_concat_length, List.take_left'] at hnames hcond
    rw [runCalls_concat]
    refine .call call (ih fun k hk => ?_) hnames hcond
    have hk' := hmeets k (by simp; omega)
    rwa [List.getElem_append_left hk, List.take_append_of_le_length (Nat.le_of_lt hk)] at hk'

/-- Four records are inserted, the second and the third are deleted and the first is replaced by a longer one; a fifth
record gets the slot of the second. -/
def sampleCalls : List PageCall :=
  [.insertRecord [97, 98, 99], .insertRecord [100], .insertRecord [101, 102], .insertRecord [103],
    .deleteRecord { page_number := 0, slot_number := 2, padding := 0 },
    .deleteRecord { page_number := 0, slot_number := 3, padding := 0 },
    .updateRecord { page_number := 0, slot_number := 1, padding := 0 } [104, 105, 106, 107],
    .insertRecord [108]]

theorem pageRun_sample : PageRun 0 (fun page call => call.Safe page) (runCalls sampleCalls).1 (runCalls sampleCalls).2 :=
  pageRun_runCalls sampleCalls (by decide +kernel)

theorem getRecord_live_one :
    (runCalls sampleCalls).1.getRecord { page_number := 0, slot_number := 1, padding := 0 } = .ok [104, 105, 106, 107] ∧
      (runCalls sampleCalls).1.getRecord { page_number := 0, slot_number := 2, padding := 0 } = .ok [108] ∧
      (runCalls sampleCalls).1.getRecord { page_number := 0, slot_number := 4, padding := 0 } = .ok [103] :=
  ⟨getRecord_live pageRun_sample rfl (by decide +kernel), getRecord_live pageRun_sample rfl (by decide +kernel),
    getRecord_live pageRun_sample rfl (by decide +kernel)⟩

/-- Insert three bytes, nothing and one byte; delete the three bytes; insert a byte; delete the other byte. -/
private def wrongMove : List PageCall :=
  [.insertRecord [97, 98, 99], .insertRecord [], .insertRecord [100],
    .deleteRecord { page_number := 0, slot_number := 1, padding := 0 }, .insertRecord [101],
    .deleteRecord { page_number := 0, slot_number := 3, padding := 0 }]

/-- The empty record has kept its old offset, in front of the records, so the last delete moves the wrong byte. -/
theorem getRecord_after_wrong_move : ¬ ∀ (page : Page) (live : RecordMap), PageRun 0 (fun _ _ => True) page live →
    ∀ (record_id : RecordId) (record : List UInt8), record_id.page_number = 0 →
      live record_id.slot_number = some record → page.getRecord record_id = .ok record := by
  intro hall
  have hrun : PageRun 0 (fun _ _ => True) (runCalls wrongMove).1 (runCalls wrongMove).2 :=
    pageRun_runCalls wrongMove (by decide +kernel)
  have hget := hall _ _ hrun { page_number := 0, slot_number := 1, padding := 0 } [101] rfl (by decide +kernel)
  have hread := congrArg Except.toOption hget
  revert hread
  decide +kernel

end Page

end Cs564
