import Cs564.SlottedPage.Records
/-!
# Closing the hole of a record

`deleteRecord` clears the bytes of a record, raises the offsets below that of the record and moves the bytes in front
of the hole.  It moves the right bytes if there is no hole or nothing in front of it, or if no used slot has an offset in
front of the records (`Page.Movable`); then every other record keeps its bytes (`close_spec`).
-/

namespace Cs564

namespace Page

/-- A used slot whose offset is below that of slot `s`. -/
def Before (page : Page) (s i : Nat) : Prop := page.used i = true ∧ page.item_offset i < page.item_offset s

instance (page : Page) (s i : Nat) : Decidable (page.Before s i) := inferInstanceAs (Decidable (_ ∧ _))

/-- The hole of the record in slot `s` is empty, or no used slot has an offset in front of the records, or there is
nothing in front of the hole. -/
def Movable (page : Page) (s : Nat) : Prop :=
  page.item_length s = 0 ∨ page.item_offset s = page.header.free_space_upper_bound ∨
    ∀ i, page.Stored i → page.item_offset i < page.item_offset s →
      page.header.free_space_upper_bound ≤ page.item_offset i

instance (page : Page) (s : Nat) : Decidable (page.Movable s) :=
  decidable_of_iff (page.item_length s = 0 ∨ page.item_offset s = page.header.free_space_upper_bound ∨
    ∀ i ≤ page.header.num_slots, page.Stored i → page.item_offset i < page.item_offset s →
      page.header.free_space_upper_bound ≤ page.item_offset i)
    (or_congr_right (or_congr_right ⟨fun h i hi => h i hi.2.1 hi, fun h i _ hi => h i hi⟩))

section Shift

variable {page : Page} {s i : Nat} {done : List Nat} {state : Page × Nat × Nat}

/-- The state of the loop over the slots after those in `done`. -/
structure Shifted (page : Page) (s : Nat) (done : List Nat) (state : Page × Nat × Nat) : Prop where
  header_eq : state.1.header = page.header
  used_eq : ∀ i, 1 ≤ i → state.1.used i = page.used i
  length_eq : ∀ i, 1 ≤ i → state.1.item_length i = page.item_length i
  offset_eq : ∀ i, 1 ≤ i → state.1.item_offset i =
    if i ∈ done ∧ page.Before s i then page.item_offset i + page.item_length s else page.item_offset i
  data_eq : ∀ q, 6 * page.header.num_slots ≤ q → state.1.data q = page.data q
  move_le : state.2.1 ≤ page.item_offset s
  move_le_of : ∀ i ∈ done, page.Before s i → state.2.1 ≤ page.item_offset i
  move_mem : state.2.1 = page.item_offset s ∨ ∃ i ∈ done, page.Before s i ∧ state.2.1 = page.item_offset i
  bytes_eq : state.2.2 = ((done.filter fun i => page.Before s i).map page.item_length).sum

/-- A slot that stays as it is. -/
private theorem Shifted.pass (h : Shifted page s done state) (hdone : i ∉ done) (hbefore : ¬ page.Before s i) :
    Shifted page s (done ++ [i]) state := by
  refine ⟨h.header_eq, h.used_eq, h.length_eq, fun j hj => ?_, h.data_eq, h.move_le, fun j hj hbeforej => ?_, ?_, ?_⟩
  · rw [h.offset_eq j hj]
    by_cases hji : j = i
    · simp [hji, hdone, hbefore]
    · simp [hji]
  · rcases List.mem_append.mp hj with hj | hj
    · exact h.move_le_of j hj hbeforej
    · rw [List.mem_singleton] at hj
      exact absurd (hj ▸ hbeforej) hbefore
  · rcases h.move_mem with heq | ⟨j, hj, hbeforej, heq⟩
    · exact Or.inl heq
    · exact Or.inr ⟨j, by simp [hj], hbeforej, heq⟩
  · rw [h.bytes_eq, List.filter_append, List.map_append, List.sum_append]
    simp [hbefore]

/-- A slot whose record is moved. -/
private theorem Shifted.shift (h : Shifted page s done state) (hi : 1 ≤ i) (hi' : i ≤ page.header.num_slots)
    (hbefore : page.Before s i) (hfit : page.item_offset i + page.item_length s < 2 ^ 16) :
    Shifted page s (done ++ [i]) (state.1.setOffset i (page.item_offset i + page.item_length s),
      if page.item_offset i < state.2.1 then page.item_offset i else state.2.1, state.2.2 + page.item_length i) := by
  have hother : ∀ j, 1 ≤ j → j ≠ i →
      (state.1.setOffset i (page.item_offset i + page.item_length s)).used j = state.1.used j ∧
      (state.1.setOffset i (page.item_offset i + page.item_length s)).item_offset j = state.1.item_offset j ∧
      (state.1.setOffset i (page.item_offset i + page.item_length s)).item_length j = state.1.item_length j := by
    intro j hj hji
    apply slot_congr hj
    intro q hq hq'
    have hapart := getSlot_apart hj hi hji
    exact setOffset_data (by omega)
  constructor
  · exact h.header_eq
  · intro j hj
    by_cases hji : j = i
    · rw [hji, used_setOffset hi, h.used_eq i hi]
    · rw [(hother j hj hji).1, h.used_eq j hj]
  · intro j hj
    by_cases hji : j = i
    · rw [hji, item_length_setOffset, h.length_eq i hi]
    · rw [(hother j hj hji).2.2, h.length_eq j hj]
  · intro j hj
    by_cases hji : j = i
    · rw [hji, item_offset_setOffset hfit, if_pos ⟨by simp, hbefore⟩]
    · rw [(hother j hj hji).2.1, h.offset_eq j hj]
      simp [hji]
  · intro q hq
    have hslot := getSlot_add hi
    rw [setOffset_data (by omega), h.data_eq q hq]
  · have hle := h.move_le
    simp only
    split <;> omega
  · intro j hj hbeforej
    simp only
    rcases List.mem_append.mp hj with hj | hj
    · have hle := h.move_le_of j hj hbeforej
      split <;> omega
    · rw [List.mem_singleton] at hj
      subst hj
      split <;> omega
  · simp only
    by_cases hlt : page.item_offset i < state.2.1
    · rw [if_pos hlt]
      exact Or.inr ⟨i, by simp, hbefore, rfl⟩
    · rw [if_neg hlt]
      rcases h.move_mem with heq | ⟨j, hj, hbeforej, heq⟩
      · exact Or.inl heq
      · exact Or.inr ⟨j, by simp [hj], hbeforej, heq⟩
  · simp only
    rw [h.bytes_eq, List.filter_append, List.map_append, List.sum_append]
    simp [hbefore]

theorem Shifted.step (h : Shifted page s done state) (hs : 1 ≤ s) (hi : 1 ≤ i) (hi' : i ≤ page.header.num_slots)
    (hdone : i ∉ done) (hfit : page.Before s i → page.item_offset i + page.item_length s < 2 ^ 16) :
    Shifted page s (done ++ [i]) (shiftSlot s state i) := by
  have hoffs : state.1.item_offset s = page.item_offset s := by
    rw [h.offset_eq s hs, if_neg]
    rintro ⟨-, -, hlt⟩
    exact Nat.lt_irrefl _ hlt
  have hoffi : state.1.item_offset i = page.item_offset i := by
    rw [h.offset_eq i hi, if_neg]
    rintro ⟨hmem, -⟩
    exact hdone hmem
  by_cases hbefore : page.Before s i
  · have hvalue : u16 (page.item_offset i + page.item_length s) = page.item_offset i + page.item_length s := by
      have hlt := hfit hbefore
      unfold u16
      omega
    have hstep : shiftSlot s state i = (state.1.setOffset i (page.item_offset i + page.item_length s),
        if page.item_offset i < state.2.1 then page.item_offset i else state.2.1,
        state.2.2 + page.item_length i) := by
      unfold shiftSlot
      simp only [h.used_eq i hi, hoffi, hoffs, h.length_eq s hs, h.length_eq i hi, hvalue]
      exact if_pos hbefore
    rw [hstep]
    exact h.shift hi hi' hbefore (hfit hbefore)
  · have hstep : shiftSlot s state i = state := by
      unfold shiftSlot
      simp only [h.used_eq i hi, hoffi, hoffs]
      exact if_neg hbefore
    rw [hstep]
    exact h.pass hdone hbefore

/-- The loop over all slots. -/
theorem shiftSlots_shifted (page : Page) (hs : 1 ≤ s)
    (hfit : ∀ i, 1 ≤ i → i ≤ page.header.num_slots → page.Before s i →
      page.item_offset i + page.item_length s < 2 ^ 16) :
    Shifted page s (List.range' 1 page.header.num_slots) (page.shiftSlots s) := by
  have hloop : ∀ n, n ≤ page.header.num_slots → Shifted page s (List.range' 1 n)
      ((List.range' 1 n).foldl (shiftSlot s) (page, page.item_offset s, 0)) := by
    intro n
    induction n with
    | zero =>
      intro _
      constructor
      · rfl
      · exact fun _ _ => rfl
      · exact fun _ _ => rfl
      · intro i _
        simp
      · exact fun _ _ => rfl
      · exact Nat.le_refl _
      · intro i hi
        simp at hi
      · exact Or.inl rfl
      · rfl
    | succ n ih =>
      intro hn
      have hlast : 1 + 1 * n = n + 1 := by omega
      rw [List.range'_concat, hlast, List.foldl_append]
      apply (ih (by omega)).step hs (by omega) (by omega)
      · rw [List.mem_range'_1]
        omega
      · exact hfit (n + 1) (by omega) hn
  exact hloop page.header.num_slots (Nat.le_refl _)

end Shift

/-! ### Closing the hole -/

/-- The page after the record in slot `s` was erased and the hole closed. -/
structure Closed (page page' : Page) (s : Nat) : Prop where
  header_eq : page'.header = page.header
  used_eq : ∀ i, 1 ≤ i → i ≤ page.header.num_slots → page'.used i = page.used i
  length_eq : ∀ i, 1 ≤ i → i ≤ page.header.num_slots → page'.item_length i = page.item_length i
  offset_eq : ∀ i, 1 ≤ i → i ≤ page.header.num_slots → page'.item_offset i =
    if page.Before s i then page.item_offset i + page.item_length s else page.item_offset i
  bytes_eq : ∀ i, page.Stored i → i ≠ s → ∀ k, k < page.item_length i →
    page'.data (page'.item_offset i + k) = page.data (page.item_offset i + k)

section Close

variable {page : Page} {s i : Nat}

/-- A non-empty record lies behind the slot array. -/
theorem Valid.behind_slots (h : page.Valid) (hs : page.Stored s) (hpos : 0 < page.item_length s)
    (hi : i ≤ page.header.num_slots) :
    6 * i ≤ page.item_offset s := by
  have hbounds := h.tiles.bounds hs hpos
  have hlower := h.lower_eq
  have hle := h.lower_le
  omega

/-- The page after the bytes of the record were cleared. -/
def erased (page : Page) (s : Nat) : Page :=
  page.overwrite (page.item_offset s) (page.item_length s) fun _ => 0

private theorem slot_erased (h : page.Valid) (hs : page.Stored s) (hi : 1 ≤ i) (hi' : i ≤ page.header.num_slots)
    {n : Nat} (hn : n ≤ page.item_length s) :
    (page.overwrite (page.item_offset s) n fun _ => 0).used i = page.used i ∧
      (page.overwrite (page.item_offset s) n fun _ => 0).item_offset i = page.item_offset i ∧
      (page.overwrite (page.item_offset s) n fun _ => 0).item_length i = page.item_length i := by
  apply slot_overwrite page _ hi
  by_cases hpos : 0 < page.item_length s
  · exact Or.inr (h.behind_slots hs hpos hi')
  · exact Or.inl (by omega)

theorem eraseRecord_eq (h : page.Valid) (hs : page.Stored s) :
    writeBytes (·.item_length s) (·.item_offset s) (fun _ => 0) (2 ^ 16) 0 page = page.erased s := by
  apply writeBytes_slot page _ hs.1
  by_cases hpos : 0 < page.item_length s
  · exact Or.inr (h.behind_slots hs hpos hs.2.1)
  · exact Or.inl (Nat.eq_zero_of_not_pos hpos)

private theorem before_erased (h : page.Valid) (hs : page.Stored s) (hi : 1 ≤ i) (hi' : i ≤ page.header.num_slots) :
    (page.erased s).Before s i ↔ page.Before s i := by
  have hslot := slot_erased h hs hi hi' (Nat.le_refl _)
  have hself := slot_erased h hs hs.1 hs.2.1 (Nat.le_refl _)
  unfold Before erased
  rw [hslot.1, hslot.2.1, hself.2.1]

/-- The state after the loop over the slots, in terms of the page before the call. -/
private structure Moved (page : Page) (s : Nat) (state : Page × Nat × Nat) : Prop where
  header_eq : state.1.header = page.header
  used_eq : ∀ i, 1 ≤ i → i ≤ page.header.num_slots → state.1.used i = page.used i
  length_eq : ∀ i, 1 ≤ i → i ≤ page.header.num_slots → state.1.item_length i = page.item_length i
  offset_eq : ∀ i, 1 ≤ i → i ≤ page.header.num_slots → state.1.item_offset i =
    if page.Before s i then page.item_offset i + page.item_length s else page.item_offset i
  data_eq : ∀ q, 6 * page.header.num_slots ≤ q →
    q < page.item_offset s ∨ page.item_offset s + page.item_length s ≤ q → state.1.data q = page.data q
  move_le : ∀ i, page.Stored i → page.item_offset i < page.item_offset s → state.2.1 ≤ page.item_offset i
  move_mem : state.2.1 = page.item_offset s ∨
    ∃ i, page.Stored i ∧ page.item_offset i < page.item_offset s ∧ state.2.1 = page.item_offset i
  bytes_eq : ∃ l : List Nat, l.Nodup ∧ (∀ i, i ∈ l ↔ page.Stored i ∧ page.item_offset i < page.item_offset s) ∧
    state.2.2 = (l.map page.item_length).sum

private theorem shiftSlots_moved (h : page.Valid) (hs : page.Stored s) : page.Moved s ((page.erased s).shiftSlots s) := by
  have hslot : ∀ i, 1 ≤ i → i ≤ page.header.num_slots → (page.erased s).used i = page.used i ∧
      (page.erased s).item_offset i = page.item_offset i ∧ (page.erased s).item_length i = page.item_length i :=
    fun i hi hi' => slot_erased h hs hi hi' (Nat.le_refl _)
  have hself := hslot s hs.1 hs.2.1
  have hbefore : ∀ i, 1 ≤ i → i ≤ page.header.num_slots → ((page.erased s).Before s i ↔ page.Before s i) :=
    fun i hi hi' => before_erased h hs hi hi'
  have hend := h.end_le hs
  have hshift := shiftSlots_shifted (page.erased s) hs.1 (by
    intro i hi hi' hb
    have hlt := ((hbefore i hi hi').mp hb).2
    rw [(hslot i hi hi').2.1, hself.2.2]
    omega)
  have hrange : ∀ i, i ∈ List.range' 1 (page.erased s).header.num_slots ↔ 1 ≤ i ∧ i ≤ page.header.num_slots := by
    intro i
    rw [List.mem_range'_1]
    change 1 ≤ i ∧ i < 1 + page.header.num_slots ↔ _
    omega
  have hin : ∀ i, i ∈ List.range' 1 (page.erased s).header.num_slots ∧ (page.erased s).Before s i ↔
      page.Stored i ∧ page.item_offset i < page.item_offset s := by
    intro i
    rw [hrange]
    constructor
    · rintro ⟨⟨hi, hi'⟩, hb⟩
      have hb' := (hbefore i hi hi').mp hb
      exact ⟨⟨hi, hi', hb'.1⟩, hb'.2⟩
    · rintro ⟨⟨hi, hi', hu⟩, hlt⟩
      exact ⟨⟨hi, hi'⟩, (hbefore i hi hi').mpr ⟨hu, hlt⟩⟩
  constructor
  · exact hshift.header_eq
  · intro i hi hi'
    rw [hshift.used_eq i hi, (hslot i hi hi').1]
  · intro i hi hi'
    rw [hshift.length_eq i hi, (hslot i hi hi').2.2]
  · intro i hi hi'
    rw [hshift.offset_eq i hi, (hslot i hi hi').2.1, hself.2.2]
    by_cases hb : page.Before s i
    · rw [if_pos ⟨(hrange i).mpr ⟨hi, hi'⟩, (hbefore i hi hi').mpr hb⟩, if_pos hb]
    · rw [if_neg fun hb' => hb ((hbefore i hi hi').mp hb'.2), if_neg hb]
  · intro q hq hout
    rw [hshift.data_eq q hq]
    exact overwrite_data_of hout
  · intro i hi hlt
    have hmem := (hin i).mpr ⟨hi, hlt⟩
    have hle := hshift.move_le_of i hmem.1 hmem.2
    rwa [(hslot i hi.1 hi.2.1).2.1] at hle
  · rcases hshift.move_mem with heq | ⟨i, hi, hb, heq⟩
    · left
      rw [heq, hself.2.1]
    · have hmem := (hin i).mp ⟨hi, hb⟩
      exact Or.inr ⟨i, hmem.1, hmem.2, by rw [heq, (hslot i hmem.1.1 hmem.1.2.1).2.1]⟩
  · refine ⟨(List.range' 1 (page.erased s).header.num_slots).filter fun i => (page.erased s).Before s i, ?_, ?_, ?_⟩
    · exact List.Nodup.filter _ List.nodup_range'
    · intro i
      rw [List.mem_filter, decide_eq_true_eq]
      exact hin i
    · rw [hshift.bytes_eq]
      congr 1
      apply List.map_congr_left
      intro i hi
      rw [List.mem_filter, hrange] at hi
      exact (hslot i hi.1.1 hi.1.2).2.2

/-- What is read before the move. -/
private theorem substrData_eq (data : Nat → UInt8) {pos count : Nat} (h : pos + count ≤ 8176) :
    ∃ bytes, substrData data pos count = .ok bytes ∧ ∀ k, k < count → bytes.getD k 0 = data (pos + k) := by
  refine ⟨(List.range (min count (DATA_SIZE - pos))).map fun k => data (pos + k), ?_, ?_⟩
  · unfold substrData
    rw [if_pos (by rw [dataSize_eq]; omega)]
  · intro k hk
    have hlen : k < ((List.range (min count (DATA_SIZE - pos))).map fun k => data (pos + k)).length := by
      rw [List.length_map, List.length_range, dataSize_eq]
      omega
    rw [List.getD_eq_getElem _ _ hlen, List.getElem_map, List.getElem_range]

/-- Without a hole nothing is moved. -/
private theorem moveData_empty (h : page.Valid) (hs : page.Stored s) (hzero : page.item_length s = 0)
    {state : Page × Nat × Nat} (hm : page.Moved s state) :
    state.1.moveData s state.2.1 state.2.2 = .ok state.1 := by
  unfold moveData
  by_cases hpos : state.2.2 > 0
  · rw [if_pos hpos]
    obtain ⟨l, hnodup, hl, hsum⟩ := hm.bytes_eq
    have hle := h.tiles.sum_le hnodup fun i hi => ((hl i).mp hi).1
    rw [← hsum, dataSize_eq] at hle
    -- some record lies in front, so the lowest one does
    obtain ⟨a, ha, hapos⟩ : ∃ a ∈ l, 0 < page.item_length a := by
      by_contra hnone
      have hall : ∀ x ∈ l.map page.item_length, x = 0 := by
        intro x hx
        obtain ⟨a, ha, rfl⟩ := List.mem_map.mp hx
        by_contra hne
        exact hnone ⟨a, ha, Nat.pos_of_ne_zero hne⟩
      rw [hsum, List.sum_eq_zero hall] at hpos
      omega
    have hbounds := h.tiles.bounds ((hl a).mp ha).1 hapos
    have hlt := ((hl a).mp ha).2
    obtain ⟨r, hr, hoff, -⟩ := h.tiles.exists_lowest (by omega)
    have hmove := hm.move_le r hr (by omega)
    have hfit : state.2.1 + state.2.2 ≤ 8176 := by omega
    obtain ⟨bytes, hread, hbytes⟩ := substrData_eq state.1.data hfit
    have hlen : state.1.item_length s = 0 := by rw [hm.length_eq s hs.1 hs.2.1, hzero]
    have hself : ∀ i, i ≤ state.2.2 → state.1.overwrite state.2.1 i (bytes.getD · 0) = state.1 := by
      intro i hi
      apply overwrite_self
      intro k hk
      exact hbytes k (by omega)
    have hwrite : writeBytes (fun _ => state.2.2) (fun page => state.2.1 + page.item_length s) (bytes.getD · 0)
        (2 ^ 16) 0 state.1 = state.1.overwrite state.2.1 state.2.2 (bytes.getD · 0) := by
      apply writeBytes_eq
      · intro i hi
        rw [hself i hi, hlen]
        exact ⟨rfl, rfl⟩
      · omega
    simp only [hread, hwrite, hself _ (Nat.le_refl _)]
  · rw [if_neg hpos]

/-- With nothing in front nothing is moved. -/
private theorem moveData_none {state : Page × Nat × Nat} (hzero : state.2.2 = 0) :
    state.1.moveData s state.2.1 state.2.2 = .ok state.1 := by
  unfold moveData
  rw [hzero, if_neg (Nat.lt_irrefl 0)]

/-- The bytes in front of a non-empty hole are moved over it. -/
private theorem moveData_block (h : page.Valid) (hs : page.Stored s) (hpos : 0 < page.item_length s)
    (hlt : page.header.free_space_upper_bound < page.item_offset s) {state : Page × Nat × Nat} (hm : page.Moved s state)
    (hoff : state.2.1 = page.header.free_space_upper_bound)
    (hbytes : state.2.2 = page.item_offset s - page.header.free_space_upper_bound) :
    ∃ byte, state.1.moveData s state.2.1 state.2.2 =
        .ok (state.1.overwrite (page.header.free_space_upper_bound + page.item_length s)
          (page.item_offset s - page.header.free_space_upper_bound) byte) ∧
      ∀ k, k < page.item_offset s - page.header.free_space_upper_bound →
        byte k = state.1.data (page.header.free_space_upper_bound + k) := by
  have hend := h.end_le hs
  have hlower := h.lower_eq
  have hle := h.lower_le
  have hslots := hs.2.1
  have hfit : page.header.free_space_upper_bound + (page.item_offset s - page.header.free_space_upper_bound) ≤ 8176 := by
    omega
  obtain ⟨bytes, hread, hget⟩ := substrData_eq state.1.data hfit
  refine ⟨(bytes.getD · 0), ?_, hget⟩
  unfold moveData
  rw [hoff, hbytes, if_pos (by omega)]
  simp only [hread]
  congr 1
  apply writeBytes_eq
  · intro i hi
    refine ⟨rfl, ?_⟩
    have hbehind : i = 0 ∨ 6 * s ≤ page.header.free_space_upper_bound + page.item_length s := Or.inr (by omega)
    have hslot := slot_overwrite state.1 (bytes.getD · 0) hs.1 hbehind
    rw [hslot.2.2, hm.length_eq s hs.1 hs.2.1]
  · omega

/-- A byte of another record is not in the hole. -/
private theorem outside_hole (h : page.Valid) (hs : page.Stored s) (hi : page.Stored i) (his : i ≠ s) {k : Nat}
    (hk : k < page.item_length i) : page.item_offset i + k < page.item_offset s ∨
      page.item_offset s + page.item_length s ≤ page.item_offset i + k := by
  by_contra hover
  exact his (h.tiles.unique i s (page.item_offset i + k) hi hs ⟨by omega, by omega⟩ ⟨by omega, by omega⟩)

/-- In front of the lowest non-empty record only empty ones have their offset. -/
private theorem Moved.bytes_zero {state : Page × Nat × Nat} (hm : page.Moved s state) (h : page.Valid)
    (hlow : page.item_offset s = page.header.free_space_upper_bound) : state.2.2 = 0 := by
  obtain ⟨l, -, hl, hsum⟩ := hm.bytes_eq
  rw [hsum]
  apply List.sum_eq_zero
  intro x hx
  obtain ⟨a, ha, rfl⟩ := List.mem_map.mp hx
  obtain ⟨hstored, hlt⟩ := (hl a).mp ha
  by_contra hne
  have hbounds := h.tiles.bounds hstored (Nat.pos_of_ne_zero hne)
  omega

/-- The block that is moved is all that lies in front of the hole. -/
private theorem Moved.block {state : Page × Nat × Nat} (hm : page.Moved s state) (h : page.Valid) (hs : page.Stored s)
    (hmov : page.Movable s) (hpos : 0 < page.item_length s)
    (hlt : page.header.free_space_upper_bound < page.item_offset s) :
    state.2.1 = page.header.free_space_upper_bound ∧
      state.2.2 = page.item_offset s - page.header.free_space_upper_bound := by
  have hbounds := h.tiles.bounds hs hpos
  obtain ⟨r, hr, hroff, -⟩ := h.tiles.exists_lowest (by omega)
  constructor
  · have hmove := hm.move_le r hr (by omega)
    rcases hmov with hzero | heq | hfront
    · omega
    · omega
    · rcases hm.move_mem with heq | ⟨i, hi, hlti, heq⟩
      · omega
      · have hge := hfront i hi hlti
        omega
  · obtain ⟨l, hnodup, hl, hsum⟩ := hm.bytes_eq
    rw [hsum]
    exact (h.tiles.below hs hpos).sum_eq hnodup hl

/-- Closing an empty hole, the slots stay as they are. -/
private theorem Moved.closed_empty {state : Page × Nat × Nat} (hm : page.Moved s state) (h : page.Valid)
    (hzero : page.item_length s = 0) : page.Closed state.1 s := by
  have hlower := h.lower_eq
  have hle := h.lower_le
  refine ⟨hm.header_eq, hm.used_eq, hm.length_eq, hm.offset_eq, ?_⟩
  intro i hi his k hk
  have hin := h.tiles.inside i (page.item_offset i + k) hi ⟨by omega, by omega⟩
  have hoff : state.1.item_offset i = page.item_offset i := by
    rw [hm.offset_eq i hi.1 hi.2.1, hzero, Nat.add_zero, ite_self]
  rw [hoff, hm.data_eq _ (by omega) (by omega)]

/-- Closing a hole in front of all records, no byte is moved. -/
private theorem Moved.closed_lowest {state : Page × Nat × Nat} (hm : page.Moved s state) (h : page.Valid)
    (hs : page.Stored s) (hlow : page.item_offset s = page.header.free_space_upper_bound) :
    page.Closed state.1 s := by
  have hlower := h.lower_eq
  have hle := h.lower_le
  refine ⟨hm.header_eq, hm.used_eq, hm.length_eq, hm.offset_eq, ?_⟩
  intro i hi his k hk
  have hin := h.tiles.inside i (page.item_offset i + k) hi ⟨by omega, by omega⟩
  have hbounds := h.tiles.bounds hi (by omega)
  have hnot : ¬ page.Before s i := fun hb => absurd hb.2 (by omega)
  rw [hm.offset_eq i hi.1 hi.2.1, if_neg hnot, hm.data_eq _ (by omega) (outside_hole h hs hi his hk)]

/-- Closing any other hole, the records in front of it are moved up to its end. -/
private theorem Moved.closed_block {state : Page × Nat × Nat} (hm : page.Moved s state) (h : page.Valid)
    (hs : page.Stored s) (hpos : 0 < page.item_length s) {byte : Nat → UInt8}
    (hbyte : ∀ k, k < page.item_offset s - page.header.free_space_upper_bound →
      byte k = state.1.data (page.header.free_space_upper_bound + k)) :
    page.Closed (state.1.overwrite (page.header.free_space_upper_bound + page.item_length s)
      (page.item_offset s - page.header.free_space_upper_bound) byte) s := by
  have hlower := h.lower_eq
  have hle := h.lower_le
  have hbounds := h.tiles.bounds hs hpos
  have hslot : ∀ i, 1 ≤ i → i ≤ page.header.num_slots → _ := fun i hi (hi' : i ≤ page.header.num_slots) =>
    slot_overwrite state.1 byte hi (n := page.item_offset s - page.header.free_space_upper_bound)
      (s := page.header.free_space_upper_bound + page.item_length s) (Or.inr (by omega))
  refine ⟨hm.header_eq, ?_, ?_, ?_, ?_⟩
  · intro i hi hi'
    rw [(hslot i hi hi').1, hm.used_eq i hi hi']
  · intro i hi hi'
    rw [(hslot i hi hi').2.2, hm.length_eq i hi hi']
  · intro i hi hi'
    rw [(hslot i hi hi').2.1, hm.offset_eq i hi hi']
  · intro i hi his k hk
    have hboundsi := h.tiles.bounds hi (by omega)
    rw [(hslot i hi.1 hi.2.1).2.1, hm.offset_eq i hi.1 hi.2.1]
    by_cases hb : page.Before s i
    · -- the record was in front of the hole and was moved
      have hends := h.tiles.ends_before hi hs hpos hb.2
      obtain ⟨m, hm'⟩ := Nat.exists_eq_add_of_le hboundsi.1
      have hpos' : page.item_offset i + page.item_length s + k =
          page.header.free_space_upper_bound + page.item_length s + (m + k) := by omega
      rw [if_pos hb, hpos', overwrite_data (by omega), hbyte _ (by omega), ← Nat.add_assoc, ← hm',
        hm.data_eq _ (by omega) (Or.inl (by omega))]
    · have hge : page.item_offset s ≤ page.item_offset i := by
        by_contra hnot
        exact hb ⟨hi.2.2, by omega⟩
      have hlater : page.item_offset s + page.item_length s ≤ page.item_offset i + k := by
        have hout := outside_hole h hs hi his hk
        omega
      rw [if_neg hb, overwrite_data_of (by omega), hm.data_eq _ (by omega) (Or.inr hlater)]

/-- `deleteRecord` closes the hole. -/
theorem close_spec (h : page.Valid) (hs : page.Stored s) (hmov : page.Movable s) :
    ∃ page', ((page.erased s).shiftSlots s).1.moveData s ((page.erased s).shiftSlots s).2.1
      ((page.erased s).shiftSlots s).2.2 = .ok page' ∧ page.Closed page' s := by
  have hm : page.Moved s ((page.erased s).shiftSlots s) := shiftSlots_moved h hs
  by_cases hpos : 0 < page.item_length s
  · have hbounds := h.tiles.bounds hs hpos
    by_cases hlow : page.item_offset s = page.header.free_space_upper_bound
    · exact ⟨_, moveData_none (hm.bytes_zero h hlow), hm.closed_lowest h hs hlow⟩
    · have hlt : page.header.free_space_upper_bound < page.item_offset s := by omega
      obtain ⟨hoff, hbytes⟩ := hm.block h hs hmov hpos hlt
      obtain ⟨byte, hmove, hbyte⟩ := moveData_block h hs hpos hlt hm hoff hbytes
      exact ⟨_, hmove, hm.closed_block h hs hpos hbyte⟩
  · have hzero : page.item_length s = 0 := by omega
    exact ⟨_, moveData_empty h hs hzero hm, hm.closed_empty h hzero⟩

end Close

end Page

end Cs564
