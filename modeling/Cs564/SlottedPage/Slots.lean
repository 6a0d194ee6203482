import Cs564.SlottedPage.Page
/-!
# Reading and writing slots

What the assignments to a slot and the byte loops do to the fields of every slot and to the bytes outside.
-/

namespace Cs564

/-! ### Numbers in memory -/

theorem read16_congr {data data' : Nat → UInt8} {pos : Nat} (h : data' pos = data pos)
    (h' : data' (pos + 1) = data (pos + 1)) : read16 data' pos = read16 data pos := by
  unfold read16
  rw [h, h']

theorem read16_lt (data : Nat → UInt8) (pos : Nat) : read16 data pos < 2 ^ 16 := by
  unfold read16
  have hlow := (data pos).toNat_lt
  have hhigh := (data (pos + 1)).toNat_lt
  omega

theorem read16_write16 (data : Nat → UInt8) (pos : Nat) {value : Nat} (h : value < 2 ^ 16) :
    read16 (write16 data pos value) pos = value := by
  unfold read16 write16
  rw [if_pos rfl, if_neg (by omega), if_pos rfl, UInt8.toNat_ofNat', UInt8.toNat_ofNat']
  omega

theorem write16_of_ne (data : Nat → UInt8) {pos q : Nat} (value : Nat) (h : q ≠ pos) (h' : q ≠ pos + 1) :
    write16 data pos value q = data q := by
  unfold write16
  rw [if_neg h, if_neg h']

namespace Page

variable {page page' : Page} {i j : Nat}

/-! ### Slots -/

theorem getSlot_add (h : 1 ≤ i) : getSlot i + 6 = 6 * i := by
  unfold getSlot pageSlotSize
  omega

/-- Two slots do not share bytes. -/
theorem getSlot_apart (hi : 1 ≤ i) (hj : 1 ≤ j) (hij : i ≠ j) :
    getSlot i + 6 ≤ getSlot j ∨ getSlot j + 6 ≤ getSlot i := by
  unfold getSlot pageSlotSize
  omega

theorem used_eq (hi : 1 ≤ i) : page.used i = (page.data (getSlot i) != 0) := by
  unfold used
  exact if_neg (Nat.pos_iff_ne_zero.mp hi)

/-- The same bytes make the same slot. -/
theorem slot_congr (hi : 1 ≤ i)
    (h : ∀ q, getSlot i ≤ q → q < getSlot i + 6 → page'.data q = page.data q) :
    page'.used i = page.used i ∧ page'.item_offset i = page.item_offset i ∧
      page'.item_length i = page.item_length i := by
  refine ⟨?_, ?_, ?_⟩
  · rw [used_eq hi, used_eq hi, h _ (by omega) (by omega)]
  · exact read16_congr (h _ (by omega) (by omega)) (h _ (by omega) (by omega))
  · exact read16_congr (h _ (by omega) (by omega)) (h _ (by omega) (by omega))

theorem setUsed_data {value : Bool} {q : Nat} (h : q < getSlot i ∨ getSlot i + 6 ≤ q) :
    (page.setUsed i value).data q = page.data q := by
  unfold setUsed setByte
  exact if_neg (by omega)

theorem setOffset_data {value q : Nat} (h : q < getSlot i ∨ getSlot i + 6 ≤ q) :
    (page.setOffset i value).data q = page.data q :=
  write16_of_ne page.data value (by omega) (by omega)

theorem setLength_data {value q : Nat} (h : q < getSlot i ∨ getSlot i + 6 ≤ q) :
    (page.setLength i value).data q = page.data q :=
  write16_of_ne page.data value (by omega) (by omega)

@[simp] theorem setUsed_header {value : Bool} : (page.setUsed i value).header = page.header := rfl

@[simp] theorem setOffset_header {value : Nat} : (page.setOffset i value).header = page.header := rfl

@[simp] theorem setLength_header {value : Nat} : (page.setLength i value).header = page.header := rfl

theorem used_setUsed (hi : 1 ≤ i) (value : Bool) : (page.setUsed i value).used i = value := by
  rw [used_eq hi]
  unfold setUsed setByte
  cases value <;> simp

@[simp] theorem item_offset_setUsed (value : Bool) : (page.setUsed i value).item_offset i = page.item_offset i := by
  unfold item_offset setUsed setByte
  apply read16_congr
  · exact if_neg (by omega)
  · exact if_neg (by omega)

@[simp] theorem item_length_setUsed (value : Bool) : (page.setUsed i value).item_length i = page.item_length i := by
  unfold item_length setUsed setByte
  apply read16_congr
  · exact if_neg (by omega)
  · exact if_neg (by omega)

theorem used_setOffset (hi : 1 ≤ i) (value : Nat) : (page.setOffset i value).used i = page.used i := by
  have hdata : (page.setOffset i value).data (getSlot i) = page.data (getSlot i) :=
    write16_of_ne _ _ (by omega) (by omega)
  rw [used_eq hi, used_eq hi, hdata]

theorem item_offset_setOffset {value : Nat} (h : value < 2 ^ 16) : (page.setOffset i value).item_offset i = value :=
  read16_write16 page.data _ h

@[simp] theorem item_length_setOffset (value : Nat) :
    (page.setOffset i value).item_length i = page.item_length i := by
  unfold item_length setOffset
  exact read16_congr (write16_of_ne _ _ (by omega) (by omega)) (write16_of_ne _ _ (by omega) (by omega))

theorem used_setLength (hi : 1 ≤ i) (value : Nat) : (page.setLength i value).used i = page.used i := by
  have hdata : (page.setLength i value).data (getSlot i) = page.data (getSlot i) :=
    write16_of_ne _ _ (by omega) (by omega)
  rw [used_eq hi, used_eq hi, hdata]

@[simp] theorem item_offset_setLength (value : Nat) :
    (page.setLength i value).item_offset i = page.item_offset i := by
  unfold item_offset setLength
  exact read16_congr (write16_of_ne _ _ (by omega) (by omega)) (write16_of_ne _ _ (by omega) (by omega))

theorem item_length_setLength {value : Nat} (h : value < 2 ^ 16) : (page.setLength i value).item_length i = value :=
  read16_write16 page.data _ h

theorem item_length_lt (page : Page) (i : Nat) : page.item_length i < 2 ^ 16 := read16_lt page.data _

/-! ### The byte loops -/

section Loop

variable {bound start : Page → Nat} {byte : Nat → UInt8} {n s : Nat}

/-- A page with a block of bytes written over. -/
def overwrite (page : Page) (s n : Nat) (byte : Nat → UInt8) : Page :=
  { page with data := fun q => if s ≤ q ∧ q < s + n then byte (q - s) else page.data q }

@[simp] theorem overwrite_header : (page.overwrite s n byte).header = page.header := rfl

theorem overwrite_data_of {q : Nat} (h : q < s ∨ s + n ≤ q) : (page.overwrite s n byte).data q = page.data q :=
  if_neg (by omega)

theorem overwrite_data {k : Nat} (h : k < n) : (page.overwrite s n byte).data (s + k) = byte k := by
  unfold overwrite
  simp only
  rw [if_pos (by omega), Nat.add_sub_cancel_left]

private theorem overwrite_step {i : Nat} (page : Page) :
    (page.overwrite s i byte).setByte (i + s) (byte i) = page.overwrite s (i + 1) byte := by
  unfold overwrite setByte
  congr 1
  funext q
  by_cases hq : q = i + s
  · subst hq
    have hin : s ≤ i + s ∧ i + s < s + (i + 1) := by omega
    simp only [if_true, if_pos hin, Nat.add_sub_cancel]
  · by_cases hq' : s ≤ q ∧ q < s + i
    · have hin : s ≤ q ∧ q < s + (i + 1) := by omega
      simp only [if_neg hq, if_pos hq', if_pos hin]
    · have hout : ¬ (s ≤ q ∧ q < s + (i + 1)) := by omega
      simp only [if_neg hq, if_neg hq', if_neg hout]

/-- A loop whose bound and start do not depend on the bytes it writes. -/
theorem writeBytes_eq (h : ∀ i, i ≤ n → bound (page.overwrite s i byte) = n ∧ start (page.overwrite s i byte) = s)
    (hn : n < 2 ^ 16) : writeBytes bound start byte (2 ^ 16) 0 page = page.overwrite s n byte := by
  have hloop : ∀ fuel i, i ≤ n → n - i < fuel →
      writeBytes bound start byte fuel i (page.overwrite s i byte) = page.overwrite s n byte := by
    intro fuel
    induction fuel with
    | zero =>
      intro i hi hfuel
      omega
    | succ fuel ih =>
      intro i hi hfuel
      obtain ⟨hbound, hstart⟩ := h i hi
      rw [writeBytes, hbound, hstart]
      by_cases hlt : i < n
      · rw [if_pos hlt, overwrite_step]
        exact ih (i + 1) hlt (by omega)
      · have heq : i = n := by omega
        rw [if_neg hlt, heq]
  have hnone : page.overwrite s 0 byte = page := by
    unfold overwrite
    congr 1
    funext q
    exact if_neg (by omega)
  have hall := hloop (2 ^ 16) 0 (Nat.zero_le n) (by omega)
  rwa [hnone] at hall

/-- Bytes written over themselves. -/
theorem overwrite_self (h : ∀ k, k < n → byte k = page.data (s + k)) : page.overwrite s n byte = page := by
  unfold overwrite
  congr 1
  funext q
  by_cases hq : s ≤ q ∧ q < s + n
  · rw [if_pos hq, h (q - s) (by omega), Nat.add_sub_cancel' hq.1]
  · exact if_neg hq

/-- Bytes behind a slot do not change it. -/
theorem slot_overwrite (page : Page) (byte : Nat → UInt8) (hi : 1 ≤ i) (h : n = 0 ∨ 6 * i ≤ s) :
    (page.overwrite s n byte).used i = page.used i ∧ (page.overwrite s n byte).item_offset i = page.item_offset i ∧
      (page.overwrite s n byte).item_length i = page.item_length i := by
  apply slot_congr hi
  intro q hq hq'
  rw [getSlot_add hi] at hq'
  exact overwrite_data_of (by omega)

/-- The loops over the bytes of a record that lies behind its slot. -/
theorem writeBytes_slot (page : Page) (byte : Nat → UInt8) (hi : 1 ≤ i)
    (h : page.item_length i = 0 ∨ 6 * i ≤ page.item_offset i) :
    writeBytes (·.item_length i) (·.item_offset i) byte (2 ^ 16) 0 page =
      page.overwrite (page.item_offset i) (page.item_length i) byte := by
  apply writeBytes_eq _ (page.item_length_lt i)
  intro k hk
  have hview := slot_overwrite (n := k) (s := page.item_offset i) page byte hi (by omega)
  exact ⟨hview.2.2, hview.2.1⟩

end Loop

end Page

end Cs564
