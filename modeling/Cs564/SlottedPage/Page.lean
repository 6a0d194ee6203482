import Mathlib.Algebra.Order.Ring.Int
import Mathlib.Data.List.Basic
import Cs564.Types
/-!
# Slotted pages

The class `Page` of `page.h` and `page.cpp` (of `p3`; the one of `p2` differs in the type of `data_` only), byte by
byte: the slot array and the records lie in the same `data_`, a slot being the six bytes of a `PageSlot`.  The header
fields and the slot fields are 16-bit numbers.

A function that may throw returns the page it leaves together with the result.
-/

namespace Cs564

/-- `PageHeader`. -/
structure PageHeader where
  free_space_lower_bound : Nat
  free_space_upper_bound : Nat
  num_slots : Nat
  num_free_slots : Nat
  current_page_number : PageId
  next_page_number : PageId
deriving DecidableEq, Repr

/-- The content of `std::uint16_t` after an assignment. -/
def u16 (value : Nat) : Nat := value % 2 ^ 16

/-- `Page`.  From `DATA_SIZE` on, `data` is the memory behind the object. -/
structure Page where
  header : PageHeader
  data : Nat → UInt8

/-- What the functions of `Page` throw; `assertion` is the failing `assert` of `getAvailableSlot`, `outOfRange` is thrown
by `std::string::substr`. -/
inductive PageError where
  | insufficientSpace (page_number : PageId) (requested available : Nat)
  | invalidRecord (record_id : RecordId) (page_number : PageId)
  | invalidSlot (page_number : PageId) (slot_number : SlotId)
  | slotInUse (page_number : PageId) (slot_number : SlotId)
  | assertion
  | outOfRange
deriving DecidableEq, Repr

/-- `Page::INVALID_SLOT`. -/
abbrev INVALID_SLOT : SlotId := 0

/-- `sizeof(PageSlot)`. -/
abbrev pageSlotSize : Nat := 6

/-- A `std::uint16_t` in memory, the low byte first. -/
def read16 (data : Nat → UInt8) (pos : Nat) : Nat := (data pos).toNat + 256 * (data (pos + 1)).toNat

/-- An assignment to a `std::uint16_t` in memory. -/
def write16 (data : Nat → UInt8) (pos value : Nat) : Nat → UInt8 := fun q =>
  if q = pos then UInt8.ofNat value else if q = pos + 1 then UInt8.ofNat (value / 256) else data q

/-- `std::string(data_, DATA_SIZE).substr(pos, count)`. -/
def substrData (data : Nat → UInt8) (pos count : Nat) : Except PageError (List UInt8) :=
  if pos ≤ DATA_SIZE then .ok ((List.range (min count (DATA_SIZE - pos))).map fun k => data (pos + k))
  else .error .outOfRange

namespace Page

variable (page : Page)

/-- `Page::initialize`. -/
def initializePage : Page :=
  { header := { free_space_lower_bound := 0, free_space_upper_bound := DATA_SIZE, num_slots := 0, num_free_slots := 0,
                current_page_number := INVALID_NUMBER, next_page_number := INVALID_NUMBER }
    data := fun pos => if pos < DATA_SIZE then 0 else page.data pos }

/-- `page_number`. -/
def page_number : PageId := page.header.current_page_number

/-- `set_page_number`. -/
def set_page_number (new_page_number : PageId) : Page :=
  { page with header := { page.header with current_page_number := new_page_number } }

/-- `getFreeSpace`. -/
def getFreeSpace : Nat := u16 (page.header.free_space_upper_bound + 2 ^ 16 - page.header.free_space_lower_bound)

/-- `getSlot`, as the index of the slot in `data_`. -/
def getSlot (slot_number : SlotId) : Nat := (slot_number - 1) * pageSlotSize

/-- `getSlot(slot_number)->used`.  Slot 0 is the end of the header, with its first byte in the page number.  The code stores
0 and 1 in it; where a slot that is none has another byte, reading it as a `bool` is undefined, and it is true here. -/
def used (slot_number : SlotId) : Bool :=
  if slot_number = INVALID_SLOT then page.header.current_page_number / 2 ^ 16 % 2 ^ 8 != 0
  else page.data (getSlot slot_number) != 0

/-- `getSlot(slot_number)->item_offset`, for the slots from 1 on.  Reading that of slot 0, in front of `data_`, is undefined
in the source, and gives that of slot 1 here. -/
def item_offset (slot_number : SlotId) : Nat := read16 page.data (getSlot slot_number + 2)

/-- `getSlot(slot_number)->item_length`, for the slots from 1 on like `item_offset`. -/
def item_length (slot_number : SlotId) : Nat := read16 page.data (getSlot slot_number + 4)

/-- An assignment to a byte of `data_`. -/
def setByte (pos : Nat) (byte : UInt8) : Page :=
  { page with data := fun q => if q = pos then byte else page.data q }

/-- An assignment to `used`. -/
def setUsed (slot_number : SlotId) (value : Bool) : Page :=
  page.setByte (getSlot slot_number) (if value then 1 else 0)

/-- An assignment to `item_offset`. -/
def setOffset (slot_number : SlotId) (value : Nat) : Page :=
  { page with data := write16 page.data (getSlot slot_number + 2) value }

/-- An assignment to `item_length`. -/
def setLength (slot_number : SlotId) (value : Nat) : Page :=
  { page with data := write16 page.data (getSlot slot_number + 4) value }

/-- The loops `for (i = 0; i < bound; i++) data_[i + start] = byte(i)`; the bound and the start are read in every
round. -/
def writeBytes (bound start : Page → Nat) (byte : Nat → UInt8) : Nat → Nat → Page → Page
  | 0, _, page => page
  | fuel + 1, i, page =>
    if i < bound page then writeBytes bound start byte fuel (i + 1) (page.setByte (i + start page) (byte i))
    else page

/-- `validateRecordId`. -/
def validateRecordId (record_id : RecordId) : Except PageError Unit :=
  if record_id.page_number ≠ page.page_number then .error (.invalidRecord record_id page.page_number)
  else if !page.used record_id.slot_number then .error (.invalidRecord record_id page.page_number)
  else .ok ()

/-- `hasSpaceForRecord`. -/
def hasSpaceForRecord (record_data : List UInt8) : Bool :=
  let record_size := record_data.length
  let record_size := if page.header.num_free_slots = 0 then record_size + pageSlotSize else record_size
  record_size ≤ page.getFreeSpace

/-- `getAvailableSlot`. -/
def getAvailableSlot : Page × Except PageError SlotId :=
  if page.header.num_free_slots > 0 then
    match (List.range' 1 page.header.num_slots).find? fun i => !page.used i with
    | some slot_number => (page, .ok slot_number)
    | none => (page, .error .assertion)
  else
    let num_slots := u16 (page.header.num_slots + 1)
    ({ page with header := { page.header with num_slots := num_slots
                                              num_free_slots := u16 (page.header.num_free_slots + 1)
                                              free_space_lower_bound := u16 (pageSlotSize * num_slots) } },
      if u16 (page.header.num_slots + 1) = INVALID_SLOT then .error .assertion
      else .ok (u16 (page.header.num_slots + 1)))

/-- `insertRecordInSlot`. -/
def insertRecordInSlot (slot_number : SlotId) (record_data : List UInt8) : Page × Except PageError Unit :=
  if slot_number > page.header.num_slots ∨ slot_number = INVALID_SLOT then
    (page, .error (.invalidSlot page.page_number slot_number))
  else if page.used slot_number then (page, .error (.slotInUse page.page_number slot_number))
  else
    let record_length := record_data.length
    let page := page.setUsed slot_number true
    let page := page.setLength slot_number (u16 record_length)
    let page := page.setOffset slot_number (u16 (page.header.free_space_upper_bound + 2 ^ 16 - record_length % 2 ^ 16))
    let page := { page with header := { page.header with free_space_upper_bound := page.item_offset slot_number
                                                         num_free_slots := u16 (page.header.num_free_slots + (2 ^ 16 - 1)) } }
    (writeBytes (·.item_length slot_number) (·.item_offset slot_number) (record_data.getD · 0) (2 ^ 16) 0 page, .ok ())

/-- `insertRecord`. -/
def insertRecord (record_data : List UInt8) : Page × Except PageError RecordId :=
  if !page.hasSpaceForRecord record_data then
    (page, .error (.insufficientSpace page.page_number record_data.length page.getFreeSpace))
  else
    match page.getAvailableSlot with
    | (page, .error e) => (page, .error e)
    | (page, .ok slot_number) =>
      match page.insertRecordInSlot slot_number record_data with
      | (page, .error e) => (page, .error e)
      | (page, .ok ()) => (page, .ok { page_number := page.page_number, slot_number := slot_number, padding := 0 })

/-- `getRecord`. -/
def getRecord (record_id : RecordId) : Except PageError (List UInt8) :=
  match page.validateRecordId record_id with
  | .error e => .error e
  | .ok () => substrData page.data (page.item_offset record_id.slot_number) (page.item_length record_id.slot_number)

/-- One round of the loop of `deleteRecord` over the slots, with `move_offset` and `move_bytes`. -/
def shiftSlot (slot_number : SlotId) (state : Page × Nat × Nat) (i : SlotId) : Page × Nat × Nat :=
  let page := state.1
  let move_offset := state.2.1
  let move_bytes := state.2.2
  if page.used i ∧ page.item_offset i < page.item_offset slot_number then
    (page.setOffset i (u16 (page.item_offset i + page.item_length slot_number)),
      if page.item_offset i < move_offset then page.item_offset i else move_offset,
      move_bytes + page.item_length i)
  else state

/-- The loop of `deleteRecord` over the slots. -/
def shiftSlots (slot_number : SlotId) : Page × Nat × Nat :=
  (List.range' 1 page.header.num_slots).foldl (shiftSlot slot_number) (page, page.item_offset slot_number, 0)

/-- The move of the records in front of the hole. -/
def moveData (slot_number : SlotId) (move_offset move_bytes : Nat) : Except PageError Page :=
  if move_bytes > 0 then
    match substrData page.data move_offset move_bytes with
    | .error e => .error e
    | .ok data_to_move =>
      .ok (writeBytes (fun _ => move_bytes) (fun page => move_offset + page.item_length slot_number)
        (data_to_move.getD · 0) (2 ^ 16) 0 page)
  else .ok page

/-- The slot is marked as unused. -/
def releaseSlot (slot_number : SlotId) : Page :=
  let page := { page with header := { page.header with
    free_space_upper_bound := u16 (page.header.free_space_upper_bound + page.item_length slot_number) } }
  let page := ((page.setUsed slot_number false).setOffset slot_number 0).setLength slot_number 0
  { page with header := { page.header with num_free_slots := u16 (page.header.num_free_slots + 1) } }

/-- The slots that `deleteRecord` frees at the end of the slot array, the last one among them. -/
def numSlotsToDelete : Nat :=
  1 + ((List.range' 1 (page.header.num_slots - 1)).takeWhile fun i => !page.used (page.header.num_slots - i)).length

/-- The slot array without the unused slots at its end. -/
def compactSlots : Page :=
  let num_slots_to_delete := page.numSlotsToDelete
  { page with header := { page.header with
      num_slots := u16 (page.header.num_slots + 2 ^ 16 - num_slots_to_delete)
      num_free_slots := u16 (page.header.num_free_slots + 2 ^ 16 - num_slots_to_delete)
      free_space_lower_bound := u16 (page.header.free_space_lower_bound + 2 ^ 16 -
        pageSlotSize * num_slots_to_delete) } }

/-- `deleteRecord(record_id, allow_slot_compaction)`. -/
def deleteRecordWith (record_id : RecordId) (allow_slot_compaction : Bool) : Page × Except PageError Unit :=
  match page.validateRecordId record_id with
  | .error e => (page, .error e)
  | .ok () =>
    let slot_number := record_id.slot_number
    let page := writeBytes (·.item_length slot_number) (·.item_offset slot_number) (fun _ => 0) (2 ^ 16) 0 page
    let shifted := page.shiftSlots slot_number
    match shifted.1.moveData slot_number shifted.2.1 shifted.2.2 with
    | .error e => (shifted.1, .error e)
    | .ok page =>
      let page := page.releaseSlot slot_number
      if allow_slot_compaction ∧ slot_number = page.header.num_slots then (page.compactSlots, .ok ())
      else (page, .ok ())

/-- `deleteRecord(record_id)`. -/
def deleteRecord (record_id : RecordId) : Page × Except PageError Unit := page.deleteRecordWith record_id true

/-- `updateRecord`. -/
def updateRecord (record_id : RecordId) (record_data : List UInt8) : Page × Except PageError Unit :=
  match page.validateRecordId record_id with
  | .error e => (page, .error e)
  | .ok () =>
    let free_space_after_delete := page.getFreeSpace + page.item_length record_id.slot_number
    if record_data.length > free_space_after_delete then
      (page, .error (.insufficientSpace page.page_number record_data.length free_space_after_delete))
    else
      match page.deleteRecordWith record_id false with
      | (page, .error e) => (page, .error e)
      | (page, .ok ()) => page.insertRecordInSlot record_id.slot_number record_data

end Page

end Cs564
