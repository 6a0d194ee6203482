/-!
# Identifiers

The identifiers of `types.h`.  Page numbers are natural numbers: where the file layer counts its pages in 32 bits,
the wrap-around is written there.
-/

namespace Cs564

/-- Identifier for a page in a file. -/
abbrev PageId := Nat

/-- Identifier for a slot in a page. -/
abbrev SlotId := Nat

/-- Identifier for a frame in the buffer pool. -/
abbrev FrameId := Nat

/-- `Page::INVALID_NUMBER`. -/
abbrev INVALID_NUMBER : PageId := 0

/-- `Page::SIZE`, the page size in bytes. -/
abbrev pageSize : Nat := 8192

/-- `sizeof(PageHeader)`. -/
abbrev pageHeaderSize : Nat := 16

/-- `Page::DATA_SIZE`. -/
abbrev DATA_SIZE : Nat := pageSize - pageHeaderSize

/-- Identifier for a record in a page. -/
structure RecordId where
  page_number : PageId
  slot_number : SlotId
  padding : Nat
deriving DecidableEq, Repr

end Cs564
