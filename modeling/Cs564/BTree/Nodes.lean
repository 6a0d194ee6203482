import Cs564.Lib.Arrays
import Cs564.Types
import Mathlib.Algebra.Order.Ring.Int
import Mathlib.Data.List.TakeWhile

/-!
# Pages of the index file

A page of the index is cast to `IndexMetaInfo`, `LeafNodeInt` or `NonLeafNodeInt` (`btree.h`).  `Page` records the
structure that was last written to the page; reading a page as another structure than that goes through its 32-bit
words, as the casts of the source do.  The rest of the file is the array work of `insertUnderNode`, one definition
for each block of the source.
-/

namespace Cs564.BTree

/-- `INT_MAX` of `limits.h`. -/
abbrev INT_MAX : Int := 2147483647

/-- `INT_MIN` of `limits.h`. -/
abbrev INT_MIN : Int := -2147483648

/-- The values of the C++ type `int`. -/
def IsInt (k : Int) : Prop := INT_MIN ≤ k ∧ k ≤ INT_MAX

instance (k : Int) : Decidable (IsInt k) := inferInstanceAs (Decidable (_ ∧ _))

/-- Number of key slots in a leaf: page size less the sibling pointer, over the sizes of a key and a `RecordId`. -/
def INTARRAYLEAFSIZE : Nat := (pageSize - 4) / (4 + 8)

/-- Number of key slots in a non-leaf: page size less level and extra page number, over key and page number. -/
def INTARRAYNONLEAFSIZE : Nat := (pageSize - 4 - 4) / (4 + 4)

/-- The member `leafOccupancy`, as the constructor sets it. -/
def leafOccupancy : Nat := INTARRAYLEAFSIZE - 1

/-- The member `nodeOccupancy`, as the constructor sets it. -/
def nodeOccupancy : Nat := INTARRAYNONLEAFSIZE - 1

@[simp] theorem leafOccupancy_eq : leafOccupancy = 681 := rfl

@[simp] theorem nodeOccupancy_eq : nodeOccupancy = 1022 := rfl

/-- `RIDKeyPair<int>`. -/
structure RIDKeyPair where
  rid : RecordId
  key : Int
deriving DecidableEq, Repr

/-- `PageKeyPair<int>`. -/
structure PageKeyPair where
  pageNo : PageId
  key : Int
deriving DecidableEq, Repr

/-- The attribute types of `btree.h`. -/
inductive Datatype | INTEGER | DOUBLE | STRING
deriving DecidableEq, Repr

/-- Contents of the header page of the index. -/
structure IndexMetaInfo where
  /-- the 20 characters of the array `relationName` -/
  relationName : Nat → Nat
  attrByteOffset : Int
  attrType : Datatype
  rootPageNo : PageId
  height : Int

structure NonLeafNodeInt where
  level : Int
  keyArray : Nat → Int
  pageNoArray : Nat → PageId

structure LeafNodeInt where
  keyArray : Nat → Int
  ridArray : Nat → RecordId
  rightSibPageNo : PageId

/-- A page of the index file, by the structure that was last written to it. -/
inductive Page
  | fresh
  | metaInfo (m : IndexMetaInfo)
  | leaf (n : LeafNodeInt)
  | nonLeaf (n : NonLeafNodeInt)

/-! ### Casts -/

/-- Reading 32 bits as `int`. -/
def asInt (n : Int) : Int := n.bmod (2 ^ 32)

/-- Reading 32 bits as `uint32_t`. -/
def asUInt (w : Int) : Nat := (w % 2 ^ 32).toNat

/-- A fresh `Page()`: the header fields `free_space_lower_bound = 0` and `free_space_upper_bound = DATA_SIZE` share
the first word, all other bytes are 0. -/
def freshWord (k : Nat) : Int := if k = 0 then asInt (DATA_SIZE * 2 ^ 16) else 0

def Datatype.code : Datatype → Int
  | INTEGER => 0
  | DOUBLE => 1
  | STRING => 2

/-- The 32-bit words of a page, as `int`s. -/
def Page.word : Page → Nat → Int
  | fresh, k => freshWord k
  | metaInfo m, k =>
    if k < 5 then asInt (m.relationName (4 * k) + 2 ^ 8 * m.relationName (4 * k + 1)
      + 2 ^ 16 * m.relationName (4 * k + 2) + 2 ^ 24 * m.relationName (4 * k + 3))
    else if k = 5 then m.attrByteOffset
    else if k = 6 then m.attrType.code
    else if k = 7 then asInt m.rootPageNo
    else if k = 8 then m.height
    else 0
  | leaf n, k =>
    if k < INTARRAYLEAFSIZE then n.keyArray k
    else if k < 3 * INTARRAYLEAFSIZE then
      let rid := n.ridArray ((k - INTARRAYLEAFSIZE) / 2)
      if (k - INTARRAYLEAFSIZE) % 2 = 0 then asInt rid.page_number
      else asInt (rid.slot_number + 2 ^ 16 * rid.padding)
    else if k = 3 * INTARRAYLEAFSIZE then asInt n.rightSibPageNo
    else 0
  | nonLeaf n, k =>
    if k = 0 then n.level
    else if k < 1 + INTARRAYNONLEAFSIZE then n.keyArray (k - 1)
    else asInt (n.pageNoArray (k - 1 - INTARRAYNONLEAFSIZE))

/-- `reinterpret_cast<IndexMetaInfo *>`. -/
def Page.asMetaInfo : Page → IndexMetaInfo
  | metaInfo m => m
  | p =>
    { relationName := fun i => asUInt (p.word (i / 4)) / 2 ^ (8 * (i % 4)) % 2 ^ 8
      attrByteOffset := p.word 5
      attrType := if p.word 6 = 0 then .INTEGER else if p.word 6 = 1 then .DOUBLE else .STRING
      rootPageNo := asUInt (p.word 7)
      height := p.word 8 }

/-- `reinterpret_cast<LeafNodeInt *>`. -/
def Page.asLeaf : Page → LeafNodeInt
  | leaf n => n
  | p =>
    { keyArray := p.word
      ridArray := fun i =>
        let w := asUInt (p.word (INTARRAYLEAFSIZE + 2 * i + 1))
        ⟨asUInt (p.word (INTARRAYLEAFSIZE + 2 * i)), w % 2 ^ 16, w / 2 ^ 16⟩
      rightSibPageNo := asUInt (p.word (3 * INTARRAYLEAFSIZE)) }

/-- `reinterpret_cast<NonLeafNodeInt *>`. -/
def Page.asNonLeaf : Page → NonLeafNodeInt
  | nonLeaf n => n
  | p =>
    { level := p.word 0
      keyArray := fun i => p.word (1 + i)
      pageNoArray := fun i => asUInt (p.word (1 + INTARRAYNONLEAFSIZE + i)) }

@[simp] theorem asLeaf_leaf (n : LeafNodeInt) : (Page.leaf n).asLeaf = n := rfl

@[simp] theorem asNonLeaf_nonLeaf (n : NonLeafNodeInt) : (Page.nonLeaf n).asNonLeaf = n := rfl

@[simp] theorem asMetaInfo_metaInfo (m : IndexMetaInfo) : (Page.metaInfo m).asMetaInfo = m := rfl

/-! ### Leaves -/

namespace LeafNodeInt

/-- The number of slots in this node. -/
def entryNum (curNode : LeafNodeInt) : Nat :=
  firstIndex (fun i => (curNode.ridArray i).page_number == 0) (leafOccupancy + 1)

/-- The position to insert a key. -/
def insertPos (curNode : LeafNodeInt) (key : Int) : Nat :=
  firstIndex (fun i => decide (key < curNode.keyArray i) || (curNode.ridArray i).page_number == 0) (leafOccupancy + 1)

/-- Makes room at `pos` and writes the entry there. -/
def insertAt (curNode : LeafNodeInt) (entry : RIDKeyPair) (entryNum pos : Nat) : LeafNodeInt :=
  let curNode :=
    if pos < leafOccupancy then
      { curNode with
        keyArray := copyArray curNode.keyArray pos curNode.keyArray (pos + 1) ((entryNum : Int) - pos)
        ridArray := copyArray curNode.ridArray pos curNode.ridArray (pos + 1) ((entryNum : Int) - pos) }
    else curNode
  { curNode with
    keyArray := Function.update curNode.keyArray pos entry.key
    ridArray := Function.update curNode.ridArray pos entry.rid }

/-- Writes the end mark `[INT_MAX, Page::INVALID_NUMBER]` at `i`. -/
def setBound (curNode : LeafNodeInt) (i : Nat) : LeafNodeInt :=
  { curNode with
    ridArray := Function.update curNode.ridArray i { curNode.ridArray i with page_number := INVALID_NUMBER }
    keyArray := Function.update curNode.keyArray i INT_MAX }

/-- The new right sibling of a split leaf. -/
def rightHalf (curNode newRightSibling : LeafNodeInt) : LeafNodeInt :=
  let newRightSibling : LeafNodeInt :=
    { keyArray := copyArray curNode.keyArray (leafOccupancy / 2 + 1) newRightSibling.keyArray 0
        ((leafOccupancy + 1) / 2 : Nat)
      ridArray := copyArray curNode.ridArray (leafOccupancy / 2 + 1) newRightSibling.ridArray 0
        ((leafOccupancy + 1) / 2 : Nat)
      rightSibPageNo := curNode.rightSibPageNo }
  newRightSibling.setBound ((leafOccupancy + 1) / 2)

/-- What stays in a split leaf. -/
def leftHalf (curNode : LeafNodeInt) (newPageId : PageId) : LeafNodeInt :=
  { curNode with rightSibPageNo := newPageId }.setBound (leafOccupancy / 2 + 1)

end LeafNodeInt

/-! ### Non-leaves -/

namespace NonLeafNodeInt

/-- The position of the page number to go down the tree. -/
def childPos (curNode : NonLeafNodeInt) (key : Int) : Nat :=
  firstIndex (fun i => decide (key < curNode.keyArray i) || curNode.pageNoArray (i + 1) == 0) (nodeOccupancy + 1)

/-- How many children the node has. -/
def entryNum (curNode : NonLeafNodeInt) : Nat :=
  firstIndex (fun i => curNode.pageNoArray i == INVALID_NUMBER) (nodeOccupancy + 2)

/-- Makes room behind child `pos` and writes the new child there. -/
def insertAt (curNode : NonLeafNodeInt) (newChild : PageKeyPair) (entryNum pos : Nat) : NonLeafNodeInt :=
  let curNode :=
    if pos < nodeOccupancy then
      { curNode with
        keyArray := copyArray curNode.keyArray pos curNode.keyArray (pos + 1) ((entryNum : Int) - 1 - pos)
        pageNoArray :=
          copyArray curNode.pageNoArray (pos + 1) curNode.pageNoArray (pos + 2) ((entryNum : Int) - 1 - pos) }
    else curNode
  { curNode with
    keyArray := Function.update curNode.keyArray pos newChild.key
    pageNoArray := Function.update curNode.pageNoArray (pos + 1) newChild.pageNo }

/-- Writes the end mark behind the `children`-th child. -/
def setBound (curNode : NonLeafNodeInt) (children : Nat) : NonLeafNodeInt :=
  { curNode with
    pageNoArray := Function.update curNode.pageNoArray children INVALID_NUMBER
    keyArray := Function.update curNode.keyArray (children - 1) INT_MAX }

/-- The key between the two halves of a split node. -/
def newSlotKey (curNode : NonLeafNodeInt) : Int := curNode.keyArray ((nodeOccupancy + 1) / 2)

/-- The new right sibling of a split node. -/
def rightHalf (curNode newRightSibling : NonLeafNodeInt) : NonLeafNodeInt :=
  let newRightSibling : NonLeafNodeInt :=
    { level := curNode.level
      keyArray := copyArray curNode.keyArray ((nodeOccupancy + 1) / 2 + 1) newRightSibling.keyArray 0
        (nodeOccupancy / 2 : Nat)
      pageNoArray := copyArray curNode.pageNoArray ((nodeOccupancy + 1) / 2 + 1) newRightSibling.pageNoArray 0
        (nodeOccupancy / 2 + 1 : Nat) }
  newRightSibling.setBound (nodeOccupancy / 2 + 1)

/-- What stays in a split node. -/
def leftHalf (curNode : NonLeafNodeInt) : NonLeafNodeInt := curNode.setBound ((nodeOccupancy + 1) / 2 + 1)

/-- The new root over a split root; its other slots keep the bytes of the page. -/
def asNewRoot (newRootNode : NonLeafNodeInt) (rootPageNum : PageId) (newChild : PageKeyPair) (isLeaf : Bool) :
    NonLeafNodeInt :=
  { level := if isLeaf then 1 else 0
    keyArray := Function.update newRootNode.keyArray 0 newChild.key
    pageNoArray := Function.update (Function.update newRootNode.pageNoArray 0 rootPageNum) 1 newChild.pageNo }

end NonLeafNodeInt

end Cs564.BTree
