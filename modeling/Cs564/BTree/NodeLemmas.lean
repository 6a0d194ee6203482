import Cs564.BTree.Index
import Cs564.Lib.Sorted
import Mathlib.Algebra.Order.Ring.Int

/-!
# What the array work does to a node

`LeafHolds n es` and `NodeHolds n keys kids` say what a leaf and a non-leaf contain, end mark included.  The search
loops find the number of slots and the insert position, an insertion is `List.insertIdx`, and a split leaves the two
halves of the list, each with its end mark.  A non-leaf that was written by `insertUnderNode` is also `Closed`: the
key behind its last separator is `INT_MAX`; a root made by `insertEntry` has the bytes of a fresh page there.
-/

namespace Cs564.BTree

private theorem takeWhile_length_le {α : Type} (l : List α) (p : α → Bool) : (l.takeWhile p).length ≤ l.length :=
  (l.takeWhile_sublist p).length_le

private theorem copyArray_zero {α : Type} (src dst : Nat → α) (i j : Nat) : copyArray src i dst j 0 = dst := by
  funext k
  rw [copyArray, if_neg (by omega)]

/-! ### Leaves -/

/-- The leaf contains the entries `es` and its end mark. -/
structure LeafHolds (n : LeafNodeInt) (es : List RIDKeyPair) : Prop where
  keys : Holds n.keyArray (es.map (·.key))
  rids : Holds n.ridArray (es.map (·.rid))
  valid : ∀ e ∈ es, e.rid.page_number ≠ INVALID_NUMBER
  endRid : (n.ridArray es.length).page_number = INVALID_NUMBER
  endKey : n.keyArray es.length = INT_MAX
  size : es.length ≤ leafOccupancy

namespace LeafHolds

variable {n : LeafNodeInt} {es : List RIDKeyPair}

theorem key_eq (h : LeafHolds n es) {i : Nat} (hi : i < es.length) : n.keyArray i = es[i].key := by
  rw [h.keys i (by simpa using hi), List.getElem_map]

theorem rid_eq (h : LeafHolds n es) {i : Nat} (hi : i < es.length) : n.ridArray i = es[i].rid := by
  rw [h.rids i (by simpa using hi), List.getElem_map]

theorem rid_valid (h : LeafHolds n es) {i : Nat} (hi : i < es.length) :
    (n.ridArray i).page_number ≠ INVALID_NUMBER := by
  rw [h.rid_eq hi]
  exact h.valid _ (List.getElem_mem hi)

theorem entryNum_eq (h : LeafHolds n es) : n.entryNum = es.length := by
  have hs := h.size
  refine firstIndex_eq (by omega) (fun i hi => ?_) (fun _ => by simpa using h.endRid)
  simpa using h.rid_valid hi

theorem insertPos_eq (h : LeafHolds n es) (k : Int) :
    n.insertPos k = (es.takeWhile fun e => decide (e.key ≤ k)).length := by
  have hs := h.size
  have hle := takeWhile_length_le es fun e => decide (e.key ≤ k)
  refine firstIndex_eq (by omega) (fun i hi => ?_) (fun _ => ?_)
  · have hk := getElem_of_lt_takeWhile (by omega) hi
    have hv := h.rid_valid (i := i) (by omega)
    rw [h.key_eq (by omega)]
    simp only [decide_eq_true_eq] at hk
    simpa using ⟨hk, hv⟩
  · rcases Nat.lt_or_eq_of_le hle with hlt | heq
    · have hk := getElem_length_takeWhile hlt
      rw [h.key_eq hlt]
      simp only [decide_eq_false_iff_not, Int.not_le] at hk
      simp [hk]
    · rw [heq]
      simp [h.endRid]

end LeafHolds

/-- The entries of a leaf with a new entry behind all keys that are not larger. -/
abbrev insertEntryList (es : List RIDKeyPair) (e : RIDKeyPair) : List RIDKeyPair := insertBehind RIDKeyPair.key es e

theorem valid_insertEntryList {es : List RIDKeyPair} {e : RIDKeyPair}
    (hv : ∀ x ∈ es, x.rid.page_number ≠ INVALID_NUMBER) (he : e.rid.page_number ≠ INVALID_NUMBER) :
    ∀ x ∈ insertEntryList es e, x.rid.page_number ≠ INVALID_NUMBER := by
  intro x hx
  rcases (mem_insertBehind RIDKeyPair.key).1 hx with rfl | hx
  · exact he
  · exact hv x hx

/-- The node `insertUnderNode` has in hand after it wrote the new entry. -/
def LeafNodeInt.withEntry (n : LeafNodeInt) (e : RIDKeyPair) : LeafNodeInt :=
  n.insertAt e n.entryNum (n.insertPos e.key)

@[simp] theorem withEntry_rightSib (n : LeafNodeInt) (e : RIDKeyPair) :
    (n.withEntry e).rightSibPageNo = n.rightSibPageNo := by
  unfold LeafNodeInt.withEntry LeafNodeInt.insertAt
  split <;> rfl

namespace LeafHolds

variable {n : LeafNodeInt} {es : List RIDKeyPair}

/-- At the last position nothing is moved, as the source's test says. -/
private theorem insertAt_arrays (h : LeafHolds n es) (e : RIDKeyPair) {pos : Nat} (hpos : pos ≤ es.length) :
    n.insertAt e es.length pos =
      { n with
        keyArray := Function.update (copyArray n.keyArray pos n.keyArray (pos + 1) ((es.length : Int) - pos)) pos e.key
        ridArray :=
          Function.update (copyArray n.ridArray pos n.ridArray (pos + 1) ((es.length : Int) - pos)) pos e.rid } := by
  have hs := h.size
  unfold LeafNodeInt.insertAt
  by_cases hp : pos < leafOccupancy
  · simp only [hp, if_true]
  · have hz : (es.length : Int) - pos = 0 := by omega
    simp only [hp, if_false, hz, copyArray_zero]

theorem withEntry_keys (h : LeafHolds n es) (e : RIDKeyPair) :
    Holds (n.withEntry e).keyArray ((insertEntryList es e).map (·.key)) := by
  have hle := takeWhile_length_le es fun x => decide (x.key ≤ e.key)
  rw [LeafNodeInt.withEntry, h.entryNum_eq, h.insertPos_eq, h.insertAt_arrays e hle,
    insertEntryList, insertBehind_eq_insertIdx, List.map_insertIdx]
  simpa using h.keys.insert (by simpa using hle) e.key

theorem withEntry_rids (h : LeafHolds n es) (e : RIDKeyPair) :
    Holds (n.withEntry e).ridArray ((insertEntryList es e).map (·.rid)) := by
  have hle := takeWhile_length_le es fun x => decide (x.key ≤ e.key)
  rw [LeafNodeInt.withEntry, h.entryNum_eq, h.insertPos_eq, h.insertAt_arrays e hle,
    insertEntryList, insertBehind_eq_insertIdx, List.map_insertIdx]
  simpa using h.rids.insert (by simpa using hle) e.rid

end LeafHolds

/-- A list of entries with an end mark behind it. -/
theorem leafHolds_setBound {n : LeafNodeInt} {es : List RIDKeyPair} (hk : Holds n.keyArray (es.map (·.key)))
    (hr : Holds n.ridArray (es.map (·.rid))) (hv : ∀ e ∈ es, e.rid.page_number ≠ INVALID_NUMBER) {i : Nat}
    (hi : es.length = i) (hs : i ≤ leafOccupancy) : LeafHolds (n.setBound i) es where
  keys := hk.set_of_le (by simp [hi]) _
  rids := hr.set_of_le (by simp [hi]) _
  valid := hv
  endRid := by simp [LeafNodeInt.setBound, hi]
  endKey := by simp [LeafNodeInt.setBound, hi]
  size := by omega

theorem LeafNodeInt.leftHalf_eq (n : LeafNodeInt) (q : PageId) :
    n.leftHalf q = { n with rightSibPageNo := q }.setBound 341 := by
  simp only [leftHalf, leafOccupancy_eq, Nat.reduceDiv, Nat.reduceAdd]

theorem LeafNodeInt.rightHalf_eq (n m : LeafNodeInt) :
    n.rightHalf m = LeafNodeInt.setBound
      ⟨copyArray n.keyArray 341 m.keyArray 0 (341 : Nat), copyArray n.ridArray 341 m.ridArray 0 (341 : Nat),
        n.rightSibPageNo⟩ 341 := by
  simp only [rightHalf, leafOccupancy_eq, Nat.reduceDiv, Nat.reduceAdd]

namespace LeafHolds

variable {n : LeafNodeInt} {es : List RIDKeyPair} {e : RIDKeyPair}

theorem insert (h : LeafHolds n es) (he : e.rid.page_number ≠ INVALID_NUMBER) (hs : es.length < leafOccupancy) :
    LeafHolds ((n.withEntry e).setBound (es.length + 1)) (insertEntryList es e) :=
  leafHolds_setBound (h.withEntry_keys e) (h.withEntry_rids e) (valid_insertEntryList h.valid he)
    (length_insertBehind RIDKeyPair.key es e) hs

theorem left (h : LeafHolds n es) (he : e.rid.page_number ≠ INVALID_NUMBER) (hs : es.length = leafOccupancy)
    (q : PageId) : LeafHolds ((n.withEntry e).leftHalf q) ((insertEntryList es e).take 341) := by
  have hl : (insertEntryList es e).length = es.length + 1 := length_insertBehind _ _ _
  simp only [leafOccupancy_eq] at hs
  rw [LeafNodeInt.leftHalf_eq]
  refine leafHolds_setBound ?_ ?_ (fun x hx => valid_insertEntryList h.valid he x (List.mem_of_mem_take hx)) ?_ ?_
  · rw [List.map_take]
    exact (h.withEntry_keys e).take 341
  · rw [List.map_take]
    exact (h.withEntry_rids e).take 341
  · rw [List.length_take]
    omega
  · simp

theorem right (h : LeafHolds n es) (he : e.rid.page_number ≠ INVALID_NUMBER) (hs : es.length = leafOccupancy)
    (m : LeafNodeInt) : LeafHolds ((n.withEntry e).rightHalf m) ((insertEntryList es e).drop 341) := by
  have hl : (insertEntryList es e).length = es.length + 1 := length_insertBehind _ _ _
  simp only [leafOccupancy_eq] at hs
  rw [LeafNodeInt.rightHalf_eq]
  refine leafHolds_setBound ?_ ?_ (fun x hx => valid_insertEntryList h.valid he x (List.mem_of_mem_drop hx)) ?_ ?_
  · rw [List.map_drop]
    dsimp only
    exact (h.withEntry_keys e).copy (by rw [List.length_map]; omega)
  · rw [List.map_drop]
    dsimp only
    exact (h.withEntry_rids e).copy (by rw [List.length_map]; omega)
  · rw [List.length_drop]
    omega
  · simp

end LeafHolds

/-! ### Non-leaves -/

/-- The non-leaf contains the separators `keys` and the children `kids`, and the end mark of the children. -/
structure NodeHolds (n : NonLeafNodeInt) (keys : List Int) (kids : List PageId) : Prop where
  keyArray : Holds n.keyArray keys
  pageNoArray : Holds n.pageNoArray kids
  valid : ∀ p ∈ kids, p ≠ INVALID_NUMBER
  endPage : n.pageNoArray kids.length = INVALID_NUMBER
  len : kids.length = keys.length + 1
  size : kids.length ≤ nodeOccupancy + 1

/-- The key behind the separators is `INT_MAX`. -/
def Closed (n : NonLeafNodeInt) (kids : List PageId) : Prop := n.keyArray (kids.length - 1) = INT_MAX

/-- The node is a root as `insertEntry` makes it: two children, and the bytes of a fresh page behind them. -/
def FreshRoot (n : NonLeafNodeInt) (kids : List PageId) : Prop :=
  kids.length = 2 ∧ (∀ i, 1 ≤ i → i ≤ nodeOccupancy → n.keyArray i = 0) ∧
    ∀ i, 2 ≤ i → i ≤ nodeOccupancy + 1 → n.pageNoArray i = INVALID_NUMBER

namespace NodeHolds

variable {n : NonLeafNodeInt} {keys : List Int} {kids : List PageId}

theorem kid_eq (h : NodeHolds n keys kids) {i : Nat} (hi : i < kids.length) : n.pageNoArray i = kids[i] :=
  h.pageNoArray i hi

theorem key_eq (h : NodeHolds n keys kids) {i : Nat} (hi : i < keys.length) : n.keyArray i = keys[i] :=
  h.keyArray i hi

theorem kid_valid (h : NodeHolds n keys kids) {i : Nat} (hi : i < kids.length) :
    n.pageNoArray i ≠ INVALID_NUMBER := by
  rw [h.kid_eq hi]
  exact h.valid _ (List.getElem_mem hi)

theorem entryNum_eq (h : NodeHolds n keys kids) : n.entryNum = kids.length := by
  have hs := h.size
  refine firstIndex_eq (by omega) (fun i hi => ?_) (fun _ => by simpa using h.endPage)
  simpa using h.kid_valid hi

theorem childPos_eq (h : NodeHolds n keys kids) (k : Int) :
    n.childPos k = (keys.takeWhile fun x => decide (x ≤ k)).length := by
  have hs := h.size
  have hlen := h.len
  have hle := takeWhile_length_le keys fun x => decide (x ≤ k)
  refine firstIndex_eq (by omega) (fun i hi => ?_) (fun _ => ?_)
  · have hk := getElem_of_lt_takeWhile (by omega) hi
    have hv := h.kid_valid (i := i + 1) (by omega)
    rw [h.key_eq (by omega)]
    simp only [decide_eq_true_eq] at hk
    simpa using ⟨hk, hv⟩
  · rcases Nat.lt_or_eq_of_le hle with hlt | heq
    · have hk := getElem_length_takeWhile hlt
      rw [h.key_eq hlt]
      simp only [decide_eq_false_iff_not, Int.not_le] at hk
      simp [hk]
    · rw [heq, ← hlen]
      simp [h.endPage]

end NodeHolds

/-- The node `insertUnderNode` has in hand after it wrote the new child. -/
def NonLeafNodeInt.withChild (n : NonLeafNodeInt) (newChild : PageKeyPair) (pos : Nat) : NonLeafNodeInt :=
  n.insertAt newChild n.entryNum pos

@[simp] theorem withChild_level (n : NonLeafNodeInt) (c : PageKeyPair) (pos : Nat) :
    (n.withChild c pos).level = n.level := by
  unfold NonLeafNodeInt.withChild NonLeafNodeInt.insertAt
  split <;> rfl

namespace NodeHolds

variable {n : NonLeafNodeInt} {keys : List Int} {kids : List PageId}

/-- At the last position nothing is moved, as the source's test says. -/
private theorem insertAt_arrays (h : NodeHolds n keys kids) (c : PageKeyPair) {pos : Nat} (hpos : pos ≤ keys.length) :
    n.withChild c pos =
      { n with
        keyArray :=
          Function.update (copyArray n.keyArray pos n.keyArray (pos + 1) ((keys.length : Int) - pos)) pos c.key
        pageNoArray :=
          Function.update
            (copyArray n.pageNoArray (pos + 1) n.pageNoArray (pos + 1 + 1) ((kids.length : Int) - (pos + 1 : Nat)))
            (pos + 1) c.pageNo } := by
  have hs := h.size
  have hlen := h.len
  rw [NonLeafNodeInt.withChild, h.entryNum_eq]
  unfold NonLeafNodeInt.insertAt
  by_cases hp : pos < nodeOccupancy
  · have e1 : (kids.length : Int) - 1 - pos = (keys.length : Int) - pos := by omega
    have e2 : (kids.length : Int) - (pos + 1 : Nat) = (keys.length : Int) - pos := by omega
    simp only [hp, if_true, e1, e2]
  · have e1 : (keys.length : Int) - pos = 0 := by omega
    have e2 : (kids.length : Int) - (pos + 1 : Nat) = 0 := by omega
    simp only [hp, if_false, e1, e2, copyArray_zero]

theorem withChild_keys (h : NodeHolds n keys kids) (c : PageKeyPair) {pos : Nat} (hpos : pos ≤ keys.length) :
    Holds (n.withChild c pos).keyArray (keys.insertIdx pos c.key) := by
  rw [h.insertAt_arrays c hpos]
  exact h.keyArray.insert hpos c.key

theorem withChild_kids (h : NodeHolds n keys kids) (c : PageKeyPair) {pos : Nat} (hpos : pos ≤ keys.length) :
    Holds (n.withChild c pos).pageNoArray (kids.insertIdx (pos + 1) c.pageNo) := by
  have hlen := h.len
  rw [h.insertAt_arrays c hpos]
  exact h.pageNoArray.insert (by omega) c.pageNo

end NodeHolds

/-- Separators and children with an end mark behind them. -/
theorem nodeHolds_setBound {n : NonLeafNodeInt} {keys : List Int} {kids : List PageId} (hk : Holds n.keyArray keys)
    (hp : Holds n.pageNoArray kids) (hv : ∀ p ∈ kids, p ≠ INVALID_NUMBER) (hlen : kids.length = keys.length + 1)
    {c : Nat} (hc : kids.length = c) (hs : c ≤ nodeOccupancy + 1) :
    NodeHolds (n.setBound c) keys kids ∧ Closed (n.setBound c) kids := by
  refine ⟨⟨hk.set_of_le (by omega) _, hp.set_of_le (by omega) _, hv, ?_, hlen, by omega⟩, ?_⟩
  · simp [NonLeafNodeInt.setBound, hc]
  · simp [NonLeafNodeInt.setBound, Closed, hc]

theorem NonLeafNodeInt.leftHalf_eq (n : NonLeafNodeInt) : n.leftHalf = n.setBound 512 := by
  simp only [leftHalf, nodeOccupancy_eq, Nat.reduceDiv, Nat.reduceAdd]

theorem NonLeafNodeInt.newSlotKey_eq (n : NonLeafNodeInt) : n.newSlotKey = n.keyArray 511 := by
  simp only [newSlotKey, nodeOccupancy_eq, Nat.reduceDiv, Nat.reduceAdd]

theorem NonLeafNodeInt.rightHalf_eq (n m : NonLeafNodeInt) :
    n.rightHalf m = NonLeafNodeInt.setBound
      ⟨n.level, copyArray n.keyArray 512 m.keyArray 0 (511 : Nat), copyArray n.pageNoArray 512 m.pageNoArray 0 (512 : Nat)⟩
      512 := by
  simp only [rightHalf, nodeOccupancy_eq, Nat.reduceDiv, Nat.reduceAdd]

namespace NodeHolds

variable {n : NonLeafNodeInt} {keys : List Int} {kids : List PageId} {c : PageKeyPair} {pos : Nat}

private theorem valid_insertIdx (h : NodeHolds n keys kids) (hc : c.pageNo ≠ INVALID_NUMBER) :
    ∀ p ∈ kids.insertIdx pos c.pageNo, p ≠ INVALID_NUMBER := by
  intro p hp
  rcases List.eq_or_mem_of_mem_insertIdx hp with rfl | hp
  · exact hc
  · exact h.valid p hp

theorem insert (h : NodeHolds n keys kids) (hc : c.pageNo ≠ INVALID_NUMBER) (hpos : pos ≤ keys.length)
    (hs : kids.length < nodeOccupancy + 1) :
    NodeHolds ((n.withChild c pos).setBound (kids.length + 1)) (keys.insertIdx pos c.key)
        (kids.insertIdx (pos + 1) c.pageNo) ∧
      Closed ((n.withChild c pos).setBound (kids.length + 1)) (kids.insertIdx (pos + 1) c.pageNo) := by
  have hlen := h.len
  refine nodeHolds_setBound (h.withChild_keys c hpos) (h.withChild_kids c hpos) (h.valid_insertIdx hc) ?_ ?_ hs
  · rw [List.length_insertIdx_of_le_length hpos, List.length_insertIdx_of_le_length (by omega), hlen]
  · rw [List.length_insertIdx_of_le_length (by omega)]

theorem left (h : NodeHolds n keys kids) (hc : c.pageNo ≠ INVALID_NUMBER) (hpos : pos ≤ keys.length)
    (hs : kids.length = nodeOccupancy + 1) :
    NodeHolds (n.withChild c pos).leftHalf ((keys.insertIdx pos c.key).take 511)
        ((kids.insertIdx (pos + 1) c.pageNo).take 512) ∧
      Closed (n.withChild c pos).leftHalf ((kids.insertIdx (pos + 1) c.pageNo).take 512) := by
  have hlen := h.len
  simp only [nodeOccupancy_eq] at hs
  have hk : (keys.insertIdx pos c.key).length = 1023 := by rw [List.length_insertIdx_of_le_length hpos]; omega
  have hp : (kids.insertIdx (pos + 1) c.pageNo).length = 1024 := by
    rw [List.length_insertIdx_of_le_length (by omega)]; omega
  rw [NonLeafNodeInt.leftHalf_eq]
  refine nodeHolds_setBound ((h.withChild_keys c hpos).take 511) ((h.withChild_kids c hpos).take 512)
    (fun p hp => h.valid_insertIdx hc p (List.mem_of_mem_take hp)) ?_ ?_ ?_
  · rw [List.length_take, List.length_take, hk, hp]
    rfl
  · rw [List.length_take, hp]
    rfl
  · simp

theorem right (h : NodeHolds n keys kids) (hc : c.pageNo ≠ INVALID_NUMBER) (hpos : pos ≤ keys.length)
    (hs : kids.length = nodeOccupancy + 1) (m : NonLeafNodeInt) :
    NodeHolds ((n.withChild c pos).rightHalf m) ((keys.insertIdx pos c.key).drop 512)
        ((kids.insertIdx (pos + 1) c.pageNo).drop 512) ∧
      Closed ((n.withChild c pos).rightHalf m) ((kids.insertIdx (pos + 1) c.pageNo).drop 512) := by
  have hlen := h.len
  simp only [nodeOccupancy_eq] at hs
  have hk : (keys.insertIdx pos c.key).length = 1023 := by rw [List.length_insertIdx_of_le_length hpos]; omega
  have hp : (kids.insertIdx (pos + 1) c.pageNo).length = 1024 := by
    rw [List.length_insertIdx_of_le_length (by omega)]; omega
  rw [NonLeafNodeInt.rightHalf_eq]
  refine nodeHolds_setBound ?_ ?_ (fun p hp => h.valid_insertIdx hc p (List.mem_of_mem_drop hp)) ?_ ?_ ?_
  · dsimp only
    exact (h.withChild_keys c hpos).copy (by rw [hk]; rfl)
  · dsimp only
    exact (h.withChild_kids c hpos).copy (by rw [hp]; rfl)
  · rw [List.length_drop, List.length_drop, hk, hp]
  · rw [List.length_drop, hp]
  · simp

/-- The key that goes up when a non-leaf is split. -/
theorem newSlotKey_eq (h : NodeHolds n keys kids) (hpos : pos ≤ keys.length) (hs : kids.length = nodeOccupancy + 1) :
    (keys.insertIdx pos c.key)[511]? = some (n.withChild c pos).newSlotKey := by
  have hlen := h.len
  simp only [nodeOccupancy_eq] at hs
  have hk : 511 < (keys.insertIdx pos c.key).length := by rw [List.length_insertIdx_of_le_length hpos]; omega
  rw [NonLeafNodeInt.newSlotKey_eq, h.withChild_keys c hpos 511 hk, List.getElem?_eq_getElem hk]

end NodeHolds

/-- A new root over a split root. -/
theorem nodeHolds_asNewRoot {p : PageId} {c : PageKeyPair} (isLeaf : Bool) (hp : p ≠ INVALID_NUMBER)
    (hc : c.pageNo ≠ INVALID_NUMBER) :
    NodeHolds (Page.fresh.asNonLeaf.asNewRoot p c isLeaf) [c.key] [p, c.pageNo] ∧
      FreshRoot (Page.fresh.asNonLeaf.asNewRoot p c isLeaf) [p, c.pageNo] := by
  have hword : ∀ k, 1 ≤ k → Page.fresh.word k = 0 := fun k hk => by
    simp only [Page.word, freshWord, if_neg (show k ≠ 0 by omega)]
  have hpage : ∀ i, 2 ≤ i → (Page.fresh.asNonLeaf.asNewRoot p c isLeaf).pageNoArray i = INVALID_NUMBER := by
    intro i hi
    simp only [NonLeafNodeInt.asNewRoot]
    rw [Function.update_of_ne (by omega), Function.update_of_ne (by omega)]
    show asUInt (Page.fresh.word _) = 0
    rw [hword _ (by omega)]
    rfl
  refine ⟨⟨?_, ?_, by simp [hp, hc], hpage 2 (Nat.le_refl 2), rfl, by simp⟩, rfl, fun i h1 _ => ?_,
    fun i h1 _ => hpage i h1⟩
  · intro i hi
    obtain rfl : i = 0 := by simpa using hi
    rfl
  · intro i hi
    rcases i with _ | _ | i
    · rfl
    · rfl
    · simp only [List.length_cons, List.length_nil] at hi
      omega
  · simp only [NonLeafNodeInt.asNewRoot]
    rw [Function.update_of_ne (by omega)]
    exact hword _ (by omega)

end Cs564.BTree
