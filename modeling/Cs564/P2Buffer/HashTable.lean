import Cs564.PageFile.File
import Mathlib.Data.List.Basic

/-!
# The hash table of the buffer manager

`BufHashTbl` of `p2`: an array of chains of buckets.  Files are compared by their names, so `F` is the type of the names;
the standard library's hash functions are the parameter `hash`.  In a table without repeated keys the operations are those
of a finite map, `entry`.
-/

namespace Cs564.P2

/-- How a call of the buffer manager can fail to return; `file` passes on what a file threw. -/
inductive BufError (F : Type) where
  | bufferExceeded
  | pageNotPinned (name : F) (pageNo : PageId) (frameNo : FrameId)
  | pagePinned (name : F) (pageNo : PageId) (frameNo : FrameId)
  | badBuffer (frameNo : FrameId) (dirty valid refbit : Bool)
  | hashNotFound (name : F) (pageNo : PageId)
  | hashAlreadyPresent (name : F) (pageNo : PageId) (frameNo : FrameId)
  | file (error : FileError)
  | noFile
  | outOfFuel
deriving DecidableEq, Repr

/-- `hashBucket`; `next` is the order in the chain. -/
structure HashBucket (F : Type) where
  file : F
  pageNo : PageId
  frameNo : FrameId

/-- `BufHashTbl`. -/
structure BufHashTbl (F : Type) where
  HTSIZE : Nat
  ht : Nat → List (HashBucket F)

variable {F : Type} [DecidableEq F]

/-- The bucket is the one of this page. -/
def HashBucket.isFor (file : F) (pageNo : PageId) (bucket : HashBucket F) : Bool :=
  bucket.file == file && bucket.pageNo == pageNo

namespace BufHashTbl

/-- `BufHashTbl(htSize)`. -/
def new (F : Type) (htSize : Nat) : BufHashTbl F := { HTSIZE := htSize, ht := fun _ => [] }

section Code

variable (hash : F → PageId → Nat) (table : BufHashTbl F) (file : F) (pageNo : PageId)

/-- `hash`. -/
def index : Nat := hash file pageNo % table.HTSIZE

/-- `lookup`. -/
def lookup : Except (BufError F) FrameId :=
  match (table.ht (table.index hash file pageNo)).find? (HashBucket.isFor file pageNo) with
  | some bucket => .ok bucket.frameNo
  | none => .error (.hashNotFound file pageNo)

/-- `insert`. -/
def insert (frameNo : FrameId) : Except (BufError F) (BufHashTbl F) :=
  match (table.ht (table.index hash file pageNo)).find? (HashBucket.isFor file pageNo) with
  | some bucket => .error (.hashAlreadyPresent bucket.file bucket.pageNo bucket.frameNo)
  | none =>
    .ok { table with
      ht := Function.update table.ht (table.index hash file pageNo)
        ({ file := file, pageNo := pageNo, frameNo := frameNo } :: table.ht (table.index hash file pageNo)) }

/-- `remove`. -/
def remove : Except (BufError F) (BufHashTbl F) :=
  if (table.ht (table.index hash file pageNo)).any (HashBucket.isFor file pageNo) then
    .ok { table with
      ht := Function.update table.ht (table.index hash file pageNo)
        ((table.ht (table.index hash file pageNo)).eraseP (HashBucket.isFor file pageNo)) }
  else .error (.hashNotFound file pageNo)

/-- The frame that the table has for the page. -/
def entry : Option FrameId :=
  ((table.ht (table.index hash file pageNo)).find? (HashBucket.isFor file pageNo)).map HashBucket.frameNo

end Code

/-- No chain has two buckets of the same page. -/
def Distinct (table : BufHashTbl F) : Prop :=
  ∀ i, (table.ht i).Pairwise fun bucket later => later.isFor bucket.file bucket.pageNo = false

theorem isFor_iff {file : F} {pageNo : PageId} {bucket : HashBucket F} :
    bucket.isFor file pageNo = true ↔ bucket.file = file ∧ bucket.pageNo = pageNo := by
  simp [HashBucket.isFor]

variable {hash : F → PageId → Nat} {table : BufHashTbl F} {file : F} {pageNo : PageId}

theorem lookup_eq : table.lookup hash file pageNo =
    match table.entry hash file pageNo with
    | some frameNo => .ok frameNo
    | none => .error (.hashNotFound file pageNo) := by
  unfold lookup entry
  cases (table.ht (table.index hash file pageNo)).find? (HashBucket.isFor file pageNo) <;> rfl

theorem entry_new (htSize : Nat) : (new F htSize).entry hash file pageNo = none := rfl

theorem distinct_new (htSize : Nat) : (new F htSize).Distinct := fun _ => List.Pairwise.nil

/-- A bucket that is put in front of its chain. -/
private theorem find_insert {bucket : HashBucket F} {chain : List (HashBucket F)} {g : F} {q : PageId} :
    (bucket :: chain).find? (HashBucket.isFor g q) =
      if g = bucket.file ∧ q = bucket.pageNo then some bucket else chain.find? (HashBucket.isFor g q) := by
  by_cases hkey : g = bucket.file ∧ q = bucket.pageNo
  · rw [if_pos hkey, List.find?_cons_of_pos]
    exact isFor_iff.mpr ⟨hkey.1.symm, hkey.2.symm⟩
  · rw [if_neg hkey, List.find?_cons_of_neg]
    intro hfor
    obtain ⟨hfile, hpage⟩ := isFor_iff.mp hfor
    exact hkey ⟨hfile.symm, hpage.symm⟩

/-- The first bucket of a page is taken out of a chain without repeated keys. -/
private theorem find_eraseP {chain : List (HashBucket F)}
    (hd : chain.Pairwise fun bucket later => later.isFor bucket.file bucket.pageNo = false) (g : F) (q : PageId) :
    (chain.eraseP (HashBucket.isFor file pageNo)).find? (HashBucket.isFor g q) =
      if g = file ∧ q = pageNo then none else chain.find? (HashBucket.isFor g q) := by
  induction chain with
  | nil => simp
  | cons bucket chain ih =>
    rw [List.pairwise_cons] at hd
    by_cases hb : bucket.isFor file pageNo = true
    · obtain ⟨rfl, rfl⟩ := isFor_iff.mp hb
      rw [List.eraseP_cons_of_pos hb, find_insert]
      by_cases hkey : g = bucket.file ∧ q = bucket.pageNo
      · obtain ⟨rfl, rfl⟩ := hkey
        rw [if_pos ⟨rfl, rfl⟩]
        refine List.find?_eq_none.mpr fun later hl => ?_
        rw [hd.1 later hl]
        exact Bool.false_ne_true
      · rw [if_neg hkey, if_neg hkey]
    · rw [List.eraseP_cons_of_neg hb, find_insert, find_insert, ih hd.2]
      by_cases hkey : g = bucket.file ∧ q = bucket.pageNo
      · have hne : ¬ (g = file ∧ q = pageNo) := by
          rintro ⟨rfl, rfl⟩
          exact hb (isFor_iff.mpr ⟨hkey.1.symm, hkey.2.symm⟩)
        rw [if_pos hkey, if_pos hkey, if_neg hne]
      · rw [if_neg hkey, if_neg hkey]

/-- A chain is changed. -/
private theorem entry_update {chain : List (HashBucket F)} {g : F} {q : PageId} (i : Nat) :
    ({ table with ht := Function.update table.ht i chain } : BufHashTbl F).entry hash g q =
      if table.index hash g q = i then (chain.find? (HashBucket.isFor g q)).map HashBucket.frameNo
      else table.entry hash g q := by
  by_cases hi : table.index hash g q = i
  · subst hi
    rw [if_pos rfl, entry]
    exact congrArg (fun c => (List.find? (HashBucket.isFor g q) c).map HashBucket.frameNo) (Function.update_self ..)
  · rw [if_neg hi, entry]
    exact congrArg (fun c => (List.find? (HashBucket.isFor g q) c).map HashBucket.frameNo) (Function.update_of_ne hi ..)

private theorem distinct_update (hd : table.Distinct) {chain : List (HashBucket F)} (i : Nat)
    (hc : chain.Pairwise fun bucket later => later.isFor bucket.file bucket.pageNo = false) :
    ({ table with ht := Function.update table.ht i chain } : BufHashTbl F).Distinct := by
  intro j
  dsimp only
  by_cases hj : j = i
  · subst hj
    rw [Function.update_self]
    exact hc
  · rw [Function.update_of_ne hj]
    exact hd j

/-- `insert` of a page that is not in the table. -/
theorem insert_ok (hd : table.Distinct) (hnone : table.entry hash file pageNo = none) (frameNo : FrameId) :
    ∃ table', table.insert hash file pageNo frameNo = .ok table' ∧ table'.Distinct ∧
      ∀ g q, table'.entry hash g q = if g = file ∧ q = pageNo then some frameNo else table.entry hash g q := by
  have hfind : (table.ht (table.index hash file pageNo)).find? (HashBucket.isFor file pageNo) = none :=
    Option.map_eq_none_iff.mp hnone
  refine ⟨_, by rw [insert, hfind], distinct_update hd _ (List.pairwise_cons.mpr ⟨fun later hl => ?_, hd _⟩), fun g q => ?_⟩
  · exact Bool.eq_false_iff.mpr (List.find?_eq_none.mp hfind later hl)
  · rw [entry_update, find_insert]
    by_cases hkey : g = file ∧ q = pageNo
    · obtain ⟨rfl, rfl⟩ := hkey
      simp
    · rw [if_neg hkey, if_neg hkey]
      by_cases hi : table.index hash g q = table.index hash file pageNo
      · rw [if_pos hi, ← hi]
        rfl
      · rw [if_neg hi]

/-- `insert` of a page that is in the table. -/
theorem insert_present {frameNo : FrameId} (hsome : table.entry hash file pageNo = some frameNo) (frameNo' : FrameId) :
    table.insert hash file pageNo frameNo' = .error (.hashAlreadyPresent file pageNo frameNo) := by
  obtain ⟨bucket, hfind, rfl⟩ := Option.map_eq_some_iff.mp hsome
  obtain ⟨rfl, rfl⟩ := isFor_iff.mp (List.find?_some hfind)
  rw [insert, hfind]

/-- `remove` of a page that is in the table. -/
theorem remove_ok (hd : table.Distinct) {frameNo : FrameId} (hsome : table.entry hash file pageNo = some frameNo) :
    ∃ table', table.remove hash file pageNo = .ok table' ∧ table'.Distinct ∧
      ∀ g q, table'.entry hash g q = if g = file ∧ q = pageNo then none else table.entry hash g q := by
  obtain ⟨bucket, hfind, -⟩ := Option.map_eq_some_iff.mp hsome
  have hany : (table.ht (table.index hash file pageNo)).any (HashBucket.isFor file pageNo) = true :=
    List.any_eq_true.mpr ⟨bucket, List.mem_of_find?_eq_some hfind, List.find?_some hfind⟩
  refine ⟨_, by rw [remove, if_pos hany], distinct_update hd _ ((hd _).sublist List.eraseP_sublist), fun g q => ?_⟩
  rw [entry_update, find_eraseP (hd _)]
  by_cases hkey : g = file ∧ q = pageNo
  · obtain ⟨rfl, rfl⟩ := hkey
    simp
  · rw [if_neg hkey, if_neg hkey]
    by_cases hi : table.index hash g q = table.index hash file pageNo
    · rw [if_pos hi, ← hi]
      rfl
    · rw [if_neg hi]

/-- `remove` of a page that is not in the table. -/
theorem remove_absent (hnone : table.entry hash file pageNo = none) :
    table.remove hash file pageNo = .error (.hashNotFound file pageNo) := by
  have hfind := List.find?_eq_none.mp (Option.map_eq_none_iff.mp hnone)
  have hany : ¬ (table.ht (table.index hash file pageNo)).any (HashBucket.isFor file pageNo) = true := by
    rw [List.any_eq_true]
    rintro ⟨bucket, hmem, hfor⟩
    exact hfind bucket hmem hfor
  rw [remove, if_neg hany]

end BufHashTbl

end Cs564.P2
