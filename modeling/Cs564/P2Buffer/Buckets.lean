import Mathlib.Data.List.Nodup
import Mathlib.Data.List.Perm.Subperm
import Cs564.Lib.Chain
import Cs564.P2Buffer.HashTable

/-!
# The buckets of the hash table

`BufHashTbl` with its buckets in a store and the pointers between them: `lookup`, `insert` and `remove` follow the
`next` pointers, and `remove` relinks a chain at its head or behind `prevBuc`.  As long as every chain is what the
pointers say (`Linked`), the calls are those of the table of chains in `HashTable.lean`, and over any run of calls the
table is a finite map (`table_is_map`): any two keys may share a chain.
-/

namespace Cs564.P2

/-- `hashBucket` with its pointer `next`. -/
structure Cell (F : Type) where
  bucket : HashBucket F
  next : Option Nat

/-- `BufHashTbl`: the heads of the chains, and the buckets by their addresses.  Addresses are given out in order, so
none from `brk` on is in use. -/
structure Buckets (F : Type) where
  HTSIZE : Nat
  ht : Nat → Option Nat
  heap : Nat → Option (Cell F)
  brk : Nat

/-- A call of the hash table. -/
inductive TableCall (F : Type) where
  | insert (file : F) (pageNo : PageId) (frameNo : FrameId)
  | lookup (file : F) (pageNo : PageId)
  | remove (file : F) (pageNo : PageId)
deriving DecidableEq, Repr

/-- What a call returns or throws; only `lookup` returns a frame. -/
abbrev TableOutcome (F : Type) := Except (BufError F) (Option FrameId)

variable {F : Type} [DecidableEq F]

namespace Buckets

/-- `BufHashTbl(htSize)`. -/
def new (F : Type) (htSize : Nat) : Buckets F :=
  { HTSIZE := htSize, ht := fun _ => none, heap := fun _ => none, brk := 0 }

section Code

variable (hash : F → PageId → Nat) (table : Buckets F) (file : F) (pageNo : PageId)

/-- `ht[hash(file, pageNo)]`, `none` outside of the table. -/
def head? : Option (Nat × Option Nat) :=
  let index := hash file pageNo % table.HTSIZE
  if index < table.HTSIZE then some (index, table.ht index) else none

/-- The loop of `lookup` and `insert`: the bucket of the page, if there is one in the chain.  It fails on a pointer to
no bucket, and when the chain does not end within the given number of rounds. -/
def seek (heap : Nat → Option (Cell F)) (file : F) (pageNo : PageId) : Nat → Option Nat → Option (Option (HashBucket F))
  | _, none => some none
  | 0, some _ => none
  | rounds + 1, some tmpBuc =>
    (heap tmpBuc).bind fun cell =>
      if cell.bucket.isFor file pageNo then some (some cell.bucket) else seek heap file pageNo rounds cell.next

/-- `lookup`. -/
def lookup : Option (TableOutcome F × Buckets F) :=
  (table.head? hash file pageNo).bind fun head =>
    (seek table.heap file pageNo table.brk head.2).map fun
      | some bucket => (.ok (some bucket.frameNo), table)
      | none => (.error (.hashNotFound file pageNo), table)

/-- The new bucket at the head of its chain. -/
def link (index : Nat) (bucket : HashBucket F) : Buckets F :=
  { table with
    ht := Function.update table.ht index (some table.brk)
    heap := Function.update table.heap table.brk (some { bucket := bucket, next := table.ht index })
    brk := table.brk + 1 }

/-- `insert`. -/
def insert (frameNo : FrameId) : Option (TableOutcome F × Buckets F) :=
  (table.head? hash file pageNo).bind fun head =>
    (seek table.heap file pageNo table.brk head.2).map fun
      | some bucket => (.error (.hashAlreadyPresent bucket.file bucket.pageNo bucket.frameNo), table)
      | none => (.ok none, table.link head.1 { file := file, pageNo := pageNo, frameNo := frameNo })

/-- The bucket at `tmpBuc` is taken out of its chain and deleted: the pointer before it, in `prevBuc` or in the table,
goes on to its `next`. -/
def unlink (index : Nat) (prevBuc : Option Nat) (tmpBuc : Nat) (next : Option Nat) : Option (Buckets F) :=
  match prevBuc with
  | some prev => (table.heap prev).map fun cell =>
      { table with
        heap := Function.update (Function.update table.heap prev (some { cell with next := next })) tmpBuc none }
  | none => some
      { table with
        ht := Function.update table.ht index next
        heap := Function.update table.heap tmpBuc none }

/-- The loop of `remove`. -/
def removeFrom (index : Nat) : Nat → Option Nat → Option Nat → Option (TableOutcome F × Buckets F)
  | _, _, none => some (.error (.hashNotFound file pageNo), table)
  | 0, _, some _ => none
  | rounds + 1, prevBuc, some tmpBuc =>
    (table.heap tmpBuc).bind fun cell =>
      if cell.bucket.isFor file pageNo then
        (table.unlink index prevBuc tmpBuc cell.next).map fun table' => (.ok none, table')
      else removeFrom index rounds (some tmpBuc) cell.next

/-- `remove`. -/
def remove : Option (TableOutcome F × Buckets F) :=
  (table.head? hash file pageNo).bind fun head => table.removeFrom file pageNo head.1 table.brk none head.2

/-- One call. -/
def call (table : Buckets F) : TableCall F → Option (TableOutcome F × Buckets F)
  | .insert file pageNo frameNo => table.insert hash file pageNo frameNo
  | .lookup file pageNo => table.lookup hash file pageNo
  | .remove file pageNo => table.remove hash file pageNo

/-- A sequence of calls with what they return or throw. -/
def run (table : Buckets F) : List (TableCall F) → Option (List (TableOutcome F) × Buckets F)
  | [] => some ([], table)
  | c :: calls => do
    let (outcome, table') ← table.call hash c
    let (outcomes, last) ← run table' calls
    return (outcome :: outcomes, last)

end Code

/-! ### Chains of cells -/

/-- Where a pointer goes on to. -/
def follow (heap : Nat → Option (Cell F)) (ptr : Option Nat) : Option Nat := ptr.bind fun a => (heap a).bind Cell.next

/-- From `start` the pointers visit the addresses, and the buckets there are those of the chain. -/
structure Cells (heap : Nat → Option (Cell F)) (start : Option Nat) (addrs : List Nat) (chain : List (HashBucket F)) :
    Prop where
  links : Chain (follow heap) start (addrs.map some) none
  buckets : (addrs.map fun a => (heap a).map Cell.bucket) = chain.map some

section Cells

variable {heap heap' : Nat → Option (Cell F)} {start : Option Nat} {addrs : List Nat} {chain : List (HashBucket F)}
  {a : Nat}

omit [DecidableEq F] in
theorem follow_update (cell : Option (Cell F)) :
    follow (Function.update heap a cell) = Function.update (follow heap) (some a) (cell.bind Cell.next) := by
  funext ptr
  cases ptr with
  | none => rw [Function.update_of_ne (by simp)]; rfl
  | some b =>
    by_cases hb : b = a
    · subst hb
      simp [follow]
    · rw [Function.update_of_ne (by simpa using hb)]
      simp [follow, hb]

omit [DecidableEq F] in
theorem Cells.nil_inv (h : Cells heap start [] chain) : start = none ∧ chain = [] :=
  ⟨h.links, List.map_eq_nil_iff.mp h.buckets.symm⟩

omit [DecidableEq F] in
theorem Cells.cons_inv (h : Cells heap start (a :: addrs) chain) : start = some a ∧ ∃ cell rest,
    heap a = some cell ∧ chain = cell.bucket :: rest ∧ Cells heap cell.next addrs rest := by
  obtain ⟨hstart, hlinks⟩ := h.links
  have hbuckets := h.buckets
  cases chain with
  | nil => simp at hbuckets
  | cons bucket rest =>
    rw [List.map_cons, List.map_cons, List.cons.injEq] at hbuckets
    obtain ⟨cell, hcell, rfl⟩ := Option.map_eq_some_iff.mp hbuckets.1
    refine ⟨hstart, cell, rest, hcell, rfl, ?_, hbuckets.2⟩
    simpa [follow, hcell] using hlinks

omit [DecidableEq F] in
/-- A chain does not depend on what is stored elsewhere. -/
theorem Cells.congr (h : Cells heap start addrs chain) (hsame : ∀ a ∈ addrs, heap' a = heap a) :
    Cells heap' start addrs chain where
  links := by
    refine h.links.congr fun ptr hptr => ?_
    obtain ⟨a, ha, rfl⟩ := List.mem_map.mp hptr
    simp [follow, hsame a ha]
  buckets := by
    rw [← h.buckets]
    exact List.map_congr_left fun a ha => by rw [hsame a ha]

omit [DecidableEq F] in
theorem Cells.cell_of_mem (h : Cells heap start addrs chain) (ha : a ∈ addrs) : ∃ cell, heap a = some cell := by
  have hmem := List.mem_map_of_mem ha (f := fun a => (heap a).map Cell.bucket)
  rw [h.buckets] at hmem
  obtain ⟨bucket, -, hbucket⟩ := List.mem_map.mp hmem
  obtain ⟨cell, hcell, -⟩ := Option.map_eq_some_iff.mp hbucket.symm
  exact ⟨cell, hcell⟩

/-- The loop finds the first bucket of the page. -/
theorem Cells.seek_eq (h : Cells heap start addrs chain) (file : F) (pageNo : PageId) {rounds : Nat}
    (hrounds : addrs.length ≤ rounds) :
    seek heap file pageNo rounds start = some (chain.find? (HashBucket.isFor file pageNo)) := by
  induction addrs generalizing start chain rounds with
  | nil =>
    obtain ⟨rfl, rfl⟩ := h.nil_inv
    cases rounds <;> rfl
  | cons a addrs ih =>
    obtain ⟨rfl, cell, rest, hcell, rfl, hrest⟩ := h.cons_inv
    obtain ⟨rounds, rfl⟩ := Nat.exists_eq_add_of_le' (show 1 ≤ rounds by simp at hrounds; omega)
    rw [seek, hcell, Option.bind_some]
    by_cases hfor : cell.bucket.isFor file pageNo = true
    · rw [if_pos hfor, List.find?_cons_of_pos hfor]
    · rw [if_neg hfor, List.find?_cons_of_neg hfor]
      exact ih hrest (by simpa using hrounds)

/-- The loop of `remove` runs to the end of a chain without the page. -/
theorem Cells.removeFrom_absent {table : Buckets F} (h : Cells table.heap start addrs chain) {file : F}
    {pageNo : PageId} (hnone : chain.find? (HashBucket.isFor file pageNo) = none) (index : Nat) (prevBuc : Option Nat)
    {rounds : Nat} (hrounds : addrs.length ≤ rounds) :
    table.removeFrom file pageNo index rounds prevBuc start = some (.error (.hashNotFound file pageNo), table) := by
  induction addrs generalizing start chain prevBuc rounds with
  | nil =>
    obtain ⟨rfl, rfl⟩ := h.nil_inv
    cases rounds <;> rfl
  | cons a addrs ih =>
    obtain ⟨rfl, cell, rest, hcell, rfl, hrest⟩ := h.cons_inv
    obtain ⟨rounds, rfl⟩ := Nat.exists_eq_add_of_le' (show 1 ≤ rounds by simp at hrounds; omega)
    rw [List.find?_cons] at hnone
    by_cases hfor : cell.bucket.isFor file pageNo = true
    · rw [hfor] at hnone
      exact absurd hnone (by simp)
    · rw [Bool.eq_false_iff.mpr hfor] at hnone
      rw [removeFrom, hcell, Option.bind_some, if_neg hfor]
      exact ih hrest hnone (some a) (by simpa using hrounds)

omit [DecidableEq F] in
/-- The buckets that stay when one cell goes. -/
private theorem Cells.buckets_without {before behind : List Nat} {m : Nat}
    (h : Cells heap start (before ++ m :: behind) chain) :
    ((before ++ behind).map fun a => (heap a).map Cell.bucket) =
      (chain.take before.length ++ chain.drop (before.length + 1)).map some := by
  have hbuckets := h.buckets
  rw [List.map_append, List.map_append, List.map_take, List.map_drop, ← hbuckets, List.map_append, List.map_cons]
  congr 1
  · rw [List.take_left' (by simp)]
  · rw [← List.drop_drop, List.drop_left' (by simp), List.drop_one, List.tail_cons]

omit [DecidableEq F] in
/-- The pointer of a cell is set past the next cell, which is deleted. -/
theorem Cells.unlink {front behind : List Nat} {prev m : Nat} {cell pcell : Cell F}
    (h : Cells heap start (front ++ [prev] ++ m :: behind) chain)
    (hnodup : (front ++ [prev] ++ m :: behind).Nodup) (hm : heap m = some cell) (hprev : heap prev = some pcell) :
    Cells (Function.update (Function.update heap prev (some { pcell with next := cell.next })) m none) start
      (front ++ [prev] ++ behind)
      (chain.take (front ++ [prev]).length ++ chain.drop ((front ++ [prev]).length + 1)) := by
  have hgone : m ∉ front ++ [prev] ++ behind := (List.nodup_middle.mp hnodup).notMem
  constructor
  · have hlinks := h.links
    rw [List.append_assoc, List.map_append] at hlinks
    have hnodup' : (front.map some ++ some prev :: some m :: behind.map some).Nodup := by
      have hmap := hnodup.map (Option.some_injective Nat)
      rwa [List.append_assoc, List.map_append] at hmap
    have hnext : follow heap (some m) = cell.next := by simp [follow, hm]
    have hmgone : some m ∉ front.map some ++ some prev :: behind.map some := by
      simp only [List.mem_append, List.mem_cons, List.mem_map, Option.some.injEq, exists_eq_right] at hgone ⊢
      simp only [List.not_mem_nil, or_false, not_or] at hgone ⊢
      tauto
    have hupdate := (Chain.remove hlinks hnodup').update hmgone none
    rw [hnext] at hupdate
    rw [follow_update, follow_update, List.append_assoc, List.map_append]
    exact hupdate
  · rw [← h.buckets_without]
    refine List.map_congr_left fun a ha => ?_
    rw [Function.update_of_ne (ne_of_mem_of_not_mem ha hgone)]
    by_cases hap : a = prev
    · rw [hap, Function.update_self, hprev]
      rfl
    · rw [Function.update_of_ne hap]

/-- The loop of `remove` stops at the page, with the bucket before it in `prevBuc`. -/
theorem Cells.removeFrom_found {table : Buckets F} (h : Cells table.heap start addrs chain) {file : F}
    {pageNo : PageId} (hany : chain.any (HashBucket.isFor file pageNo) = true) (index : Nat) (prevBuc : Option Nat)
    {rounds : Nat} (hrounds : addrs.length ≤ rounds) :
    ∃ before m behind cell, addrs = before ++ m :: behind ∧ table.heap m = some cell ∧
      chain.eraseP (HashBucket.isFor file pageNo) = chain.take before.length ++ chain.drop (before.length + 1) ∧
      table.removeFrom file pageNo index rounds prevBuc start =
        (table.unlink index (before.getLast?.or prevBuc) m cell.next).map fun table' => (.ok none, table') := by
  induction addrs generalizing start chain prevBuc rounds with
  | nil =>
    obtain ⟨-, rfl⟩ := h.nil_inv
    simp at hany
  | cons a addrs ih =>
    obtain ⟨rfl, cell, rest, hcell, rfl, hrest⟩ := h.cons_inv
    obtain ⟨rounds, rfl⟩ := Nat.exists_eq_add_of_le' (show 1 ≤ rounds by simp at hrounds; omega)
    rw [removeFrom, hcell, Option.bind_some]
    by_cases hfor : cell.bucket.isFor file pageNo = true
    · refine ⟨[], a, addrs, cell, rfl, hcell, ?_, ?_⟩
      · simp [List.eraseP_cons_of_pos hfor]
      · simp [if_pos hfor]
    · rw [List.any_cons, Bool.eq_false_iff.mpr hfor, Bool.false_or] at hany
      obtain ⟨before, m, behind, cell', rfl, hm, herase, hloop⟩ :=
        ih hrest hany (some a) (show addrs.length ≤ rounds by simpa using hrounds)
      refine ⟨a :: before, m, behind, cell', rfl, hm, ?_, ?_⟩
      · rw [List.eraseP_cons_of_neg hfor, herase]
        rfl
      · rw [if_neg hfor, hloop]
        congr 2
        cases before with
        | nil => rfl
        | cons b before => simp [List.getLast?_cons]

end Cells

/-! ### The table of chains that the cells stand for -/

/-- The chain of each head is in the store, and no two chains share a cell. -/
structure Linked (table : Buckets F) (chains : BufHashTbl F) (addrs : Nat → List Nat) : Prop where
  size : table.HTSIZE = chains.HTSIZE
  pos : 0 < table.HTSIZE
  cells : ∀ i, Cells table.heap (table.ht i) (addrs i) (chains.ht i)
  nodup : ∀ i, (addrs i).Nodup
  apart : ∀ i j, i ≠ j → ∀ a ∈ addrs i, a ∉ addrs j
  below : ∀ i, ∀ a ∈ addrs i, a < table.brk

section Linked

variable {table : Buckets F} {chains : BufHashTbl F} {addrs : Nat → List Nat}

omit [DecidableEq F] in
theorem linked_new {htSize : Nat} (h : 1 ≤ htSize) :
    Linked (Buckets.new F htSize) (BufHashTbl.new F htSize) fun _ => [] where
  size := rfl
  pos := h
  cells := fun _ => ⟨rfl, rfl⟩
  nodup := fun _ => List.nodup_nil
  apart := fun _ _ _ _ ha => absurd ha List.not_mem_nil
  below := fun _ _ ha => absurd ha List.not_mem_nil

omit [DecidableEq F] in
theorem Linked.length_le (h : Linked table chains addrs) (i : Nat) : (addrs i).length ≤ table.brk := by
  have hsub := List.subperm_of_subset (h.nodup i) fun a ha => List.mem_range.mpr (h.below i a ha)
  simpa using hsub.length_le

omit [DecidableEq F] in
theorem Linked.head_eq (h : Linked table chains addrs) (hash : F → PageId → Nat) (file : F) (pageNo : PageId) :
    table.head? hash file pageNo =
      some (chains.index hash file pageNo, table.ht (chains.index hash file pageNo)) := by
  have hlt : hash file pageNo % table.HTSIZE < table.HTSIZE := Nat.mod_lt _ h.pos
  rw [head?, if_pos hlt, BufHashTbl.index, h.size]

omit [DecidableEq F] in
/-- A chain is changed, and with it only cells of its own. -/
theorem Linked.update (h : Linked table chains addrs) {table' : Buckets F} {index : Nat} {start : Option Nat}
    {addrs' : List Nat} {chain : List (HashBucket F)} (hsize : table'.HTSIZE = table.HTSIZE)
    (hht : table'.ht = Function.update table.ht index start) (hbrk : table.brk ≤ table'.brk)
    (hheap : ∀ a, a < table.brk → a ∉ addrs index → table'.heap a = table.heap a)
    (hcells : Cells table'.heap start addrs' chain) (hnodup : addrs'.Nodup)
    (hnew : ∀ a ∈ addrs', a < table'.brk ∧ (a < table.brk → a ∈ addrs index)) :
    Linked table' { chains with ht := Function.update chains.ht index chain }
      (Function.update addrs index addrs') where
  size := by rw [hsize, h.size]
  pos := by rw [hsize]; exact h.pos
  cells := by
    intro i
    by_cases hi : i = index
    · subst hi
      simp only [hht, Function.update_self]
      exact hcells
    · simp only [hht, Function.update_of_ne hi]
      exact (h.cells i).congr fun a ha => hheap a (h.below i a ha) (h.apart i index hi a ha)
  nodup := by
    intro i
    by_cases hi : i = index
    · rw [hi, Function.update_self]
      exact hnodup
    · rw [Function.update_of_ne hi]
      exact h.nodup i
  apart := by
    intro i j hij a ha haj
    by_cases hi : i = index
    · rw [hi, Function.update_self] at ha
      rw [Function.update_of_ne (by omega)] at haj
      exact h.apart j index (by omega) a haj ((hnew a ha).2 (h.below j a haj))
    · rw [Function.update_of_ne hi] at ha
      by_cases hj : j = index
      · rw [hj, Function.update_self] at haj
        exact h.apart i index hi a ha ((hnew a haj).2 (h.below i a ha))
      · rw [Function.update_of_ne hj] at haj
        exact h.apart i j hij a ha haj
  below := by
    intro i a ha
    by_cases hi : i = index
    · rw [hi, Function.update_self] at ha
      exact (hnew a ha).1
    · rw [Function.update_of_ne hi] at ha
      exact Nat.lt_of_lt_of_le (h.below i a ha) hbrk

omit [DecidableEq F] in
/-- A new bucket comes to the head of its chain. -/
theorem Linked.link (h : Linked table chains addrs) (index : Nat) (bucket : HashBucket F) :
    Linked (table.link index bucket)
      { chains with ht := Function.update chains.ht index (bucket :: chains.ht index) }
      (Function.update addrs index (table.brk :: addrs index)) := by
  have hfresh : table.brk ∉ addrs index := fun hmem => Nat.lt_irrefl _ (h.below index _ hmem)
  have hold : Cells (table.link index bucket).heap (table.ht index) (addrs index) (chains.ht index) :=
    (h.cells index).congr fun a ha => Function.update_of_ne (ne_of_mem_of_not_mem ha hfresh) _ _
  refine h.update rfl rfl (Nat.le_succ _) (fun a ha _ => Function.update_of_ne (Nat.ne_of_lt ha) _ _) ⟨?_, ?_⟩
    (List.nodup_cons.mpr ⟨hfresh, h.nodup index⟩) ?_
  · refine ⟨rfl, ?_⟩
    have hnext : follow (table.link index bucket).heap (some table.brk) = table.ht index := by
      simp [follow, Buckets.link]
    rw [hnext]
    exact hold.links
  · rw [List.map_cons, List.map_cons, hold.buckets]
    simp [Buckets.link]
  · intro a ha
    rcases List.mem_cons.mp ha with rfl | ha
    · exact ⟨Nat.lt_succ_self _, fun hlt => absurd hlt (Nat.lt_irrefl _)⟩
    · exact ⟨Nat.lt_succ_of_lt (h.below index a ha), fun _ => ha⟩

omit [DecidableEq F] in
/-- A bucket is taken out of its chain, at the head or behind another. -/
theorem Linked.unlink (h : Linked table chains addrs) {index m : Nat} {before behind : List Nat} {cell : Cell F}
    (haddrs : addrs index = before ++ m :: behind) (hm : table.heap m = some cell) :
    ∃ table', table.unlink index (before.getLast?.or none) m cell.next = some table' ∧
      Linked table'
        { chains with
          ht := Function.update chains.ht index
            ((chains.ht index).take before.length ++ (chains.ht index).drop (before.length + 1)) }
        (Function.update addrs index (before ++ behind)) := by
  have hcells := h.cells index
  have hnodup := h.nodup index
  have hbelow := h.below index
  rw [haddrs] at hcells hnodup hbelow
  have hrest : (before ++ behind).Nodup := hnodup.sublist ((List.sublist_cons_self m behind).append_left before)
  have hgone : m ∉ before ++ behind := (List.nodup_middle.mp hnodup).notMem
  have hnew : ∀ a ∈ before ++ behind, a < table.brk ∧ (a < table.brk → a ∈ addrs index) := by
    intro a ha
    have ha' : a ∈ before ++ m :: behind := by
      simp only [List.mem_append, List.mem_cons] at ha ⊢
      tauto
    exact ⟨hbelow a ha', fun _ => haddrs ▸ ha'⟩
  rcases List.eq_nil_or_concat' before with rfl | ⟨front, prev, rfl⟩
  · obtain ⟨hstart, cell', rest, hcell', hchain, hbehind⟩ := hcells.cons_inv
    obtain rfl : cell = cell' := Option.some.inj (hm.symm.trans hcell')
    refine ⟨_, rfl, h.update rfl rfl (Nat.le_refl _) ?_ ?_ hrest hnew⟩
    · intro a _ ha
      exact Function.update_of_ne (by rintro rfl; simp [haddrs] at ha) _ _
    · rw [hchain]
      exact hbehind.congr fun a ha => Function.update_of_ne (ne_of_mem_of_not_mem ha hgone) _ _
  · obtain ⟨pcell, hprev⟩ := hcells.cell_of_mem (a := prev) (by simp)
    have hunlink : table.unlink index ((front ++ [prev]).getLast?.or none) m cell.next = some { table with
        heap := Function.update (Function.update table.heap prev (some { pcell with next := cell.next })) m none } := by
      have hlast : (front ++ [prev]).getLast?.or none = some prev := by simp
      rw [hlast, Buckets.unlink, hprev, Option.map_some]
    refine ⟨_, hunlink, h.update rfl (Function.update_eq_self ..).symm (Nat.le_refl _) ?_
      (hcells.unlink hnodup hm hprev) hrest hnew⟩
    intro a _ ha
    rw [haddrs] at ha
    dsimp only
    rw [Function.update_of_ne (by rintro rfl; simp at ha), Function.update_of_ne (by rintro rfl; simp at ha)]

/-- A call of the table of chains, and the same call on the cells. -/
def Follows (table : Buckets F) (chains' : Except (BufError F) (BufHashTbl F))
    (call : Option (TableOutcome F × Buckets F)) : Prop :=
  match chains' with
  | .ok chains' => ∃ table' addrs', call = some (.ok none, table') ∧ Linked table' chains' addrs'
  | .error error => call = some (.error error, table)

theorem Linked.lookup_eq (h : Linked table chains addrs) (hash : F → PageId → Nat) (file : F) (pageNo : PageId) :
    table.lookup hash file pageNo = some ((chains.lookup hash file pageNo).map some, table) := by
  rw [Buckets.lookup, h.head_eq hash file pageNo, Option.bind_some,
    (h.cells _).seek_eq file pageNo (h.length_le _), BufHashTbl.lookup, Option.map_some]
  cases (chains.ht (chains.index hash file pageNo)).find? (HashBucket.isFor file pageNo) <;> rfl

theorem Linked.insert (h : Linked table chains addrs) (hash : F → PageId → Nat) (file : F) (pageNo : PageId)
    (frameNo : FrameId) :
    Follows table (chains.insert hash file pageNo frameNo) (table.insert hash file pageNo frameNo) := by
  rw [Buckets.insert, h.head_eq hash file pageNo, Option.bind_some,
    (h.cells _).seek_eq file pageNo (h.length_le _), BufHashTbl.insert, Option.map_some]
  cases (chains.ht (chains.index hash file pageNo)).find? (HashBucket.isFor file pageNo) with
  | some bucket => rfl
  | none => exact ⟨_, _, rfl, h.link _ _⟩

theorem Linked.remove (h : Linked table chains addrs) (hash : F → PageId → Nat) (file : F) (pageNo : PageId) :
    Follows table (chains.remove hash file pageNo) (table.remove hash file pageNo) := by
  rw [Buckets.remove, h.head_eq hash file pageNo, Option.bind_some, BufHashTbl.remove]
  by_cases hany : (chains.ht (chains.index hash file pageNo)).any (HashBucket.isFor file pageNo) = true
  · rw [if_pos hany]
    obtain ⟨before, m, behind, cell, haddrs, hm, herase, hloop⟩ :=
      (h.cells _).removeFrom_found hany (chains.index hash file pageNo) none (h.length_le _)
    obtain ⟨table', hunlink, hlinked⟩ := h.unlink haddrs hm
    rw [hunlink, Option.map_some] at hloop
    rw [herase]
    exact ⟨table', _, hloop, hlinked⟩
  · have hnone : (chains.ht (chains.index hash file pageNo)).find? (HashBucket.isFor file pageNo) = none := by
      rw [List.find?_eq_none]
      intro bucket hbucket hfor
      exact hany (List.any_eq_true.mpr ⟨bucket, hbucket, hfor⟩)
    rw [if_neg hany]
    exact (h.cells _).removeFrom_absent hnone _ none (h.length_le _)

end Linked

end Buckets

/-! ### The finite map -/

/-- A call on a finite map from pages to frames. -/
def mapCall (entries : F → PageId → Option FrameId) : TableCall F → TableOutcome F × (F → PageId → Option FrameId)
  | .insert file pageNo frameNo =>
    match entries file pageNo with
    | some old => (.error (.hashAlreadyPresent file pageNo old), entries)
    | none => (.ok none, fun g q => if g = file ∧ q = pageNo then some frameNo else entries g q)
  | .lookup file pageNo =>
    match entries file pageNo with
    | some frameNo => (.ok (some frameNo), entries)
    | none => (.error (.hashNotFound file pageNo), entries)
  | .remove file pageNo =>
    match entries file pageNo with
    | some _ => (.ok none, fun g q => if g = file ∧ q = pageNo then none else entries g q)
    | none => (.error (.hashNotFound file pageNo), entries)

/-- A sequence of calls on a finite map. -/
def mapRun (entries : F → PageId → Option FrameId) :
    List (TableCall F) → List (TableOutcome F) × (F → PageId → Option FrameId)
  | [] => ([], entries)
  | c :: calls =>
    let rest := mapRun (mapCall entries c).2 calls
    ((mapCall entries c).1 :: rest.1, rest.2)

namespace Buckets

/-- The table stands for the map. -/
def Stands (hash : F → PageId → Nat) (table : Buckets F) (entries : F → PageId → Option FrameId) : Prop :=
  ∃ chains addrs, Linked table chains addrs ∧ chains.Distinct ∧
    ∀ file pageNo, chains.entry hash file pageNo = entries file pageNo

section Map

variable {hash : F → PageId → Nat} {table : Buckets F} {entries : F → PageId → Option FrameId}

/-- A call does to the table what it does to the map, and changes nothing if it throws. -/
theorem Stands.call (h : Stands hash table entries) (c : TableCall F) :
    ∃ table', table.call hash c = some ((mapCall entries c).1, table') ∧ Stands hash table' (mapCall entries c).2 ∧
      ∀ error, (mapCall entries c).1 = .error error → table' = table := by
  obtain ⟨chains, addrs, hlinked, hdistinct, hentries⟩ := h
  cases c with
  | insert file pageNo frameNo =>
    have hcode := hlinked.insert hash file pageNo frameNo
    cases hold : entries file pageNo with
    | some old =>
      rw [BufHashTbl.insert_present ((hentries file pageNo).trans hold)] at hcode
      rw [mapCall, hold]
      exact ⟨table, hcode, ⟨chains, addrs, hlinked, hdistinct, hentries⟩, fun _ _ => rfl⟩
    | none =>
      obtain ⟨chains', hok, hdistinct', hentries'⟩ :=
        BufHashTbl.insert_ok hdistinct ((hentries file pageNo).trans hold) frameNo
      rw [hok] at hcode
      obtain ⟨table', addrs', hcall, hlinked'⟩ := hcode
      rw [mapCall, hold]
      refine ⟨table', hcall, ⟨chains', addrs', hlinked', hdistinct', fun g q => ?_⟩, fun error herror => ?_⟩
      · rw [hentries', hentries]
      · simp at herror
  | lookup file pageNo =>
    have hcode := hlinked.lookup_eq hash file pageNo
    rw [BufHashTbl.lookup_eq, hentries] at hcode
    refine ⟨table, ?_, ?_, fun _ _ => rfl⟩
    · rw [Buckets.call, hcode, mapCall]
      cases entries file pageNo <;> rfl
    · have hsame : (mapCall entries (.lookup file pageNo)).2 = entries := by
        rw [mapCall]
        cases entries file pageNo <;> rfl
      rw [hsame]
      exact ⟨chains, addrs, hlinked, hdistinct, hentries⟩
  | remove file pageNo =>
    have hcode := hlinked.remove hash file pageNo
    cases hold : entries file pageNo with
    | some old =>
      obtain ⟨chains', hok, hdistinct', hentries'⟩ :=
        BufHashTbl.remove_ok hdistinct ((hentries file pageNo).trans hold)
      rw [hok] at hcode
      obtain ⟨table', addrs', hcall, hlinked'⟩ := hcode
      rw [mapCall, hold]
      refine ⟨table', hcall, ⟨chains', addrs', hlinked', hdistinct', fun g q => ?_⟩, fun error herror => ?_⟩
      · rw [hentries', hentries]
      · simp at herror
    | none =>
      rw [BufHashTbl.remove_absent ((hentries file pageNo).trans hold)] at hcode
      rw [mapCall, hold]
      exact ⟨table, hcode, ⟨chains, addrs, hlinked, hdistinct, hentries⟩, fun _ _ => rfl⟩

theorem Stands.run (h : Stands hash table entries) (calls : List (TableCall F)) :
    ∃ table', table.run hash calls = some ((mapRun entries calls).1, table') ∧
      Stands hash table' (mapRun entries calls).2 := by
  induction calls generalizing table entries with
  | nil => exact ⟨table, rfl, h⟩
  | cons c calls ih =>
    obtain ⟨table', hcall, hstands, -⟩ := h.call c
    obtain ⟨last, hrun, hlast⟩ := ih hstands
    refine ⟨last, ?_, hlast⟩
    rw [Buckets.run, hcall]
    simp only [Option.bind_eq_bind, Option.bind_some, hrun]
    rfl

end Map

/-- Over every run of calls the hash table returns and throws what a finite map does, whatever the keys that share a
chain; and a call that throws leaves it as it is. -/
theorem table_is_map (hash : F → PageId → Nat) {htSize : Nat} (hsize : 1 ≤ htSize) (calls : List (TableCall F)) :
    ∃ table, (Buckets.new F htSize).run hash calls = some ((mapRun (fun _ _ => none) calls).1, table) ∧
      ∀ c, ∃ table', table.call hash c = some ((mapCall (mapRun (fun _ _ => none) calls).2 c).1, table') ∧
        ∀ error, (mapCall (mapRun (fun _ _ => none) calls).2 c).1 = .error error → table' = table := by
  have hnew : Stands hash (Buckets.new F htSize) fun _ _ => none :=
    ⟨BufHashTbl.new F htSize, fun _ => [], linked_new hsize, BufHashTbl.distinct_new htSize, fun _ _ => rfl⟩
  obtain ⟨table, hrun, hstands⟩ := hnew.run calls
  refine ⟨table, hrun, fun c => ?_⟩
  obtain ⟨table', hcall, -, hthrows⟩ := hstands.call c
  exact ⟨table', hcall, hthrows⟩

/-- Four pages share the only chain; one is removed in its middle, one at its head and one at its end. -/
theorem table_is_map_collisions : ∃ table, (Buckets.new Nat 1).run (fun _ _ => 5)
    [.insert 1 1 10, .insert 1 2 20, .insert 2 1 30, .insert 2 2 40, .remove 2 1, .remove 2 2, .remove 1 1,
      .lookup 1 2, .lookup 1 1] =
    some ([.ok none, .ok none, .ok none, .ok none, .ok none, .ok none, .ok none, .ok (some 20),
      .error (.hashNotFound 1 1)], table) := by
  obtain ⟨table, hrun, -⟩ := table_is_map (fun (_ : Nat) (_ : PageId) => 5) (Nat.le_refl 1)
    [.insert 1 1 10, .insert 1 2 20, .insert 2 1 30, .insert 2 2 40, .remove 2 1, .remove 2 2, .remove 1 1,
      .lookup 1 2, .lookup 1 1]
  exact ⟨table, hrun⟩

end Buckets

end Cs564.P2
