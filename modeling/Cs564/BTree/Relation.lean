import Cs564.BTree.RangeScan
import Cs564.P3Buffer.RecordScan

/-!
# An index over a relation

The constructor of `BTreeIndex` inserts a pair for each record that a `FileScan` over the relation returns.  The relation is a
file of a record store in a state of a session, and clients work on other files between the calls of the scan
(`ScannedRecords`).  The index that is built from these pairs, in the plain store, has one entry for every record, under the
`int` at the offset of the attribute (`construct_relation`), and a range scan of it selects the records in the range where
the bounds are no fault (`select_relation`).
-/

namespace Cs564.BTree

open P3 (ScanSession Answers Heap RecordRun Stores)
open P2 (BufMgr)
open PageStore

/-! ### The pairs -/

/-- `*(int *)(record + attrByteOffset)`, where `record` is the `c_str` of a string; `none` outside of it. -/
def intAt (attrByteOffset : Int) (record : List UInt8) : Option Int :=
  if attrByteOffset < 0 then none
  else
    match ((record ++ [0]).drop attrByteOffset.toNat).take 4 with
    | [b₀, b₁, b₂, b₃] =>
      some (Int.bmod (b₀.toNat + b₁.toNat * 2 ^ 8 + b₂.toNat * 2 ^ 16 + b₃.toNat * 2 ^ 24 : Nat) (2 ^ 32))
    | _ => none

theorem isInt_of_intAt {attrByteOffset : Int} {record : List UInt8} {key : Int}
    (h : intAt attrByteOffset record = some key) : IsInt key := by
  have hint : ∀ n : Nat, IsInt (Int.bmod n (2 ^ 32)) := by
    intro n
    have hlow : -((2 ^ 32 : Nat) / 2 : Int) ≤ Int.bmod n (2 ^ 32) := Int.le_bmod (Nat.two_pow_pos 32)
    have hhigh : Int.bmod n (2 ^ 32) < ((2 ^ 32 : Nat) + 1 : Int) / 2 := Int.bmod_lt (Nat.two_pow_pos 32)
    unfold IsInt INT_MIN INT_MAX
    omega
  unfold intAt at h
  split at h
  · cases h
  · split at h
    · obtain rfl := Option.some.inj h
      exact hint _
    · cases h

/-- The pairs that the constructor inserts. -/
def entriesOf (attrByteOffset : Int) (records : List (RecordId × List UInt8)) : List (Int × RecordId) :=
  records.filterMap fun r => (intAt attrByteOffset r.2).map fun key => (key, r.1)

section Entries

variable {attrByteOffset : Int} {records : List (RecordId × List UInt8)}

theorem mem_entriesOf {key : Int} {rid : RecordId} : (key, rid) ∈ entriesOf attrByteOffset records ↔
    ∃ record, (rid, record) ∈ records ∧ intAt attrByteOffset record = some key := by
  simp [entriesOf]

theorem entriesOf_rids (hattr : ∀ r ∈ records, (intAt attrByteOffset r.2).isSome) :
    (entriesOf attrByteOffset records).map Prod.snd = records.map Prod.fst := by
  induction records with
  | nil => rfl
  | cons r records ih =>
    obtain ⟨key, hkey⟩ := Option.isSome_iff_exists.mp (hattr r List.mem_cons_self)
    have hrest := ih fun r hr => hattr r (List.mem_cons_of_mem _ hr)
    rw [entriesOf, List.filterMap_cons, hkey]
    exact congrArg (r.1 :: ·) hrest

end Entries

/-! ### The relation -/

/-- The relation has a record `rid` whose attribute is `key`. -/
def HasAttribute {N : Type} (heap : Heap N) (relation : N) (attrByteOffset : Int) (rid : RecordId) (key : Int) : Prop :=
  rid.padding = 0 ∧ ∃ live record, heap (relation, rid.page_number) = some live ∧
    live rid.slot_number = some record ∧ intAt attrByteOffset record = some key

/-- What a selection by the index is to be: nothing is found if no record has its attribute in the range, and otherwise
the scan returns the records that have, by their attributes. -/
def Selects {N : Type} (heap : Heap N) (relation : N) (attrByteOffset : Int) (low : Int) (lowOp : Operator) (high : Int)
    (highOp : Operator) (w : World PageStore PageId) (fuel : Nat) : Prop :=
  (∃ w', startScan layer fuel low lowOp high highOp w = .error .noSuchKeyFound w' ∧
      ∀ rid key, HasAttribute heap relation attrByteOffset rid key → ¬InRange low lowOp high highOp key) ∨
    ∃ (w' : World PageStore PageId) (l : List RIDKeyPair), startScan layer fuel low lowOp high highOp w = .ok () w' ∧
      l.Pairwise (fun a b => a.key < b.key) ∧
      (∀ rid key, ⟨rid, key⟩ ∈ l ↔
        HasAttribute heap relation attrByteOffset rid key ∧ InRange low lowOp high highOp key) ∧
      ScanReturns layer w' (l.map (·.rid))

/-- Without faults, the outcomes of `startScan`. -/
theorem Tree.selects {w : World PageStore PageId} {h : Nat} {t : Branch} {low high : Int} {lowOp highOp : Operator}
    (ht : Tree w h t) (hd : t.entries.Pairwise fun a b => a.key < b.key) (hint : ∀ x ∈ t.entries, IsInt x.key)
    (ha : ScanArgs low lowOp high highOp) (hstray : ¬StrayRoot w low)
    (hstart : ¬StartFault (t.leaves.map (·.2)) low lowOp high highOp)
    (hscan : ¬ScanFault (t.leaves.map (·.2)) low lowOp high highOp) {fuel : Nat} (hfuel : h ≤ fuel) :
    (∃ w', BTree.startScan layer fuel low lowOp high highOp w = .error .noSuchKeyFound w' ∧
        ∀ x ∈ t.entries, ¬InRange low lowOp high highOp x.key) ∨
      ∃ w', BTree.startScan layer fuel low lowOp high highOp w = .ok () w' ∧
        ScanReturns layer w' ((t.entries.filter fun x => decide (InRange low lowOp high highOp x.key)).map (·.rid)) := by
  obtain ⟨A, q, L, B, -, hrun⟩ := ht.startScan hd ha hstray
  have hok := (hrun fuel).2 hfuel
  cases hes : startEntries low lowOp high L (B.map (·.2)) with
  | none =>
    simp only [hes] at hok
    obtain ⟨w', hthrows⟩ := hok
    exact .inl ⟨w', hthrows, ((ht.throws_iff hd hint ha hstray).mpr hstart).mp ⟨fuel, w', hthrows⟩⟩
  | some es =>
    simp only [hes] at hok
    obtain ⟨w', hreturns, -⟩ := hok
    exact .inr ⟨w', hreturns, (ht.returns_iff hd hint ha hstray).mpr hscan fuel w' hreturns⟩

/-! ### The index -/

section Relation

variable {F N : Type} [DecidableEq F] [DecidableEq N]

/-- A scan of the relation returns `records`, which are its records, each once; before each of its calls other clients have
worked on other files as they like. -/
structure ScannedRecords (hash : F → PageId → Nat) (filename : F → N) (file : F)
    (mgr : BufMgr F Cs564.Page (N → PageFile)) (edits : P3.Edits N Cs564.Page) (heap : Heap N)
    (records : List (RecordId × List UInt8)) : Prop where
  nodup : (records.map Prod.fst).Nodup
  mem : ∀ rid record, (rid, record) ∈ records ↔ rid.padding = 0 ∧
    ∃ live, heap (filename file, rid.page_number) = some live ∧ live rid.slot_number = some record
  opens : ∃ s, P3.openScan filename file mgr = .ok () s
  answers : ∀ n s edits' heap', ScanSession hash filename file mgr edits heap n s edits' heap' →
    Answers filename hash s records[n]?

variable {hash : F → PageId → Nat} {filename : F → N} {file : F} {mgr : BufMgr F Cs564.Page (N → PageFile)}
  {edits : P3.Edits N Cs564.Page} {heap : Heap N} {records : List (RecordId × List UInt8)} {attrByteOffset : Int}

/-- The pairs of the records are those of the attribute. -/
theorem ScannedRecords.mem_entriesOf (h : ScannedRecords hash filename file mgr edits heap records) {rid : RecordId}
    {key : Int} :
    (key, rid) ∈ entriesOf attrByteOffset records ↔ HasAttribute heap (filename file) attrByteOffset rid key := by
  rw [BTree.mem_entriesOf]
  constructor
  · rintro ⟨record, hr, hkey⟩
    obtain ⟨hpadding, live, hheap, hlive⟩ := (h.mem rid record).mp hr
    exact ⟨hpadding, live, record, hheap, hlive, hkey⟩
  · rintro ⟨hpadding, live, record, hheap, hlive, hkey⟩
    exact ⟨record, (h.mem rid record).mpr ⟨hpadding, live, hheap, hlive⟩, hkey⟩

variable {bufs : Nat} {page : Cs564.Page} {files : N → PageFile} {heap₀ : Heap N}
  (hstores : Stores files heap₀) (hrun : RecordRun hash filename bufs page files heap₀ mgr edits heap)
  (hpos : 0 < mgr.numBufs) (hnew : ∀ i f p, mgr.Holds i f p → filename f ≠ filename file)
  (hattr : ∀ p live slot record, heap (filename file, p) = some live → live slot = some record →
    (intAt attrByteOffset record).isSome)
  (index : BTreeIndex PageId) (relationName : Nat → Nat) (nameLength : Nat) (attrType : Datatype)
include hstores hrun hpos hnew hattr

/-- The tree over a relation that no client has in the pool. -/
theorem construct_tree : ∃ records, ScannedRecords hash filename file mgr edits heap records ∧
    ((entriesOf attrByteOffset records).map Prod.snd).Nodup ∧
    ∃ w h t, construct layer relationName nameLength attrByteOffset attrType (entriesOf attrByteOffset records)
        ⟨index, created⟩ = .ok () w ∧
      Tree w h t ∧ t.entries = contents (entriesOf attrByteOffset records) := by
  obtain ⟨used, free, hlists, hdisk, -, htogether⟩ := hrun.scans hstores hpos hnew
  have hscanned : ScannedRecords hash filename file mgr edits heap (P3.recordsOf (mgr.files (filename file)) used) := by
    refine ⟨P3.recordsOf_nodup hlists hdisk.readable, fun _ _ => hdisk.mem_recordsOf, ⟨_, P3.openScan_eq hlists⟩,
      fun n s edits' heap' hsession => ?_⟩
    rw [← List.head?_drop]
    exact ((htogether n s edits' heap' hsession).stands.scanNext hlists hdisk.readable).answers
  have hisSome : ∀ r ∈ P3.recordsOf (mgr.files (filename file)) used, (intAt attrByteOffset r.2).isSome := by
    rintro ⟨rid, record⟩ hr
    obtain ⟨-, live, hheap, hlive⟩ := hdisk.mem_recordsOf.mp hr
    exact hattr _ live _ record hheap hlive
  -- the pairs have page numbers
  have hv : ∀ e ∈ entriesOf attrByteOffset (P3.recordsOf (mgr.files (filename file)) used),
      e.2.page_number ≠ INVALID_NUMBER := by
    rintro ⟨key, rid⟩ he hzero
    obtain ⟨-, live, -, hheap, -⟩ := hscanned.mem_entriesOf.mp he
    by_cases hp : rid.page_number ∈ used
    · exact Nat.ne_of_gt (hlists.used_pos hp) hzero
    · rw [hdisk.2 _ hp] at hheap
      cases hheap
  have hnewTree := tree_new index attrByteOffset attrType (newMeta relationName nameLength attrByteOffset attrType)
  obtain ⟨r, pages, h, t, hinsert, htree, hentries⟩ := hnewTree.insertAll _ (show _ = contents [] from rfl) hv
  refine ⟨_, hscanned, ?_, _, h, t, (construct_eq ..).trans hinsert, htree, hentries⟩
  rw [entriesOf_rids hisSome]
  exact hscanned.nodup

omit hstores hrun hpos hnew hattr in
/-- The entries of such a tree. -/
theorem ScannedRecords.entries (h : ScannedRecords hash filename file mgr edits heap records)
    (hnodup : ((entriesOf attrByteOffset records).map Prod.snd).Nodup) :
    ((contents (entriesOf attrByteOffset records)).map RIDKeyPair.rid).Nodup ∧
      ∀ rid key, ⟨rid, key⟩ ∈ contents (entriesOf attrByteOffset records) ↔
        HasAttribute heap (filename file) attrByteOffset rid key := by
  have hperm := contents_perm (entriesOf attrByteOffset records)
  have hrids : (pairs (entriesOf attrByteOffset records)).map RIDKeyPair.rid =
      (entriesOf attrByteOffset records).map Prod.snd := by
    rw [pairs, List.map_map]
    rfl
  refine ⟨(hperm.map RIDKeyPair.rid).nodup_iff.mpr (hrids ▸ hnodup), fun rid key => ?_⟩
  rw [← h.mem_entriesOf, hperm.mem_iff, pairs, List.mem_map]
  constructor
  · rintro ⟨⟨key', rid'⟩, he, heq⟩
    cases heq
    exact he
  · exact fun he => ⟨(key, rid), he, rfl⟩

/-- The index over the pairs of the records that a scan of the relation returns: the constructor returns, and the walk over
the leaves then finds one entry for every record of the relation, under its attribute and sorted by it. -/
theorem construct_relation : ∃ records, ScannedRecords hash filename file mgr edits heap records ∧
    ∃ w l, construct layer relationName nameLength attrByteOffset attrType (entriesOf attrByteOffset records)
        ⟨index, created⟩ = .ok () w ∧
      leafWalk w = some l ∧ (l.map RIDKeyPair.rid).Nodup ∧ KeySorted RIDKeyPair.key l ∧
      ∀ rid key, ⟨rid, key⟩ ∈ l ↔ HasAttribute heap (filename file) attrByteOffset rid key := by
  obtain ⟨records, hscanned, hnodup, w, h, t, hconstruct, htree, hentries⟩ :=
    construct_tree hstores hrun hpos hnew hattr index relationName nameLength attrType
  obtain ⟨hrids, hmem⟩ := hscanned.entries hnodup
  have hwalk : leafWalk w = some (contents (entriesOf attrByteOffset records)) :=
    htree.leafWalk_eq.trans (congrArg some hentries)
  exact ⟨records, hscanned, w, _, hconstruct, hwalk, hrids, contents_sorted _, hmem⟩

/-- The selection by the index of a relation whose attributes are pairwise different: if the bounds are no fault and the
search stays in the tree, it does on the index what it means on the relation. -/
theorem select_relation
    (hdistinct : ∀ rid rid' key, HasAttribute heap (filename file) attrByteOffset rid key →
      HasAttribute heap (filename file) attrByteOffset rid' key → rid = rid') :
    ∃ records, ScannedRecords hash filename file mgr edits heap records ∧
      ∃ w blocks depth, construct layer relationName nameLength attrByteOffset attrType (entriesOf attrByteOffset records)
          ⟨index, created⟩ = .ok () w ∧
        leafBlocks w = some blocks ∧
        ∀ low lowOp high highOp, ScanArgs low lowOp high highOp → ¬StrayRoot w low →
          ¬StartFault blocks low lowOp high highOp → ¬ScanFault blocks low lowOp high highOp →
          ∀ fuel, depth ≤ fuel → Selects heap (filename file) attrByteOffset low lowOp high highOp w fuel := by
  obtain ⟨records, hscanned, hnodup, w, h, t, hconstruct, htree, hentries⟩ :=
    construct_tree hstores hrun hpos hnew hattr index relationName nameLength attrType
  obtain ⟨hrids, hmem⟩ := hscanned.entries hnodup
  rw [← hentries] at hrids hmem
  have hne : t.entries.Pairwise fun a b => a.key ≠ b.key := by
    refine hrids.of_map.pairwise_of_forall_ne fun a ha b hb hab heq => hab ?_
    obtain ⟨rid, key⟩ := a
    obtain ⟨rid', key'⟩ := b
    obtain rfl : key = key' := heq
    rw [hdistinct rid rid' key ((hmem rid key).mp ha) ((hmem rid' key).mp hb)]
  have hsorted : KeySorted RIDKeyPair.key t.entries := hentries ▸ contents_sorted _
  have hlt : t.entries.Pairwise fun a b => a.key < b.key := (hsorted.and hne).imp fun hab => lt_of_le_of_ne hab.1 hab.2
  have hint : ∀ x ∈ t.entries, IsInt x.key := by
    rintro ⟨rid, key⟩ hx
    obtain ⟨-, live, record, -, -, hkey⟩ := (hmem rid key).mp hx
    exact isInt_of_intAt hkey
  refine ⟨records, hscanned, w, _, h, hconstruct, htree.leafBlocks_eq, ?_⟩
  intro low lowOp high highOp ha hstray hstart hscan fuel hfuel
  rcases htree.selects hlt hint ha hstray hstart hscan hfuel with ⟨w', hthrows, hempty⟩ | ⟨w', hreturns, hscans⟩
  · exact .inl ⟨w', hthrows, fun rid key hrid => hempty ⟨rid, key⟩ ((hmem rid key).mpr hrid)⟩
  · refine .inr ⟨w', _, hreturns, hlt.filter _, fun rid key => ?_, hscans⟩
    rw [List.mem_filter, hmem, decide_eq_true_iff]

end Relation

/-! ### A relation of one record -/

/-- The records of the session. -/
theorem flushedRecord_only (p : PageId) (live : RecordMap) (slot : SlotId) (record : List UInt8)
    (hheap : (P3.runRecordCalls 1 P3.flushedRecord).2.2 ((), p) = some live) (hlive : live slot = some record) :
    p = 1 ∧ slot = 1 ∧ record = [7, 0, 0, 0] := by
  -- a page that is allocated has no records
  have hnew : ∀ p live, (P3.runRecordCalls 1 [.allocPage ()]).2.2 ((), p) = some live → live = fun _ => none := by
    intro p live hheap
    change (P3.RecordCall.allocPage ()).heap (P3.hash fun _ => 0) id (P3.newBufMgr 1 .fresh fun _ => .create)
      (fun _ => none) ((), p) = some live at hheap
    rw [P3.RecordCall.heap] at hheap
    cases hrun : P3.allocPage (P3.pageFiles id) (P3.hash fun _ => 0) () (P3.newBufMgr 1 .fresh fun _ => .create) with
    | ok new m =>
      rw [hrun] at hheap
      dsimp only at hheap
      rw [Function.update_apply] at hheap
      split at hheap
      · exact (Option.some.inj hheap).symm
      · cases hheap
    | error e m =>
      rw [hrun] at hheap
      cases hheap
  have hid : (((P3.runRecordCalls 1 [.allocPage ()]).1.bufPool 0).insertRecord [7, 0, 0, 0]).2.toOption.map
      (·.slot_number) = some 1 := by decide +kernel
  change (P3.RecordCall.onPage () 1 0 (.insertRecord [7, 0, 0, 0])).heap (P3.hash fun _ => 0) id
    (P3.runRecordCalls 1 [.allocPage ()]).1 (P3.runRecordCalls 1 [.allocPage ()]).2.2 ((), p) = some live at hheap
  rw [P3.RecordCall.heap, Function.update_apply] at hheap
  split at hheap
  · rename_i hp
    obtain ⟨live₀, hlive₀, rfl⟩ := Option.map_eq_some_iff.mp hheap
    obtain rfl := hnew _ _ hlive₀
    rw [PageCall.run] at hlive
    split at hlive
    · rename_i hinsert
      rw [hinsert] at hid
      dsimp only at hlive
      rw [Function.update_apply] at hlive
      split at hlive
      · rename_i hslot
        exact ⟨(Prod.mk.inj hp).2, hslot.trans (Option.some.inj hid), (Option.some.inj hlive).symm⟩
      · cases hlive
    · cases hlive
  · obtain rfl := hnew _ _ hheap
    cases hlive

theorem flushedRecord_isSome (p : PageId) (live : RecordMap) (slot : SlotId) (record : List UInt8)
    (hheap : (P3.runRecordCalls 1 P3.flushedRecord).2.2 ((), p) = some live) (hlive : live slot = some record) :
    (intAt 0 record).isSome := by
  obtain ⟨-, -, rfl⟩ := flushedRecord_only p live slot record hheap hlive
  decide

/-- The attribute of the record. -/
theorem flushedRecord_attribute (rid : RecordId) (key : Int)
    (h : HasAttribute (P3.runRecordCalls 1 P3.flushedRecord).2.2 (id ()) 0 rid key) : rid = ⟨1, 1, 0⟩ ∧ key = 7 := by
  obtain ⟨hpadding, live, record, hheap, hlive, hkey⟩ := h
  obtain ⟨hpage, hslot, rfl⟩ := flushedRecord_only rid.page_number live rid.slot_number record hheap hlive
  have hseven : intAt 0 [7, 0, 0, 0] = some 7 := by decide
  refine ⟨?_, Option.some.inj (hkey.symm.trans hseven)⟩
  cases rid
  cases hpage
  cases hslot
  cases hpadding
  rfl

theorem flushedRecord_pos : 0 < (P3.runRecordCalls 1 P3.flushedRecord).1.numBufs := by decide +kernel

/-- A scan returns the record. -/
theorem flushedRecord_scanned {records : List (RecordId × List UInt8)}
    (h : ScannedRecords (P3.hash fun _ => 0) id () (P3.runRecordCalls 1 P3.flushedRecord).1
      (P3.runRecordCalls 1 P3.flushedRecord).2.1 (P3.runRecordCalls 1 P3.flushedRecord).2.2 records) :
    records = [(⟨1, 1, 0⟩, [7, 0, 0, 0])] := by
  have hheap : ((P3.runRecordCalls 1 P3.flushedRecord).2.2 ((), 1)).bind (fun live => live 1) = some [7, 0, 0, 0] := by
    decide +kernel
  have hmem : (⟨1, 1, 0⟩, [7, 0, 0, 0]) ∈ records := (h.mem _ _).mpr ⟨rfl, Option.bind_eq_some_iff.mp hheap⟩
  have hall : ∀ x ∈ records, x = (⟨1, 1, 0⟩, [7, 0, 0, 0]) := by
    rintro ⟨⟨page, slot, padding⟩, record⟩ hx
    obtain ⟨rfl, live, hlive, hrecord⟩ := (h.mem _ _).mp hx
    obtain ⟨rfl, rfl, rfl⟩ := flushedRecord_only _ live _ record hlive hrecord
    rfl
  have hlength : records.length = 1 := by
    refine Nat.le_antisymm ?_ (List.length_pos_of_mem hmem)
    have hsub : records.map Prod.fst ⊆ [⟨1, 1, 0⟩] := fun rid hrid => by
      obtain ⟨x, hx, rfl⟩ := List.mem_map.mp hrid
      rw [hall x hx]
      exact List.mem_singleton_self _
    have hle := (h.nodup.subperm hsub).length_le
    rwa [List.length_map] at hle
  obtain ⟨x, rfl⟩ := List.length_eq_one_iff.mp hlength
  rw [hall x List.mem_cons_self]

/-- A relation with one record, whose attribute is 7. -/
theorem construct_relation_one : ∃ w, construct layer (fun _ => 0) 0 0 .INTEGER
      (entriesOf 0 [(⟨1, 1, 0⟩, [7, 0, 0, 0])]) ⟨uninitialized, created⟩ = .ok () w ∧
    ∃ l, leafWalk w = some l ∧ ⟨⟨1, 1, 0⟩, 7⟩ ∈ l := by
  obtain ⟨records, hscanned, w, l, hconstruct, hwalk, -, -, hmem⟩ := construct_relation P3.stores_create
    P3.fixedRun_flushedRecord flushedRecord_pos P3.flushedRecord_new flushedRecord_isSome uninitialized (fun _ => 0) 0
    .INTEGER
  obtain rfl := flushedRecord_scanned hscanned
  have hrecord : ((⟨1, 1, 0⟩ : RecordId), ([7, 0, 0, 0] : List UInt8)) ∈
      ([(⟨1, 1, 0⟩, [7, 0, 0, 0])] : List (RecordId × List UInt8)) := List.mem_singleton_self _
  obtain ⟨hpadding, live, hlive, hslot⟩ := (hscanned.mem _ _).mp hrecord
  exact ⟨w, hconstruct, l, hwalk, (hmem _ _).mpr ⟨hpadding, live, _, hlive, hslot, by decide⟩⟩

/-- The record is selected. -/
theorem select_relation_one : ∃ w fuel, construct layer (fun _ => 0) 0 0 .INTEGER
      (entriesOf 0 [(⟨1, 1, 0⟩, [7, 0, 0, 0])]) ⟨uninitialized, created⟩ = .ok () w ∧
    Selects (P3.runRecordCalls 1 P3.flushedRecord).2.2 () 0 7 .GTE 8 .LT w fuel := by
  obtain ⟨records, hscanned, w, blocks, depth, hconstruct, hblocks, hselects⟩ := select_relation P3.stores_create
    P3.fixedRun_flushedRecord flushedRecord_pos P3.flushedRecord_new flushedRecord_isSome uninitialized (fun _ => 0) 0
    .INTEGER fun rid rid' key h h' =>
      (flushedRecord_attribute rid key h).1.trans (flushedRecord_attribute rid' key h').1.symm
  obtain rfl := flushedRecord_scanned hscanned
  have hruns : returned (fun _ w => decide (¬StrayRoot w 7) && decide (leafBlocks w = some [[⟨⟨1, 1, 0⟩, 7⟩]]))
      (construct layer (fun _ => 0) 0 0 .INTEGER (entriesOf 0 [(⟨1, 1, 0⟩, [7, 0, 0, 0])]) ⟨uninitialized, created⟩) =
        true := by
    decide +kernel
  rw [hconstruct] at hruns
  obtain ⟨hstray, hone⟩ := Bool.and_eq_true_iff.mp hruns
  obtain rfl := Option.some.inj (hblocks.symm.trans (of_decide_eq_true hone))
  -- the first entry of the range has the attribute 7
  have hseven : ∀ {A X e Y B}, FirstAbove [[⟨⟨1, 1, 0⟩, 7⟩]] 7 .GTE A X e Y B → e.key = 7 := by
    intro A X e Y B hfirst
    have he : e ∈ [[(⟨⟨1, 1, 0⟩, 7⟩ : RIDKeyPair)]].flatten := by
      rw [hfirst.eq]
      simp
    rw [List.mem_singleton.mp he]
  refine ⟨w, depth, hconstruct, hselects 7 .GTE 8 .LT ?_ (of_decide_eq_true hstray) ?_ ?_ depth le_rfl⟩
  · exact ⟨by decide, by decide, by decide, .inr rfl, .inl rfl⟩
  · rintro ⟨A, X, e, Y, B, hfirst, hfault⟩
    have hkey := hseven hfirst
    omega
  · rintro ⟨A, X, e, Y, B, hfirst, hfault⟩
    have hkey := hseven hfirst
    omega

end Cs564.BTree
