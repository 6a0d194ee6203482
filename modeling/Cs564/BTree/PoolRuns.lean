import Cs564.BTree.Contents
import Cs564.BTree.PinCalls
import Mathlib.Algebra.BigOperators.Group.Finset.Basic

/-!
# Runs of the index over the buffer manager

An index is built or opened again over a pool that has no page of its file (`Opens`), then its methods are called, each of
which returns or throws one of the exceptions that `btree.h` documents, and other clients use the pool in between (`Run`).
In every state that is reached the index has the pin of its scan and no other (`Run.sound`, from one lemma for each
step).
-/

namespace Cs564.BTree

open P2 (BufError BufMgr)
open P3 (FileLayer BlobFile)

variable {F σ : Type} [DecidableEq F]

/-! ### Calls and runs -/

/-- The public methods of the index. -/
inductive Call
  | insertEntry (key : Int) (rid : RecordId)
  | startScan (low : Int) (lowOp : Operator) (high : Int) (highOp : Operator)
  | scanNext
  | endScan
deriving DecidableEq, Repr

/-- The run of a method and what it returns; `depth` and `fuel` bound its recursion and its loop. -/
def Call.run {τ Ptr : Type} (M : PageLayer τ Ptr) (depth : IndexMetaInfo → Nat) (fuel : Nat) :
    Call → EStateM Exc (World τ Ptr) (Option RecordId)
  | .insertEntry key rid => do
    insertEntryWithin M depth key rid
    return none
  | .startScan low lowOp high highOp => do
    BTree.startScan M fuel low lowOp high highOp
    return none
  | .scanNext => do
    let outRid ← BTree.scanNext M
    return some outRid
  | .endScan => do
    BTree.endScan M
    return none

/-- A pool that works, and has no page of the index file. -/
structure Idle (L : FileLayer F Page σ) (hash : F → PageId → Nat) (on : F → Prop) (mgr : BufMgr F Page σ) : Prop where
  agree : mgr.Agree hash
  storable : Storable L on mgr
  absent : ∀ i g p, mgr.Holds i g p → ¬ on g

/-- The constructor returns, over a pool that has no page of the index file: it built a new index file, or opened one that
exists. -/
inductive Opens (L : FileLayer F Page σ) (hash : F → PageId → Nat) (on : F → Prop) (blob : σ → BlobFile Page) (file : F)
    (w w' : World (BufMgr F Page σ) FrameId) : Prop
  | built {relationName : Nat → Nat} {nameLength : Nat} {attrByteOffset : Int} {attrType : Datatype}
      {entries : List (Int × RecordId)} (idle : Idle L hash on w.pages) (created : blob w.pages.files = .create Page)
      (run : Constructs L hash on file relationName nameLength attrByteOffset attrType entries w w')
  | reopened {attrByteOffset : Int} {attrType : Datatype} (idle : Idle L hash on w.pages)
      (run : reopen (poolLayer L hash file) (getFirstPageNo blob) attrByteOffset attrType w = .ok () w')

/-- The states that are reached from an index by calls with `ok`, while other clients use the pool. -/
inductive Run (L : FileLayer F Page σ) (hash : F → PageId → Nat) (on : F → Prop) (file : F) (ok : Call → Prop)
    (start : World (BufMgr F Page σ) FrameId) : World (BufMgr F Page σ) FrameId → Prop
  | start : Run L hash on file ok start start
  | returned {w w' : World (BufMgr F Page σ) FrameId} (before : Run L hash on file ok start w) {call : Call}
      (meets : ok call) {depth : IndexMetaInfo → Nat} {fuel : Nat} {rid : Option RecordId}
      (run : call.run (poolLayer L hash file) depth fuel w = .ok rid w') : Run L hash on file ok start w'
  | threw {w w' : World (BufMgr F Page σ) FrameId} (before : Run L hash on file ok start w) {call : Call}
      (meets : ok call) {depth : IndexMetaInfo → Nat} {fuel : Nat} {e : Exc}
      (run : call.run (poolLayer L hash file) depth fuel w = .error e w') (documented : e.Documented) :
      Run L hash on file ok start w'
  | other {w : World (BufMgr F Page σ) FrameId} (before : Run L hash on file ok start w) {mgr : BufMgr F Page σ}
      (step : Other L hash on w.pages mgr) : Run L hash on file ok start { w with pages := mgr }

/-! ### The constructor and the destructor -/

variable {L : FileLayer F Page σ} {hash : F → PageId → Nat} {on : F → Prop} {blob : σ → BlobFile Page} {file : F}
  {ok : Call → Prop} {w w' start opened : World (BufMgr F Page σ) FrameId}

theorem Idle.steady {mgr : BufMgr F Page σ} (h : Idle L hash on mgr) (hfile : on file) :
    Steady L hash on blob file [] [] mgr where
  agree := h.agree
  storable := h.storable
  alone i g p hi hg := absurd hg (h.absent i g p hi)
  pinned _ hx := absurd hx List.not_mem_nil
  count i p hi := absurd hfile (h.absent i file p hi)
  saved i p hi := absurd hfile (h.absent i file p hi)
  unsaved _ hp := absurd hp List.not_mem_nil

section Constructor

variable {pins : List (PageId × FrameId)} {unsaved : List PageId} (hL : Hosts L on blob) (hfile : on file)
include hL hfile

/-- `flushFile` does not throw when no page is pinned. -/
theorem flushFile_pins {exc : Exc → BufMgr F Page σ → Prop} :
    Triple (Steady L hash on blob file [] []) (poolLayer L hash file).flushFile
      (fun _ m => Steady L hash on blob file [] [] m ∧ ∀ i p, ¬ m.Holds i file p) exc := by
  refine Triple.of_ok (a := ()) fun mgr h => ?_
  obtain ⟨m, hm, -, -, ⟨i, p, hi, hpos, -⟩ | ⟨hrun, hclear⟩⟩ := h.flushFile hL hfile file
  · exact absurd (hm.mem_of_pos hi hpos) List.not_mem_nil
  · refine ⟨m, ?_, hm, hclear⟩
    show onPool (P3.flushFile L hash file) mgr = _
    rw [onPool, hrun]

/-- The two pages of a new index stay pinned, and their first bytes are not marked yet. -/
theorem constructPages_pins (relationName : Nat → Nat) (nameLength : Nat) (attrByteOffset : Int) (attrType : Datatype) :
    Triple (fun w => Steady L hash on blob file [] [] w.pages)
      (constructPages (poolLayer L hash file) relationName nameLength attrByteOffset attrType)
      (fun ids w => w.index.scanExecuting = false ∧ w.index.headerPageNum = ids.1 ∧
        ∃ i j, Steady L hash on blob file [(ids.2, j), (ids.1, i)] [ids.2, ids.1, ids.1] w.pages)
      (fun e w => Halts L hash on blob file [] e w.pages) :=
  (steady_books hL hfile).constructPages trivial (fun _ => trivial) relationName nameLength attrByteOffset attrType

/-- The two pages are given back with their changes, and no page of the file stays in the pool. -/
theorem constructEnd_pins {this : BTreeIndex FrameId} {metaPageId rootPageId : PageId} {i j : FrameId} :
    Triple (At this (Steady L hash on blob file [(rootPageId, j), (metaPageId, i)] unsaved))
      (constructEnd (poolLayer L hash file) metaPageId rootPageId)
      (fun _ => At this fun m => Steady L hash on blob file [] [] m ∧ ∀ i p, ¬ m.Holds i file p) fun _ _ => False :=
  (steady_books hL hfile).constructEnd (flushFile_pins hL hfile)

/-- The insertions of the constructor, by induction on them. -/
theorem Feeds.steady {entries : List (Int × RecordId)} (h : Feeds L hash on file entries w w')
    (hw : Steady L hash on blob file pins unsaved w.pages) :
    (∃ r, w'.index = { w.index with rootPageNum := r }) ∧ Steady L hash on blob file pins unsaved w'.pages := by
  induction h with
  | none => exact ⟨⟨_, rfl⟩, hw⟩
  | @insert _ _ _ _ before key rid run ih =>
    obtain ⟨⟨r, hindex⟩, hsteady⟩ := ih hw
    have hinsert := insertEntryWithin_pins hL hfile (fun metaInfo => metaInfo.height.toNat) key rid hsteady
    rw [← insertEntry, run] at hinsert
    obtain ⟨⟨r', hindex'⟩, hsteady'⟩ := hinsert
    exact ⟨⟨r', by rw [hindex', hindex]⟩, hsteady'⟩
  | other before step ih => exact ⟨(ih hw).1, ((ih hw).2.other hL hfile step).1⟩

theorem Opens.steady (h : Opens L hash on blob file w w') :
    w'.index.scanExecuting = false ∧ Steady L hash on blob file [] [] w'.pages := by
  cases h with
  | built idle created run =>
    obtain ⟨begins, feeds, ends⟩ := run
    obtain ⟨hexec, -, i, j, hpages⟩ := (constructPages_pins hL hfile _ _ _ _).ok_run (idle.steady hfile) begins
    obtain ⟨⟨r, hindex⟩, hfed⟩ := feeds.steady hL hfile hpages
    obtain ⟨hlast, hsteady, -⟩ := (constructEnd_pins hL hfile).ok_run ⟨rfl, hfed⟩ ends
    rw [hlast, hindex]
    exact ⟨hexec, hsteady⟩
  | @reopened offset attrType idle run =>
    have hreopen : Triple (At w.index (Steady L hash on blob file [] []))
        (reopen (poolLayer L hash file) (getFirstPageNo blob) offset attrType)
        (fun _ w' => w'.index.scanExecuting = false ∧ Steady L hash on blob file [] [] w'.pages)
        (Throws L hash on blob file) := by
      have hfirst : Triple (Steady L hash on blob file [] []) (getFirstPageNo blob)
          (fun _ => Steady L hash on blob file [] []) (Halts L hash on blob file []) := by
        intro mgr hmgr
        rw [getFirstPageNo]
        cases (blob mgr.files).getFirstPageNo with
        | ok p => exact hmgr
        | error e => exact ⟨.inr (.inl rfl), fun he => by cases he⟩
      rw [reopen]
      refine Triple.bind (setIndex_at _) fun _ => ?_
      refine Triple.bind (onPages_at hfirst halts_throws) fun p => ?_
      refine Triple.bind (setIndex_at _) fun _ => ?_
      refine Triple.bind (onPages_at (readPage_pins hL hfile p) halts_throws) fun i => ?_
      refine Triple.bind (onPages_at (deref_pins i) halts_throws) fun page => ?_
      refine Triple.bind (setIndex_at _) fun _ => ?_
      refine (onPages_at unPinLast_pins halts_throws).conseq (fun _ h => h) (fun _ w' h => ⟨?_, h.2⟩) fun _ _ h => h
      rw [h.1]
    exact hreopen.ok_run ⟨rfl, idle.steady hfile⟩ run

end Constructor

/-! ### Every call -/

section Calls

variable (hL : Hosts L on blob) (hfile : on file)
include hL hfile

theorem Call.pins (call : Call) (depth : IndexMetaInfo → Nat) (fuel : Nat) :
    Triple (Sound L hash on blob file) (call.run (poolLayer L hash file) depth fuel)
      (fun _ => Sound L hash on blob file) (Throws L hash on blob file) := by
  cases call with
  | insertEntry key rid =>
    refine Triple.bind (fun w hw => ?_) fun _ => Triple.pure fun w (h : Sound L hash on blob file w) => h
    have hinsert := insertEntryWithin_pins hL hfile depth key rid hw
    cases hrun : insertEntryWithin (poolLayer L hash file) depth key rid w with
    | ok _ w' =>
      rw [hrun] at hinsert
      obtain ⟨⟨r, hindex⟩, hsteady⟩ := hinsert
      show Steady L hash on blob file (scanPins w'.index) [] w'.pages
      rw [hindex]
      exact hsteady
    | error e w' =>
      rw [hrun] at hinsert
      cases hinsert with
      | atHeader run =>
        have hread := readPage_pins hL hfile w.index.headerPageNum w.pages hw
        rw [run] at hread
        exact .inl hread.drop
      | later run halts => exact .inl halts.drop
  | startScan low lowOp high highOp =>
    exact Triple.bind (startScan_pins hL hfile fuel low lowOp high highOp) fun _ => Triple.pure fun _ h => h
  | scanNext => exact Triple.bind (scanNext_pins hL hfile) fun _ => Triple.pure fun _ h => h
  | endScan =>
    have hend : Triple (Sound L hash on blob file) (BTree.endScan (poolLayer L hash file))
        (fun _ => Sound L hash on blob file) (Throws L hash on blob file) :=
      endScan_pins.conseq (fun _ h => h) (fun _ w h => h.2.sound_idle h.1) fun _ _ h => h
    exact Triple.bind hend fun _ => Triple.pure fun _ h => h

/-- The pins in every state of a run, by induction on its steps. -/
theorem Run.sound (hopens : Opens L hash on blob file start opened) (h : Run L hash on file ok opened w) :
    Sound L hash on blob file w := by
  induction h with
  | start =>
    obtain ⟨hexec, hsteady⟩ := hopens.steady hL hfile
    exact hsteady.sound_idle hexec
  | returned before meets run ih => exact (Call.pins hL hfile _ _ _).ok_run ih run
  | threw before meets run documented ih =>
    have hthrows := (Call.pins hL hfile _ _ _).error_run ih run
    rcases hthrows with hhalts | ⟨-, hsound⟩
    · exact absurd documented hhalts.not_documented
    · exact hsound
  | other before step ih => exact (Steady.other hL hfile ih step).1

end Calls

/-! ### Small pools -/

/-- Insertions with nothing else between them, after others; by induction on them. -/
theorem Feeds.insertAll {entries : List (Int × RecordId)} {w₁ : World (BufMgr F Page σ) FrameId}
    (more : List (Int × RecordId))
    (h : Feeds L hash on file entries w w₁) (run : insertAll (poolLayer L hash file) more w₁ = .ok () w') :
    Feeds L hash on file (entries ++ more) w w' := by
  induction more generalizing entries w₁ with
  | nil =>
    obtain ⟨-, rfl⟩ := EStateM.Result.ok.inj run
    rw [List.append_nil]
    exact h
  | cons e more ih =>
    obtain ⟨u, w₂, hinsert, hrest⟩ := bind_ok_cases run
    have hfed := ih (h.insert hinsert) hrest
    rw [List.append_assoc] at hfed
    exact hfed

/-- A new pool. -/
theorem idle_newBufMgr {bufs : Nat} (hbufs : 0 < bufs) (page : Page) (files : σ) :
    Idle L hash on (P3.newBufMgr bufs page files) where
  agree := P3.agree_newBufMgr hbufs page files
  storable := ⟨fun _ _ _ hi => absurd hi P3.not_holds_newBufMgr, fun _ _ _ hi => absurd hi P3.not_holds_newBufMgr⟩
  absent _ _ _ hi := absurd hi P3.not_holds_newBufMgr

/-- The constructor, when no other client does anything. -/
theorem Constructs.of_run {relationName : Nat → Nat} {nameLength : Nat} {attrByteOffset : Int} {attrType : Datatype}
    {entries : List (Int × RecordId)}
    (run : construct (poolLayer L hash file) relationName nameLength attrByteOffset attrType entries w = .ok () w') :
    Constructs L hash on file relationName nameLength attrByteOffset attrType entries w w' := by
  obtain ⟨ids, w₁, hbegins, hrest⟩ := bind_ok_cases run
  obtain ⟨u, w₂, hinserts, hends⟩ := bind_ok_cases hrest
  exact ⟨hbegins, Feeds.none.insertAll entries hinserts, hends⟩

/-- The blob files `true`, which is the index file, and `false`. -/
abbrev twoFiles : FileLayer Bool Page (Bool → BlobFile Page) := P3.blobFiles id .fresh

/-- The index over a pool with these files. -/
abbrev twoFilesPool : PageLayer (BufMgr Bool Page (Bool → BlobFile Page)) FrameId :=
  poolLayer twoFiles (P3.hash Bool.toNat) true

/-- An empty pool of `bufs` frames and two new files. -/
def newWorld (bufs : Nat) : World (BufMgr Bool Page (Bool → BlobFile Page)) FrameId :=
  ⟨uninitialized, P3.newBufMgr bufs .fresh fun _ => .create Page⟩

/-- The index was opened there. -/
abbrev SmallOpens (bufs : Nat) : World (BufMgr Bool Page (Bool → BlobFile Page)) FrameId → Prop :=
  Opens twoFiles (P3.hash Bool.toNat) (fun f => id f = true) (fun files => files true) true (newWorld bufs)

/-- The states that are reached from an index. -/
abbrev SmallRun : World (BufMgr Bool Page (Bool → BlobFile Page)) FrameId →
    World (BufMgr Bool Page (Bool → BlobFile Page)) FrameId → Prop :=
  Run twoFiles (P3.hash Bool.toNat) (fun f => id f = true) true fun _ => True

theorem newWorld_idle {bufs : Nat} (hbufs : 0 < bufs) :
    Idle twoFiles (P3.hash Bool.toNat) (fun f => id f = true) (newWorld bufs).pages := idle_newBufMgr hbufs _ _

theorem SmallOpens.constructed {bufs : Nat} (hbufs : 0 < bufs) {entries : List (Int × RecordId)}
    {w : World (BufMgr Bool Page (Bool → BlobFile Page)) FrameId}
    (run : construct twoFilesPool (fun _ => 0) 0 0 .INTEGER entries (newWorld bufs) = .ok () w) : SmallOpens bufs w :=
  .built (newWorld_idle hbufs) rfl (.of_run run)

/-- Another client reads a page of the other file. -/
def readOther (p : PageId) (w : World (BufMgr Bool Page (Bool → BlobFile Page)) FrameId) :
    World (BufMgr Bool Page (Bool → BlobFile Page)) FrameId :=
  { w with pages := stateAfter (P3.readPage twoFiles (P3.hash Bool.toNat) false p w.pages) }

theorem other_readOther (p : PageId) (w : World (BufMgr Bool Page (Bool → BlobFile Page)) FrameId) :
    Other twoFiles (P3.hash Bool.toNat) (fun f => id f = true) w.pages (readOther p w).pages :=
  .readPage (by decide) p (blobFiles_storable id _ _)

theorem SmallRun.readOther {w w' : World (BufMgr Bool Page (Bool → BlobFile Page)) FrameId} (h : SmallRun w w')
    (p : PageId) : SmallRun w (readOther p w') :=
  h.other (other_readOther p w')

/-! ### One pin -/

section Pins

/-- The pins on a page of the object. -/
def pinsOn (mgr : BufMgr F Page σ) (f : F) (p : PageId) : Nat :=
  ∑ i ∈ Finset.range mgr.numBufs,
    if (mgr.bufDescTable i).valid = true ∧ (mgr.bufDescTable i).file = some f ∧ (mgr.bufDescTable i).pageNo = p then
      (mgr.bufDescTable i).pinCnt
    else 0

/-- The pins on all pages of the object. -/
def pinsOf (mgr : BufMgr F Page σ) (f : F) : Nat :=
  ∑ i ∈ Finset.range mgr.numBufs,
    if (mgr.bufDescTable i).valid = true ∧ (mgr.bufDescTable i).file = some f then (mgr.bufDescTable i).pinCnt else 0

variable {pins : List (PageId × FrameId)} {unsaved : List PageId} {mgr : BufMgr F Page σ} {i : FrameId} {p : PageId}

theorem pinsOn_held (h : mgr.Agree hash) (hi : mgr.Holds i file p) :
    pinsOn mgr file p = (mgr.bufDescTable i).pinCnt := by
  rw [pinsOn, Finset.sum_eq_single i]
  · exact if_pos ⟨hi.2.valid, hi.2.file, hi.2.pageNo⟩
  · intro j hj hji
    refine if_neg fun hpage => hji ?_
    have hholds : mgr.Holds j file p := ⟨Finset.mem_range.mp hj, hpage.1, hpage.2.1, hpage.2.2⟩
    exact h.unique hholds hi
  · exact fun hi' => absurd (Finset.mem_range.mpr hi.1) hi'

theorem pinsOn_absent (hno : ∀ i, ¬ mgr.Holds i file p) : pinsOn mgr file p = 0 := by
  refine Finset.sum_eq_zero fun j hj => if_neg fun hpage => hno j ?_
  exact ⟨Finset.mem_range.mp hj, hpage.1, hpage.2.1, hpage.2.2⟩

theorem Steady.pinsOn (h : Steady L hash on blob file pins unsaved mgr) (p : PageId) :
    pinsOn mgr file p = (pages pins).count p := by
  by_cases hheld : ∃ i, mgr.Holds i file p
  · obtain ⟨i, hi⟩ := hheld
    rw [pinsOn_held h.agree hi, h.count i p hi]
  · rw [pinsOn_absent (not_exists.mp hheld)]
    refine (List.count_eq_zero.mpr fun hmem => ?_).symm
    obtain ⟨x, hx, rfl⟩ := List.mem_map.mp hmem
    exact hheld ⟨x.2, h.pinned x hx⟩

/-- The frames of an object, one by one. -/
theorem pinsOf_eq_zero {f : F} (hzero : ∀ i p, mgr.Holds i f p → (mgr.bufDescTable i).pinCnt = 0) : pinsOf mgr f = 0 := by
  refine Finset.sum_eq_zero fun i hi => ?_
  split
  · rename_i hf
    exact hzero i (mgr.bufDescTable i).pageNo ⟨Finset.mem_range.mp hi, hf.1, hf.2, rfl⟩
  · rfl

theorem Steady.pinsOf_single (h : Steady L hash on blob file [(p, i)] unsaved mgr) : pinsOf mgr file = 1 := by
  have hi : mgr.Holds i file p := h.pinned (p, i) List.mem_cons_self
  rw [pinsOf, Finset.sum_eq_single i]
  · rw [if_pos ⟨hi.2.valid, hi.2.file⟩, h.count i p hi]
    exact List.count_singleton_self ..
  · intro j hj hji
    split
    · rename_i hf
      have hholds : mgr.Holds j file (mgr.bufDescTable j).pageNo := ⟨Finset.mem_range.mp hj, hf.1, hf.2, rfl⟩
      rw [h.count j _ hholds]
      refine List.count_eq_zero.mpr fun hmem => hji ?_
      rw [List.mem_singleton.mp hmem] at hholds
      exact h.agree.unique hholds hi
    · rfl
  · exact fun hi' => absurd (Finset.mem_range.mpr hi.1) hi'

variable (hL : Hosts L on blob) (hfile : on file)
include hL hfile

/-- After every call the pages of the index file have one pin in total, on `currentPageNum`, when a scan is executing, and
none otherwise; so no call makes `unPinPage` throw. -/
theorem Run.one_pin (hopens : Opens L hash on blob file start opened) (h : Run L hash on file ok opened w) :
    (∀ p, BTree.pinsOn w.pages file p = if w.index.scanExecuting = true ∧ p = w.index.currentPageNum then 1 else 0) ∧
    pinsOf w.pages file = (if w.index.scanExecuting = true then 1 else 0) ∧
    (∀ g, on g → g ≠ file → pinsOf w.pages g = 0) ∧
    ∀ (call : Call) (depth : IndexMetaInfo → Nat) (fuel : Nat) (e : Exc) (w' : World (BufMgr F Page σ) FrameId),
      call.run (poolLayer L hash file) depth fuel w = .error e w' → e ≠ .pageNotPinned ∧ e ≠ .hashNotFound := by
  have hsound := h.sound hL hfile hopens
  refine ⟨fun p => ?_, ?_, fun g hg hne => pinsOf_eq_zero fun i p hi => ?_, fun call depth fuel e w' hrun => ?_⟩
  · rw [Steady.pinsOn hsound p]
    by_cases hexec : w.index.scanExecuting = true
    · rw [scanPins, if_pos hexec]
      by_cases hp : p = w.index.currentPageNum
      · rw [if_pos ⟨hexec, hp⟩, hp]
        exact List.count_singleton_self ..
      · rw [if_neg fun hboth => hp hboth.2]
        exact List.count_eq_zero.mpr fun hmem => hp (List.mem_singleton.mp hmem)
    · rw [scanPins, if_neg hexec, if_neg fun hboth => hexec hboth.1]
      rfl
  · by_cases hexec : w.index.scanExecuting = true
    · rw [if_pos hexec]
      exact (hsound.scanning hexec).2.pinsOf_single
    · rw [if_neg hexec]
      have hidle := hsound.idle (Bool.eq_false_iff.mpr hexec)
      exact pinsOf_eq_zero fun i p hi => hidle.count i p hi
  · exact absurd (Steady.alone hsound i g p hi hg) hne
  · rcases (Call.pins hL hfile call depth fuel).error_run hsound hrun with hhalts | ⟨hdoc, -⟩
    · rcases hhalts.exc with rfl | rfl | rfl | rfl <;> decide
    · rcases hdoc with rfl | rfl | rfl | rfl | rfl <;> decide

omit [DecidableEq F] hL hfile in
theorem one_pin_scanning : ∃ w₁ w, SmallOpens 3 w₁ ∧ SmallRun w₁ w ∧ w.index.scanExecuting = true ∧
    pinsOn w.pages true w.index.currentPageNum = 1 ∧ pinsOf w.pages true = 1 := by
  have hreturned : returned (fun _ w => w.index.scanExecuting)
      ((construct twoFilesPool (fun _ => 0) 0 0 .INTEGER [(5, ⟨7, 1, 0⟩)] >>= fun _ =>
        (Call.startScan 0 .GTE 9 .LTE).run twoFilesPool (fun _ => 0) 0) (newWorld 3)) = true := by decide +kernel
  obtain ⟨rid, w, hrun, hexec⟩ := exists_ok hreturned
  obtain ⟨u, w₁, hconstruct, hscan⟩ := bind_ok_cases hrun
  have hopens : SmallOpens 3 w₁ := .constructed (by decide) hconstruct
  have hreached : SmallRun w₁ w := Run.start.returned trivial hscan
  obtain ⟨hon, hof, -⟩ := Run.one_pin (blobFiles_hosts id true) rfl hopens hreached
  refine ⟨w₁, w, hopens, hreached, hexec, ?_, ?_⟩
  · rw [hon, if_pos ⟨hexec, rfl⟩]
  · rw [hof, if_pos hexec]

end Pins

end Cs564.BTree
