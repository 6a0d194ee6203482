import Cs564.P3Buffer.OtherFiles
import Cs564.P3Buffer.Scanning

/-!
# What a scan keeps

`~FileScan` of `filescan.cpp`, but for the end of the file object.  A scan reads pages in use of its file, gives them back
clean, and flushes the file at its end; what such calls of the manager keep is kept by `scanNext` and `~FileScan`
(`scanNext_keeps`, `closeScan_keeps`), whatever else is in the pool.
-/

namespace Cs564.P3

open P2 (BufError BufMgr BufM)
open P2.BufMgr PageFile

variable {F N α : Type} [DecidableEq F] [DecidableEq N]

section Code

variable (filename : F → N) (hash : F → PageId → Nat)

/-- `~FileScan`, for a scan that has a page. -/
def releasePage : ScanM F N Unit := do
  unPinCurrentPage filename hash
  setScan fun scan => { scan with curPage := none, curDirtyFlag := false }
  let first ← fileBegin filename
  setScan fun scan => { scan with filePageIter := first }

/-- `~FileScan`. -/
def closeScan : ScanM F N Unit := do
  let s ← get
  if s.scan.curPage = none then callBufMgr (flushFile (pageFiles filename) hash s.scan.file)
  else do
    releasePage filename hash
    callBufMgr (flushFile (pageFiles filename) hash s.scan.file)

end Code

variable {hash : F → PageId → Nat} {filename : F → N} {file : F} {disk : PageFile} {used free : List PageId}
  {W : BufMgr F Page (N → PageFile) → Prop} {s : ScanState F N}

/-- The calls of a scan keep `W`, and the file is `disk` then. -/
structure Hosts (hash : F → PageId → Nat) (filename : F → N) (file : F) (disk : PageFile) (used : List PageId)
    (W : BufMgr F Page (N → PageFile) → Prop) : Prop where
  file_eq : ∀ {m}, W m → m.files (filename file) = disk
  readPage : ∀ {m p}, W m → p ∈ used → W (stateAfter (P3.readPage (pageFiles filename) hash file p m))
  unPinPage : ∀ {m p}, W m → W (stateAfter (P3.unPinPage hash file p false m))
  flushFile : ∀ {m}, W m → W (stateAfter (P3.flushFile (pageFiles filename) hash file m))

/-- The scan goes through the pages in use of its file. -/
structure Walks (file : F) (used : List PageId) (W : BufMgr F Page (N → PageFile) → Prop) (s : ScanState F N) : Prop where
  object : s.scan.file = file
  notDirty : s.scan.curDirtyFlag = false
  pageIter : s.scan.filePageIter = INVALID_NUMBER ∨ s.scan.filePageIter ∈ used
  mgr : W s.bufMgr

/-- The scan is at a page in use. -/
structure AtPage (file : F) (used : List PageId) (W : BufMgr F Page (N → PageFile) → Prop) (s : ScanState F N) : Prop
    extends Walks file used W s where
  mem : s.scan.filePageIter ∈ used

/-- So it is if it has a page. -/
structure Steady (file : F) (used : List PageId) (W : BufMgr F Page (N → PageFile) → Prop) (s : ScanState F N) : Prop
    extends Walks file used W s where
  onPage : s.scan.curPage ≠ none → s.scan.filePageIter ∈ used

omit [DecidableEq F] [DecidableEq N] in
theorem AtPage.steady (h : AtPage file used W s) : Steady file used W s := ⟨h.toWalks, fun _ => h.mem⟩

omit [DecidableEq F] [DecidableEq N] in
theorem AtPage.iter (iter : PageIterator) (h : AtPage file used W s) :
    AtPage file used W { s with scan := { s.scan with pageRecordIter := iter } } :=
  ⟨⟨h.object, h.notDirty, h.pageIter, h.mgr⟩, h.mem⟩

/-- Whether the code returns or throws, `I` holds afterwards. -/
def Keeps (I : ScanState F N → Prop) (x : ScanM F N α) : Prop := Triple I x (fun _ => I) fun _ => I

omit [DecidableEq F] [DecidableEq N] in
/-- When the code throws, nothing more is known of its page. -/
private theorem Keeps.steady {x : ScanM F N α} (h : Keeps (AtPage file used W) x) :
    Triple (AtPage file used W) x (fun _ => AtPage file used W) fun _ => Steady file used W :=
  h.conseq (fun _ hs => hs) (fun _ _ hs => hs) fun _ _ hs => hs.steady

/-! ### The file -/

section Files

variable (hdisk : s.bufMgr.files (filename s.scan.file) = disk) (hlists : disk.Lists used free)
include hdisk hlists

omit [DecidableEq F] in
/-- `file->begin()`. -/
theorem fileBegin_eq : fileBegin filename s = .ok disk.header.first_used_page s := by
  have hread : readHeader (s.bufMgr.files (filename s.scan.file)) =
      .ok disk.header (s.bufMgr.files (filename s.scan.file)) := by
    rw [hdisk]
    exact readHeader_eq hlists.alive
  rw [fileBegin, run_bind_ok (callFile_eq hread)]
  rfl

variable (hp : s.scan.filePageIter ∈ used)
include hp

omit [DecidableEq F] in
/-- `(*filePageIter).page_number()`. -/
theorem currentPageNumber_eq : currentPageNumber filename s = .ok s.scan.filePageIter s := by
  have hread : PageFile.readPage s.scan.filePageIter (s.bufMgr.files (filename s.scan.file)) =
      .ok (disk.pageAt s.scan.filePageIter) (s.bufMgr.files (filename s.scan.file)) := by
    rw [hdisk]
    exact hlists.readPage_used hp
  rw [currentPageNumber, run_bind_ok (run_get s), run_bind_ok (callFile_eq hread), run_pure, hlists.pageAt_number hp]

omit [DecidableEq F] in
/-- `filePageIter++`. -/
theorem nextPage_eq : nextPage filename s =
    .ok () { s with scan := { s.scan with filePageIter := linkOn disk.pages s.scan.filePageIter } } := by
  obtain ⟨page, hpage, -⟩ := hlists.used_page _ hp
  have hread : readPageHeader s.scan.filePageIter (s.bufMgr.files (filename s.scan.file)) =
      .ok page.header (s.bufMgr.files (filename s.scan.file)) := by
    rw [hdisk]
    exact readPageHeader_eq hlists.alive hpage
  rw [nextPage, run_bind_ok (run_get s), run_bind_ok (callFile_eq hread), linkOn_some hpage]
  rfl

end Files

/-- The page behind a page in use. -/
theorem link_used (hlists : disk.Lists used free) {p : PageId} (hp : p ∈ used) :
    linkOn disk.pages p = INVALID_NUMBER ∨ linkOn disk.pages p ∈ used := by
  obtain ⟨l₁, l₂, rfl⟩ := List.append_of_mem hp
  rw [hlists.used_chain.next_eq]
  cases l₂ with
  | nil => exact .inl rfl
  | cons q l₂ => exact .inr (List.mem_append_right _ (List.mem_cons_of_mem _ List.mem_cons_self))

/-- The first page in use. -/
theorem first_used (hlists : disk.Lists used free) :
    disk.header.first_used_page = INVALID_NUMBER ∨ disk.header.first_used_page ∈ used := by
  have hchain := hlists.used_chain
  cases used with
  | nil => exact .inl (chain_nil.mp hchain)
  | cons p l => exact .inr (hchain.1 ▸ List.mem_cons_self)

/-! ### The page in the pool -/

section Reads

variable {I : ScanState F N → Prop}

omit [DecidableEq F] [DecidableEq N] in
theorem pageOf_keeps (pointer : Option FrameId) : Keeps I (pageOf pointer) := by
  rw [pageOf]
  refine Triple.get_bind fun s hs => ?_
  cases pointer with
  | none => exact Triple.throw fun _ heq => heq ▸ hs
  | some fid => exact Triple.pure fun _ heq => heq ▸ hs

omit [DecidableEq F] [DecidableEq N] in
theorem atPageEnd_keeps : Keeps I atPageEnd := by
  rw [atPageEnd]
  refine Triple.get_bind fun s hs => Triple.weaken ?_ fun _ heq => heq ▸ hs
  exact (pageOf_keeps _).bind fun _ => (pageOf_keeps _).bind fun _ => Triple.pure fun _ h => h

omit [DecidableEq F] [DecidableEq N] in
theorem currentRecord_keeps : Keeps I currentRecord := by
  have hget : Keeps I getRecord := by
    rw [getRecord]
    refine Triple.get_bind fun s hs => Triple.weaken ?_ fun _ heq => heq ▸ hs
    refine (pageOf_keeps _).bind fun page => ?_
    cases page.getRecord s.scan.pageRecordIter.current_record_ with
    | ok record => exact Triple.pure fun _ h => h
    | error e => exact Triple.throw fun _ h => h
  rw [currentRecord]
  exact hget.bind fun _ => Triple.get_bind fun s hs => Triple.pure fun _ heq => heq ▸ hs

variable (hiter : ∀ {s : ScanState F N} (iter : PageIterator), I s → I { s with scan := { s.scan with pageRecordIter := iter } })
include hiter

omit [DecidableEq F] [DecidableEq N] in
/-- `pageRecordIter = curPage->begin()`. -/
theorem beginRecords_keeps : Keeps I beginRecords := by
  rw [beginRecords]
  refine Triple.get_bind fun s hs => Triple.weaken ?_ fun _ heq => heq ▸ hs
  exact (pageOf_keeps _).bind fun page s h => hiter _ h

omit [DecidableEq F] [DecidableEq N] in
/-- `pageRecordIter++`. -/
theorem nextRecord_keeps : Keeps I nextRecord := by
  rw [nextRecord]
  refine Triple.get_bind fun s hs => Triple.weaken ?_ fun _ heq => heq ▸ hs
  exact (pageOf_keeps _).bind fun page s h => hiter _ h

end Reads

/-! ### Calls -/

omit [DecidableEq F] [DecidableEq N] in
/-- A call of the manager. -/
private theorem callBufMgr_triple {I J : ScanState F N → Prop} {code : BufM F Page (N → PageFile) α}
    (hcode : ∀ s, I s → ∀ moments, J { s with bufMgr := stateAfter (code s.bufMgr), moments := moments }) :
    Triple I (callBufMgr code) (fun _ => J) fun _ => J := by
  intro s hs
  have hafter := hcode s hs (stateAfter (code s.bufMgr) :: s.moments)
  rw [callBufMgr]
  cases hrun : code s.bufMgr <;> rw [hrun] at hafter <;> exact hafter

section Calls

variable (hhosts : Hosts hash filename file disk used W)
include hhosts

private theorem Walks.disk_eq (h : Walks file used W s) : s.bufMgr.files (filename s.scan.file) = disk := by
  rw [h.object]
  exact hhosts.file_eq h.mgr

variable (hlists : disk.Lists used free)
include hlists

/-- `bufMgr->readPage(file, (*filePageIter).page_number(), curPage)`. -/
private theorem readCurrentPage_keeps : Keeps (AtPage file used W) (readCurrentPage filename hash) := by
  intro s hs
  rw [readCurrentPage, run_bind_ok (run_get s),
    run_bind_ok (currentPageNumber_eq (hs.disk_eq hhosts) hlists hs.mem), hs.object]
  have hcall : Triple (AtPage file used W) (callBufMgr (P3.readPage (pageFiles filename) hash file s.scan.filePageIter))
      (fun _ => AtPage file used W) fun _ => AtPage file used W :=
    callBufMgr_triple fun s' h _ => ⟨⟨h.object, h.notDirty, h.pageIter, hhosts.readPage h.mgr hs.mem⟩, h.mem⟩
  have hset : ∀ fid, Triple (AtPage file used W) (setScan fun scan => { scan with curPage := some fid } : ScanM F N Unit)
      (fun _ => AtPage file used W) fun _ => AtPage file used W :=
    fun fid s' h => ⟨⟨h.object, h.notDirty, h.pageIter, h.mgr⟩, h.mem⟩
  exact hcall.bind hset s hs

/-- `bufMgr->unPinPage(file, (*filePageIter).page_number(), curDirtyFlag)`. -/
private theorem unPinCurrentPage_keeps : Keeps (AtPage file used W) (unPinCurrentPage filename hash) := by
  intro s hs
  rw [unPinCurrentPage, run_bind_ok (run_get s),
    run_bind_ok (currentPageNumber_eq (hs.disk_eq hhosts) hlists hs.mem), hs.object, hs.notDirty]
  have hcall : Triple (AtPage file used W) (callBufMgr (P3.unPinPage hash file s.scan.filePageIter false))
      (fun _ => AtPage file used W) fun _ => AtPage file used W :=
    callBufMgr_triple fun s' h _ => ⟨⟨h.object, h.notDirty, h.pageIter, hhosts.unPinPage h.mgr⟩, h.mem⟩
  exact hcall s hs

/-- The loop of `scanNext`; by induction on its rounds. -/
private theorem findRecord_keeps (fuel : Nat) :
    Triple (AtPage file used W) (findRecord filename hash fuel) (fun _ => Steady file used W) fun _ => Steady file used W := by
  induction fuel with
  | zero => exact Triple.throw fun _ h => h.steady
  | succ fuel ih =>
    rw [findRecord]
    refine atPageEnd_keeps.steady.bind fun atEnd => ?_
    by_cases hend : atEnd = true
    · rw [if_pos hend]
      refine (unPinCurrentPage_keeps hhosts hlists).steady.bind fun _ => ?_
      intro s hs
      rw [setScan, run_bind_ok (run_modify _ _)]
      have hcleared : AtPage file used W
          { s with scan := { s.scan with curPage := none, curDirtyFlag := false } } :=
        ⟨⟨hs.object, rfl, hs.pageIter, hs.mgr⟩, hs.mem⟩
      rw [run_bind_ok (nextPage_eq (hcleared.disk_eq hhosts) hlists hcleared.mem), run_bind_ok (run_get _)]
      by_cases hzero : linkOn disk.pages s.scan.filePageIter = INVALID_NUMBER
      · rw [if_pos hzero]
        exact ⟨⟨hs.object, rfl, .inl hzero, hs.mgr⟩, fun hne => absurd rfl hne⟩
      · have hmem := (link_used hlists hs.mem).resolve_left hzero
        rw [if_neg hzero]
        refine ((readCurrentPage_keeps hhosts hlists).steady.bind fun _ => ?_) _ ⟨⟨hs.object, rfl, .inr hmem, hs.mgr⟩, hmem⟩
        exact (beginRecords_keeps AtPage.iter).steady.bind fun _ => ih
    · rw [if_neg hend]
      exact currentRecord_keeps.conseq (fun _ h => h) (fun _ _ h => h.steady) fun _ _ h => h.steady

/-- The general part of `scanNext`. -/
private theorem scanOn_keeps :
    Triple (AtPage file used W) (scanOn filename hash) (fun _ => Steady file used W) fun _ => Steady file used W := by
  rw [scanOn]
  refine (nextRecord_keeps AtPage.iter).steady.bind fun _ => ?_
  refine Triple.get_bind fun s hs => (findRecord_keeps hhosts hlists _).weaken fun _ heq => heq ▸ hs

/-- `scanNext`. -/
theorem scanNext_keeps : Keeps (Steady file used W) (scanNext filename hash) := by
  intro s hs
  rw [scanNext, run_bind_ok (run_get s)]
  by_cases hzero : s.scan.filePageIter = INVALID_NUMBER
  · rw [if_pos hzero]
    exact hs
  · rw [if_neg hzero]
    by_cases hcur : s.scan.curPage = none
    · rw [if_pos hcur, run_bind_ok (fileBegin_eq (hs.disk_eq hhosts) hlists), setScan, run_bind_ok (run_modify _ _)]
      by_cases hfirst : disk.header.first_used_page = INVALID_NUMBER
      · rw [if_pos hfirst]
        exact ⟨⟨hs.object, hs.notDirty, .inl hfirst, hs.mgr⟩, fun hne => absurd hcur hne⟩
      · have hmem := (first_used hlists).resolve_left hfirst
        rw [if_neg hfirst]
        refine ((readCurrentPage_keeps hhosts hlists).steady.bind fun _ => ?_) _
          ⟨⟨hs.object, hs.notDirty, .inr hmem, hs.mgr⟩, hmem⟩
        have hset : Keeps (AtPage file used W) (setScan fun scan => { scan with curDirtyFlag := false } : ScanM F N Unit) :=
          fun s h => ⟨⟨h.object, rfl, h.pageIter, h.mgr⟩, h.mem⟩
        refine hset.steady.bind fun _ => (beginRecords_keeps AtPage.iter).steady.bind fun _ =>
          atPageEnd_keeps.steady.bind fun atEnd => ?_
        by_cases hend : atEnd = true
        · rw [if_pos hend]
          exact scanOn_keeps hhosts hlists
        · rw [if_neg hend]
          exact currentRecord_keeps.conseq (fun _ h => h) (fun _ _ h => h.steady) fun _ _ h => h.steady
    · rw [if_neg hcur]
      exact scanOn_keeps hhosts hlists s ⟨hs.toWalks, hs.onPage hcur⟩

/-- `~FileScan`, of which only the manager is left. -/
theorem closeScan_keeps :
    Triple (Steady file used W) (closeScan filename hash) (fun _ s => W s.bufMgr) fun _ s => W s.bufMgr := by
  have hflush : ∀ object, object = file →
      Triple (fun s : ScanState F N => W s.bufMgr) (callBufMgr (P3.flushFile (pageFiles filename) hash object))
        (fun _ s => W s.bufMgr) fun _ s => W s.bufMgr := by
    rintro _ rfl
    exact callBufMgr_triple fun s h _ => hhosts.flushFile h
  intro s hs
  rw [closeScan, run_bind_ok (run_get s)]
  by_cases hcur : s.scan.curPage = none
  · rw [if_pos hcur]
    exact hflush _ hs.object s hs.mgr
  · rw [if_neg hcur]
    have hrelease : Triple (AtPage file used W) (releasePage filename hash) (fun _ s => W s.bufMgr) fun _ s => W s.bufMgr := by
      rw [releasePage]
      refine Triple.bind ((unPinCurrentPage_keeps hhosts hlists).conseq (fun _ h => h) (fun _ _ h => h)
        fun _ _ h => h.mgr) fun _ => ?_
      intro s hs
      rw [setScan, run_bind_ok (run_modify _ _)]
      have hcleared : AtPage file used W { s with scan := { s.scan with curPage := none, curDirtyFlag := false } } :=
        ⟨⟨hs.object, rfl, hs.pageIter, hs.mgr⟩, hs.mem⟩
      rw [run_bind_ok (fileBegin_eq (hcleared.disk_eq hhosts) hlists)]
      exact hs.mgr
    exact (hrelease.bind fun _ => hflush _ hs.object) s ⟨hs.toWalks, hs.onPage hcur⟩

end Calls

end Cs564.P3
