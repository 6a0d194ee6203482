import Cs564.P3Buffer.ScanKeeps

/-!
# A scan between other calls

Other clients may have filled the pool when a scan begins, and between two calls of the scan they may work on other files
(`Stands.elsewhere`).  A call of `scanNext` gives the next record then, or throws at the end or when the scan begins and all
frames are pinned (`Stands.scanNext`), and `~FileScan` returns (`Stands.closeScan`).
-/

namespace Cs564.P3

open P2 (BufError BufMgr BufM)
open P2.BufMgr PageFile

variable {F N : Type} [DecidableEq F] [DecidableEq N] {hash : F → PageId → Nat} {filename : F → N} {file : F}
  {disk : PageFile} {used free : List PageId} {mgr m : BufMgr F Page (N → PageFile)} {cur : Option FrameId} {p : PageId}

omit [DecidableEq N] in
/-- The pages of the scan are as they were. -/
private theorem Scanned.aside (h : Scanned hash filename file disk cur mgr) (ha : Aside filename (filename file) mgr m)
    (hagree : m.Agree hash) (hbacked : Backed filename m) : Scanned hash filename file disk cur m where
  agree := hagree
  backed := hbacked
  file_eq := ha.file_eq.trans h.file_eq
  clean := Clean.aside h.clean ha
  same i p hi := by
    obtain ⟨hold, hsame⟩ := ha.frames i file p hi rfl
    rw [hsame.page]
    exact h.same i p hold
  pins i p hi := by
    obtain ⟨hold, hsame⟩ := ha.frames i file p hi rfl
    rw [hsame.pinCnt]
    exact h.pins i p hold

/-- `readPage` of a page in use, where every frame is pinned. -/
private theorem Scanned.readPage_full (h : Scanned hash filename file disk none mgr)
    (hfull : ∀ i < mgr.numBufs, ¬ Takeable mgr i) :
    ∃ m, P3.readPage (pageFiles filename) hash file p mgr = .error .bufferExceeded m ∧
      Scanned hash filename file disk none m := by
  have htake : ∀ {i m}, Freed (pageFiles filename) hash mgr i m → False := fun freed =>
    hfull _ (freed.numBufs ▸ freed.lt) freed.takeable
  have hspec := readPage_spec h.agree h.backed.writable file p
  cases hrun : P3.readPage (pageFiles filename) hash file p mgr with
  | error e m =>
    rw [hrun] at hspec
    cases hspec with
    | exceeded absent t full =>
      exact ⟨m, rfl, h.aside (.touched t) (h.agree.touched t) (h.backed.touched t)⟩
    | failed absent freed => exact (htake freed).elim
  | ok i m =>
    rw [hrun] at hspec
    cases hspec with
    | hit holds => exact absurd (.inr (h.pins i p holds)) (hfull i holds.1)
    | loaded absent freed => exact (htake freed).elim

/-- The scan has no page. -/
structure Rests (hash : F → PageId → Nat) (filename : F → N) (file : F) (disk : PageFile) (s : ScanState F N) : Prop
    extends Scans hash filename file disk none s where
  curPage : s.scan.curPage = none
  notDirty : s.scan.curDirtyFlag = false

/-- The scan stands in front of these records; before the first one there may be no frame for a page. -/
inductive Stands (hash : F → PageId → Nat) (filename : F → N) (file : F) (disk : PageFile) (used : List PageId) :
    List (RecordId × List UInt8) → ScanState F N → Prop where
  | start {s : ScanState F N} (rests : Rests hash filename file disk s)
      (pageIter : s.scan.filePageIter = disk.header.first_used_page) :
      Stands hash filename file disk used (recordsOf disk used) s
  | onPage {s : ScanState F N} {i : FrameId} {p : PageId} {more : List PageId} {slot : SlotId}
      (on : OnPage hash filename file disk i p more slot s) (mem : ∀ q ∈ p :: more, q ∈ used) (nodup : more.Nodup) :
      Stands hash filename file disk used ((disk.pageAt p).recordsAfter slot ++ recordsOf disk more) s
  | done {s : ScanState F N} (rests : Rests hash filename file disk s)
      (pageIter : s.scan.filePageIter = INVALID_NUMBER) : Stands hash filename file disk used [] s

variable {s : ScanState F N} {rest : List (RecordId × List UInt8)}

omit [DecidableEq N] in
theorem At.stands (h : At hash filename file disk used rest s) : Stands hash filename file disk used rest s := by
  cases h with
  | start between pageIter => exact .start ⟨between.toScans, between.curPage, between.notDirty⟩ pageIter
  | onPage on mem nodup => exact .onPage on mem nodup
  | done between pageIter => exact .done ⟨between.toScans, between.curPage, between.notDirty⟩ pageIter

/-- How a call of `scanNext` ends. -/
inductive Next (hash : F → PageId → Nat) (filename : F → N) (file : F) (disk : PageFile) (used : List PageId)
    (s : ScanState F N) :
    List (RecordId × List UInt8) → EStateM.Result (ScanError F) (ScanState F N) RecordId → Prop where
  | record {record_id : RecordId} {record : List UInt8} {rest : List (RecordId × List UInt8)} {s' : ScanState F N}
      (get : getRecord s' = .ok record s') (stands : Stands hash filename file disk used rest s') :
      Next hash filename file disk used s ((record_id, record) :: rest) (.ok record_id s')
  | ended {s' : ScanState F N} (stands : Stands hash filename file disk used [] s') :
      Next hash filename file disk used s [] (.error .endOfFile s')
  | full {rest : List (RecordId × List UInt8)} {s' : ScanState F N} (begins : s.scan.curPage = none)
      (full : ∀ i < s.bufMgr.numBufs, ¬ Takeable s.bufMgr i) (stands : Stands hash filename file disk used rest s') :
      Next hash filename file disk used s rest (.error (.buf .bufferExceeded) s')

omit [DecidableEq N] in
theorem Yields.next {r : EStateM.Result (ScanError F) (ScanState F N) RecordId}
    (h : Yields hash filename file disk used r rest) : Next hash filename file disk used s rest r := by
  cases rest with
  | nil =>
    obtain ⟨s', rfl, hat⟩ := h
    exact .ended hat.stands
  | cons record rest =>
    obtain ⟨s', rfl, hget, hat⟩ := h
    exact .record hget hat.stands

section Calls

variable (hlists : disk.Lists used free)
include hlists

/-- The scan begins, and every frame is pinned. -/
private theorem Rests.scanNext_full (h : Rests hash filename file disk s)
    (hiter : s.scan.filePageIter = disk.header.first_used_page) (hfull : ∀ i < s.bufMgr.numBufs, ¬ Takeable s.bufMgr i) :
    Next hash filename file disk used s (recordsOf disk used) (scanNext filename hash s) := by
  have hdisk : s.bufMgr.files (filename s.scan.file) = disk := by
    rw [h.object]
    exact h.mgr.file_eq
  rw [scanNext, run_bind_ok (run_get s)]
  by_cases hzero : s.scan.filePageIter = INVALID_NUMBER
  · have hnil : used = [] := by
      have hchain := hlists.used_chain
      rw [← hiter, hzero] at hchain
      cases used with
      | nil => rfl
      | cons p more => exact absurd (hlists.used_pos List.mem_cons_self) (hchain.1 ▸ Nat.not_succ_le_zero 0)
    rw [if_pos hzero, hnil]
    exact .ended (.done h hzero)
  · have hmem : s.scan.filePageIter ∈ used := (first_used hlists).elim (fun hfirst => absurd (hiter.trans hfirst) hzero)
      fun hfirst => hiter ▸ hfirst
    obtain ⟨m, hread, hm⟩ := h.mgr.readPage_full (p := s.scan.filePageIter) hfull
    have hcall : callBufMgr (readPage (pageFiles filename) hash s.scan.file s.scan.filePageIter) s =
        .error (.buf .bufferExceeded) { s with bufMgr := m, moments := m :: s.moments } := by
      rw [callBufMgr, h.object, hread]
    have hcurrent : readCurrentPage filename hash s =
        .error (.buf .bufferExceeded) { s with bufMgr := m, moments := m :: s.moments } := by
      rw [readCurrentPage, run_bind_ok (run_get s), run_bind_ok (currentPageNumber_eq hdisk hlists hmem),
        run_bind_error hcall]
    have hsame : { s with scan := { s.scan with filePageIter := disk.header.first_used_page } } = s := by
      rw [← hiter]
    rw [if_neg hzero, if_pos h.curPage, run_bind_ok (fileBegin_eq hdisk hlists), setScan, run_bind_ok (run_modify _ _),
      hsame, if_neg (hiter ▸ hzero), run_bind_error hcurrent]
    refine .full h.curPage hfull (.start ⟨⟨h.object, hm, fun m' hm' => ?_⟩, h.curPage, h.notDirty⟩ hiter)
    rcases List.mem_cons.mp hm' with rfl | hold
    · exact hm.onePin
    · exact h.moments m' hold

/-- One call of `scanNext`. -/
theorem Stands.scanNext (hreadable : ∀ p ∈ used, (disk.pageAt p).Readable)
    (h : Stands hash filename file disk used rest s) :
    Next hash filename file disk used s rest (P3.scanNext filename hash s) := by
  cases h with
  | start rests pageIter =>
    by_cases hfree : ∃ i < s.bufMgr.numBufs, Takeable s.bufMgr i
    · have hat : At hash filename file disk used (recordsOf disk used) s :=
        .start ⟨rests.toScans, rests.curPage, rests.notDirty, hfree⟩ pageIter
      exact (hat.scanNext hlists hreadable).next
    · exact rests.scanNext_full hlists pageIter fun i hi htake => hfree ⟨i, hi, htake⟩
  | onPage on mem nodup =>
    have hat : At hash filename file disk used _ s := .onPage on mem nodup
    exact (hat.scanNext hlists hreadable).next
  | done rests pageIter =>
    rw [P3.scanNext, run_bind_ok (run_get s), if_pos pageIter]
    exact .ended (.done rests pageIter)

end Calls

omit [DecidableEq N] in
/-- A call on another file between those of the scan. -/
theorem Stands.elsewhere (h : Stands hash filename file disk used rest s)
    (ha : Aside filename (filename file) s.bufMgr m) (hagree : m.Agree hash) (hbacked : Backed filename m) :
    Stands hash filename file disk used rest { s with bufMgr := m } := by
  cases h with
  | start rests pageIter =>
    exact .start ⟨⟨rests.object, rests.mgr.aside ha hagree hbacked, rests.moments⟩, rests.curPage, rests.notDirty⟩ pageIter
  | done rests pageIter =>
    exact .done ⟨⟨rests.object, rests.mgr.aside ha hagree hbacked, rests.moments⟩, rests.curPage, rests.notDirty⟩ pageIter
  | @onPage _ i p more slot on mem nodup =>
    have hpin : 0 < (s.bufMgr.bufDescTable i).pinCnt := by
      rw [on.mgr.pins i p on.holds, if_pos rfl]
      exact Nat.one_pos
    have hholds := ha.pinned i file p on.holds rfl hpin
    have hpage := (ha.frames i file p hholds rfl).2.page.trans on.page
    refine .onPage ⟨⟨⟨on.object, on.mgr.aside ha hagree hbacked, on.moments⟩, on.curPage, on.pageIter, on.notDirty, hholds,
      hpage, on.chain⟩, on.iter⟩ mem nodup

/-! ### The end of a scan -/

/-- `flushFile` by a scan without a page. -/
private theorem Scanned.flushFile (h : Scanned hash filename file disk none mgr) :
    ∃ m, P3.flushFile (pageFiles filename) hash file mgr = .ok () m ∧ ∀ i p, ¬ m.Holds i file p := by
  have hdrops : ∀ {f m m'}, Scanned hash filename file disk none m → Drops (pageFiles filename) hash f m m' →
      Scanned hash filename file disk none m' := by
    rintro f m m' hm ⟨i, p, d⟩
    exact hm.aside (.dropped hm.clean d) (d.agree hm.agree) (hm.backed.dropped d).1
  obtain ⟨m, -, -, hm, ⟨i, p, hi, hpin, -⟩ | ⟨hrun, hnone⟩⟩ :=
    flushFile_cases (W := Scanned hash filename file disk none) (fun hm => hm.backed.writable)
      (fun hm _ hdrop => hdrops hm hdrop) h.agree h file
  · exact absurd (hm.pins i p hi) (Nat.ne_of_gt hpin)
  · exact ⟨m, hrun, hnone⟩

/-- The scan gives its page back and goes to the first page. -/
private theorem OnPage.releasePage {i : FrameId} {p : PageId} {more : List PageId} {slot : SlotId}
    (on : OnPage hash filename file disk i p more slot s) (hlists : disk.Lists used free) (hp : p ∈ used) :
    ∃ s', P3.releasePage filename hash s = .ok () s' ∧ Scanned hash filename file disk none s'.bufMgr := by
  have hdisk : s.bufMgr.files (filename s.scan.file) = disk := by
    rw [on.object]
    exact on.mgr.file_eq
  have hmem : s.scan.filePageIter ∈ used := on.pageIter ▸ hp
  obtain ⟨m, hunpin, hm, -⟩ := on.mgr.unPinPage on.holds
  have hcall : callBufMgr (P3.unPinPage hash s.scan.file s.scan.filePageIter s.scan.curDirtyFlag) s =
      .ok () { s with bufMgr := m, moments := m :: s.moments } := by
    rw [on.object, on.pageIter, on.notDirty]
    exact callBufMgr_eq hunpin
  have hunpinned : unPinCurrentPage filename hash s = .ok () { s with bufMgr := m, moments := m :: s.moments } := by
    rw [unPinCurrentPage, run_bind_ok (run_get s), run_bind_ok (currentPageNumber_eq hdisk hlists hmem)]
    exact hcall
  refine ⟨{ s with
      bufMgr := m
      moments := m :: s.moments
      scan := { s.scan with curPage := none, curDirtyFlag := false, filePageIter := disk.header.first_used_page } }, ?_, hm⟩
  rw [P3.releasePage, run_bind_ok hunpinned, setScan, run_bind_ok (run_modify _ _), run_bind_ok (fileBegin_eq ?_ hlists)]
  · rfl
  · rw [on.object]
    exact hm.file_eq

/-- `~FileScan` at any time. -/
theorem Stands.closeScan (h : Stands hash filename file disk used rest s) (hlists : disk.Lists used free) :
    ∃ s', P3.closeScan filename hash s = .ok () s' ∧ ∀ i p, ¬ s'.bufMgr.Holds i file p := by
  have hflush : ∀ s : ScanState F N, Scanned hash filename file disk none s.bufMgr →
      ∃ s', callBufMgr (P3.flushFile (pageFiles filename) hash file) s = .ok () s' ∧ ∀ i p, ¬ s'.bufMgr.Holds i file p := by
    intro s hs
    obtain ⟨m, hrun, hnone⟩ := hs.flushFile
    exact ⟨_, callBufMgr_eq hrun, hnone⟩
  have hrests : Rests hash filename file disk s →
      ∃ s', P3.closeScan filename hash s = .ok () s' ∧ ∀ i p, ¬ s'.bufMgr.Holds i file p := by
    intro hs
    obtain ⟨s', hrun, hnone⟩ := hflush s hs.mgr
    refine ⟨s', ?_, hnone⟩
    rw [P3.closeScan, run_bind_ok (run_get s), if_pos hs.curPage, hs.object]
    exact hrun
  cases h with
  | start rests => exact hrests rests
  | done rests => exact hrests rests
  | @onPage _ i p more slot on mem nodup =>
    obtain ⟨s₁, hrelease, hs₁⟩ := on.releasePage hlists (mem p List.mem_cons_self)
    obtain ⟨s', hrun, hnone⟩ := hflush s₁ hs₁
    refine ⟨s', ?_, hnone⟩
    rw [P3.closeScan, run_bind_ok (run_get s), if_neg (on.curPage ▸ Option.some_ne_none i), run_bind_ok hrelease, on.object]
    exact hrun

end Cs564.P3
