import Cs564.P3Buffer.FileScan

/-!
# A file scan sees every record once

The pages of the scanned file in the pool are the pages on disk, and one of them has a pin of the scan at most
(`Scanned`).  A scan stands somewhere in the list of all records (`At`): a call of `scanNext` returns the id of the next
one and moves on, or throws `EndOfFileException` when none is left.
-/

namespace Cs564.P3

open P2 (BufError BufHashTbl BufDesc BufMgr BufM Loads onFile)
open P2.BufMgr PageFile

variable {F N : Type} [DecidableEq F] [DecidableEq N] {hash : F → PageId → Nat} {filename : F → N} {file : F}
  {disk : PageFile} {mgr m : BufMgr F Page (N → PageFile)} {cur : Option FrameId} {i : FrameId} {p : PageId}

/-- At most one page of the object is pinned, once. -/
structure OnePin (file : F) (mgr : BufMgr F Page (N → PageFile)) : Prop where
  single : ∀ i p, mgr.Holds i file p → (mgr.bufDescTable i).pinCnt ≤ 1
  alone : ∀ i j p q, mgr.Holds i file p → mgr.Holds j file q → 0 < (mgr.bufDescTable i).pinCnt →
    0 < (mgr.bufDescTable j).pinCnt → i = j

/-- The pool has no changes of the scanned file `disk`, what it has through the object of the scan are the pages on disk,
and frame `cur` alone has a pin of it. -/
structure Scanned (hash : F → PageId → Nat) (filename : F → N) (file : F) (disk : PageFile) (cur : Option FrameId)
    (mgr : BufMgr F Page (N → PageFile)) : Prop where
  agree : mgr.Agree hash
  backed : Backed filename mgr
  file_eq : mgr.files (filename file) = disk
  clean : ∀ i g p, mgr.Holds i g p → filename g = filename file → (mgr.bufDescTable i).dirty = false
  same : ∀ i p, mgr.Holds i file p → disk.pages p = some (mgr.bufPool i)
  pins : ∀ i p, mgr.Holds i file p → (mgr.bufDescTable i).pinCnt = if cur = some i then 1 else 0

/-- In a state that orderly calls lead to: what a new object on a file needs for a scan is that no change of the file is
pending. -/
theorem Run.scanned {C : Type} {body : Page → C} {edits : Edits N C} {bufs : Nat} {page : Page} {files : N → PageFile}
    {contents : N × PageId → Option C} (hfiles : ∀ n, (files n).InOrder)
    (hrun : Run (pageFiles filename) hash filename body bufs page files contents
      (fun mgr _ call => call.Orderly filename mgr) mgr edits) (hpos : 0 < mgr.numBufs)
    (hnew : ∀ i p, ¬ mgr.Holds i file p)
    (hclean : ∀ i g p, mgr.Holds i g p → filename g = filename file → (mgr.bufDescTable i).dirty = false) :
    Scanned hash filename file (mgr.files (filename file)) none mgr := by
  rcases hrun.backed hfiles with ⟨hagree, hbacked⟩ | ⟨hzero, -⟩
  · exact ⟨hagree, hbacked, rfl, hclean, fun i p hi => absurd hi (hnew i p), fun i p hi => absurd hi (hnew i p)⟩
  · exact absurd hpos (Nat.not_lt.mpr (Nat.le_of_eq hzero))

/-! ### Calls of the manager -/

section Manager

variable (h : Scanned hash filename file disk cur mgr)
include h

omit [DecidableEq N] in
theorem Scanned.onePin : OnePin file mgr where
  single i p hi := by
    rw [h.pins i p hi]
    split <;> omega
  alone i j p q hi hj hpin hpin' := by
    have hcur : ∀ {k q}, mgr.Holds k file q → 0 < (mgr.bufDescTable k).pinCnt → cur = some k := by
      intro k q hk hpos
      by_contra hne
      rw [h.pins k q hk, if_neg hne] at hpos
      exact Nat.lt_irrefl 0 hpos
    exact Option.some.inj ((hcur hi hpin).symm.trans (hcur hj hpin'))

/-- A page that leaves the pool is not written to the scanned file. -/
private theorem Scanned.files_freed (hfreed : Freed (pageFiles filename) hash mgr i m) :
    m.files (filename file) = disk := by
  cases hfreed with
  | empty t => exact (congrFun t.files _).trans h.file_eq
  | @evicted m₁ _ g q t dropped =>
    have hfiles : m₁.files (filename file) = disk := (congrFun t.files _).trans h.file_eq
    cases dropped with
    | @drop files table holds unpinned written removed =>
      change files (filename file) = disk
      unfold Written at written
      split at written
      · rename_i hdirty
        obtain ⟨file', -, rfl⟩ := P2.onFile_ok written
        have hother : filename file ≠ filename g := by
          intro hname
          have hclean := h.clean i g q (t.holds_iff.mp holds) hname.symm
          rw [t.desc i] at hdirty
          exact Bool.false_ne_true (hclean.symm.trans hdirty)
        rw [Function.update_of_ne hother]
        exact hfiles
      · rw [written]
        exact hfiles

/-- `allocBuf`. -/
private theorem Scanned.freed (hfreed : Freed (pageFiles filename) hash mgr i m) :
    Scanned hash filename file disk cur m where
  agree := hfreed.agree h.agree
  backed := (h.backed.freed hfreed).1
  file_eq := h.files_freed hfreed
  clean j g q hj hname := by
    obtain ⟨hne, hold⟩ := hfreed.holds_iff.mp hj
    rw [(hfreed.same hne).dirty]
    exact h.clean j g q hold hname
  same j q hj := by
    obtain ⟨hne, hold⟩ := hfreed.holds_iff.mp hj
    rw [(hfreed.same hne).page]
    exact h.same j q hold
  pins j q hj := by
    obtain ⟨hne, hold⟩ := hfreed.holds_iff.mp hj
    rw [(hfreed.same hne).pinCnt]
    exact h.pins j q hold

omit [DecidableEq N] in
/-- A frame with a page of the scan gets another number of pins. -/
private theorem Scanned.repinned (hi : mgr.Holds i file p) {desc : BufDesc F} (hdesc : desc.Is file p)
    (hclean : desc.dirty = false) {cur' : Option FrameId} (hpins : desc.pinCnt = if cur' = some i then 1 else 0)
    (hothers : ∀ j, j ≠ i → (cur' = some j ↔ cur = some j)) :
    Scanned hash filename file disk cur' (mgr.withDesc i desc) := by
  have hholds : ∀ j g q, (mgr.withDesc i desc).Holds j g q ↔ mgr.Holds j g q := by
    intro j g q
    refine holds_withDesc ?_ ?_ ?_
    · exact hdesc.valid.trans hi.2.valid.symm
    · exact hdesc.file.trans hi.2.file.symm
    · exact hdesc.pageNo.trans hi.2.pageNo.symm
  have hself : (mgr.withDesc i desc).bufDescTable i = desc := Function.update_self ..
  have hother : ∀ j, j ≠ i → (mgr.withDesc i desc).bufDescTable j = mgr.bufDescTable j :=
    fun j hj => Function.update_of_ne hj ..
  refine ⟨h.agree.withDesc hi hdesc, h.backed.redescribed hi hdesc, h.file_eq, fun j g q hj hname => ?_,
    fun j q hj => h.same j q ((hholds j file q).mp hj), fun j q hj => ?_⟩
  · by_cases hji : j = i
    · rw [hji, hself]
      exact hclean
    · rw [hother j hji]
      exact h.clean j g q ((hholds j g q).mp hj) hname
  · by_cases hji : j = i
    · subst hji
      rw [hself]
      exact hpins
    · rw [hother j hji, h.pins j q ((hholds j file q).mp hj)]
      simp only [hothers j hji]

end Manager

variable {used free : List PageId}

/-- A page of the scanned file is put into a frame. -/
private theorem Scanned.occupied (h : Scanned hash filename file disk none mgr) (hlists : disk.Lists used free)
    (hp : p ∈ used) {table : BufHashTbl F} (loads : Loads hash mgr i file p table) :
    Scanned hash filename file disk (some i) (mgr.occupy i table file p (disk.pageAt p)) := by
  have hfiles : mgr.withFiles (Function.update mgr.files (filename file) disk) = mgr := by
    rw [← h.file_eq, Function.update_eq_self]
    rfl
  obtain ⟨page, hpage, hnum⟩ := hlists.used_page p hp
  have hat : disk.pages p = some (disk.pageAt p) := by
    rw [pageAt, hpage]
    rfl
  have hlive : contentsOn disk.pages p ≠ none := by
    rw [contentsOn_ne_none_iff]
    exact ⟨page, hpage, hnum ▸ Nat.ne_of_gt (hlists.used_pos hp)⟩
  have horder : disk.InOrder := h.file_eq ▸ h.backed.files (filename file)
  have hbacked : Backed filename
      ((mgr.withFiles (Function.update mgr.files (filename file) disk)).occupy i table file p (disk.pageAt p)) :=
    h.backed.occupied loads.lt horder (hlists.pageAt_number hp) hlive fun q hq => h.file_eq ▸ hq
  have hagree : ((mgr.withFiles mgr.files).occupy i table file p (disk.pageAt p)).Agree hash := loads.agree h.agree _ _
  have hdesc : (mgr.occupy i table file p (disk.pageAt p)).bufDescTable i = .Set file p := Function.update_self ..
  have hpool : (mgr.occupy i table file p (disk.pageAt p)).bufPool i = disk.pageAt p := Function.update_self ..
  have hotherDesc : ∀ j, j ≠ i → (mgr.occupy i table file p (disk.pageAt p)).bufDescTable j = mgr.bufDescTable j :=
    fun j hj => Function.update_of_ne hj ..
  have hotherPool : ∀ j, j ≠ i → (mgr.occupy i table file p (disk.pageAt p)).bufPool j = mgr.bufPool j :=
    fun j hj => Function.update_of_ne hj ..
  rw [hfiles] at hbacked
  refine ⟨hagree, hbacked, h.file_eq, fun j g q hj hname => ?_, fun j q hj => ?_, fun j q hj => ?_⟩
  · rcases (holds_occupy loads.lt).mp hj with ⟨rfl, -, -⟩ | ⟨hji, hold⟩
    · rw [hdesc]
      rfl
    · rw [hotherDesc j hji]
      exact h.clean j g q hold hname
  · rcases (holds_occupy loads.lt).mp hj with ⟨rfl, -, rfl⟩ | ⟨hji, hold⟩
    · rw [hpool]
      exact hat
    · rw [hotherPool j hji]
      exact h.same j q hold
  · rcases (holds_occupy loads.lt).mp hj with ⟨rfl, -, -⟩ | ⟨hji, hold⟩
    · rw [hdesc, if_pos rfl]
      rfl
    · rw [hotherDesc j hji, h.pins j q hold, if_neg (fun hnone => Option.some_ne_none j hnone.symm),
        if_neg fun hij => hji (Option.some.inj hij).symm]

/-- `readPage` of a page in use, where no page of the scan is pinned and a frame can be taken. -/
theorem Scanned.readPage (h : Scanned hash filename file disk none mgr) (hlists : disk.Lists used free) (hp : p ∈ used)
    (hfree : ∃ i < mgr.numBufs, Takeable mgr i) :
    ∃ i m, P3.readPage (pageFiles filename) hash file p mgr = .ok i m ∧
      Scanned hash filename file disk (some i) m ∧ m.Holds i file p ∧ m.bufPool i = disk.pageAt p := by
  have hspec := readPage_spec h.agree h.backed.writable file p
  cases hrun : P3.readPage (pageFiles filename) hash file p mgr with
  | error e m =>
    rw [hrun] at hspec
    cases hspec with
    | exceeded absent t full =>
      obtain ⟨i, hi, htake⟩ := hfree
      exact absurd htake (full i hi)
    | failed absent freed run =>
      obtain ⟨file', hthrows, -⟩ := P2.onFile_error run
      rw [h.files_freed freed, hlists.readPage_used hp] at hthrows
      cases hthrows
  | ok i m =>
    rw [hrun] at hspec
    refine ⟨i, m, rfl, ?_⟩
    cases hspec with
    | hit holds =>
      have hzero : (mgr.bufDescTable i).pinCnt = 0 := h.pins i p holds
      have hpinned : (mgr.bufDescTable i).pinned.Is file p := ⟨holds.2.valid, holds.2.file, holds.2.pageNo⟩
      refine ⟨h.repinned holds hpinned ?_ ?_ fun j hj => ?_, ?_, ?_⟩
      · exact h.clean i file p holds rfl
      · rw [if_pos rfl]
        exact congrArg (· + 1) hzero
      · exact iff_of_false (fun hij => hj (Option.some.inj hij).symm) (fun hnone => Option.some_ne_none j hnone.symm)
      · have hsame : (mgr.withDesc i (mgr.bufDescTable i).pinned).Holds i file p ↔ mgr.Holds i file p :=
          holds_withDesc rfl rfl rfl
        exact hsame.mpr holds
      · have hpage := h.same i p holds
        change mgr.bufPool i = disk.pageAt p
        rw [pageAt, hpage]
        rfl
    | @loaded _ m₁ page files table absent freed run loads =>
      have hm := h.freed freed
      obtain ⟨file', hreads, rfl⟩ := P2.onFile_ok run
      rw [hm.file_eq, hlists.readPage_used hp] at hreads
      obtain ⟨rfl, rfl⟩ := EStateM.Result.ok.inj hreads
      have hfiles : m₁.withFiles (Function.update m₁.files (filename file) disk) = m₁ := by
        rw [← hm.file_eq, Function.update_eq_self]
        rfl
      rw [hfiles]
      exact ⟨hm.occupied hlists hp loads, (holds_occupy freed.lt).mpr (.inl ⟨rfl, rfl, rfl⟩), Function.update_self ..⟩

omit [DecidableEq N] in
/-- `unPinPage` of the page of the scan. -/
theorem Scanned.unPinPage (h : Scanned hash filename file disk (some i) mgr) (hi : mgr.Holds i file p) :
    ∃ m, P3.unPinPage hash file p false mgr = .ok () m ∧ Scanned hash filename file disk none m ∧
      ∃ i < m.numBufs, Takeable m i := by
  have hone : (mgr.bufDescTable i).pinCnt = 1 := by
    rw [h.pins i p hi, if_pos rfl]
  have hspec := unPinPage_spec h.agree file p false
  cases hrun : P3.unPinPage hash file p false mgr with
  | error e m =>
    rw [hrun] at hspec
    cases hspec with
    | absent absent => exact absurd hi (absent i)
    | notPinned holds zero =>
      obtain rfl := h.agree.unique hi holds
      omega
  | ok _ m =>
    rw [hrun] at hspec
    refine ⟨m, rfl, ?_⟩
    cases hspec with
    | @unpinned j holds pins =>
      obtain rfl := h.agree.unique hi holds
      have hzero : ((mgr.bufDescTable i).unpinned false).pinCnt = 0 := by
        change (mgr.bufDescTable i).pinCnt - 1 = 0
        omega
      have hunpinned : ((mgr.bufDescTable i).unpinned false).Is file p := ⟨hi.2.valid, hi.2.file, hi.2.pageNo⟩
      refine ⟨h.repinned hi hunpinned ?_ ?_ fun j hj => ?_, i, hi.1, .inr ?_⟩
      · exact h.clean i file p hi rfl
      · rw [hzero, if_neg fun hnone => Option.some_ne_none i hnone.symm]
      · exact iff_of_false (fun hnone => Option.some_ne_none j hnone.symm) fun hij => hj (Option.some.inj hij).symm
      · have hdesc : (mgr.withDesc i ((mgr.bufDescTable i).unpinned false)).bufDescTable i =
            (mgr.bufDescTable i).unpinned false := Function.update_self ..
        rw [hdesc]
        exact hzero

/-! ### The scan on a page -/

/-- The records of the pages, in order, with their ids. -/
def recordsOf (disk : PageFile) (pages : List PageId) : List (RecordId × List UInt8) :=
  pages.flatMap fun p => (disk.pageAt p).recordsAfter INVALID_SLOT

/-- The scan of `disk` through `file`, with a pin on frame `cur`. -/
structure Scans (hash : F → PageId → Nat) (filename : F → N) (file : F) (disk : PageFile) (cur : Option FrameId)
    (s : ScanState F N) : Prop where
  object : s.scan.file = file
  mgr : Scanned hash filename file disk cur s.bufMgr
  moments : ∀ m ∈ s.moments, OnePin file m

/-- The scan has page `p` in frame `i`, in front of the pages `more`. -/
structure Entered (hash : F → PageId → Nat) (filename : F → N) (file : F) (disk : PageFile) (i : FrameId) (p : PageId)
    (more : List PageId) (s : ScanState F N) : Prop extends Scans hash filename file disk (some i) s where
  curPage : s.scan.curPage = some i
  pageIter : s.scan.filePageIter = p
  notDirty : s.scan.curDirtyFlag = false
  holds : s.bufMgr.Holds i file p
  page : s.bufMgr.bufPool i = disk.pageAt p
  chain : Chain (linkOn disk.pages) p (p :: more) INVALID_NUMBER

/-- The scan is at a slot of the page. -/
structure OnPage (hash : F → PageId → Nat) (filename : F → N) (file : F) (disk : PageFile) (i : FrameId) (p : PageId)
    (more : List PageId) (slot : SlotId) (s : ScanState F N) : Prop extends Entered hash filename file disk i p more s where
  iter : s.scan.pageRecordIter = { page_ := some i, current_record_ := (disk.pageAt p).recordAt slot }

/-- The scan has given its page back, and goes on at `filePageIter`. -/
structure Between (hash : F → PageId → Nat) (filename : F → N) (file : F) (disk : PageFile) (s : ScanState F N) :
    Prop extends Scans hash filename file disk none s where
  curPage : s.scan.curPage = none
  notDirty : s.scan.curDirtyFlag = false
  free : ∃ i < s.bufMgr.numBufs, Takeable s.bufMgr i

variable {s : ScanState F N} {more : List PageId} {slot : SlotId} {α : Type}

omit [DecidableEq F] in
/-- A call of the file that leaves it as it is. -/
theorem callFile_eq {code : FileM α} {a : α} (hrun : code (s.bufMgr.files (filename s.scan.file)) =
    .ok a (s.bufMgr.files (filename s.scan.file))) : callFile filename code s = .ok a s := by
  rw [callFile, onFile_eq hrun]
  simp only [Function.update_eq_self]

omit [DecidableEq F] [DecidableEq N] in
theorem callBufMgr_eq {code : BufM F Page (N → PageFile) α} {a : α} (hrun : code s.bufMgr = .ok a m) :
    callBufMgr code s = .ok a { s with bufMgr := m, moments := m :: s.moments } := by
  rw [callBufMgr, hrun]

omit [DecidableEq N] in
private theorem Scans.disk_eq (h : Scans hash filename file disk cur s) :
    s.bufMgr.files (filename s.scan.file) = disk := by
  rw [h.object]
  exact h.mgr.file_eq

/-- `(*filePageIter).page_number()`. -/
private theorem Scans.currentPageNumber (h : Scans hash filename file disk cur s) (hlists : disk.Lists used free)
    (hp : s.scan.filePageIter ∈ used) : P3.currentPageNumber filename s = .ok s.scan.filePageIter s := by
  have hread : PageFile.readPage s.scan.filePageIter (s.bufMgr.files (filename s.scan.file)) =
      .ok (disk.pageAt s.scan.filePageIter) (s.bufMgr.files (filename s.scan.file)) := by
    rw [h.disk_eq]
    exact hlists.readPage_used hp
  rw [P3.currentPageNumber, run_bind_ok (run_get s), run_bind_ok (callFile_eq hread), run_pure, hlists.pageAt_number hp]

/-- The next page is read. -/
private theorem Between.readCurrentPage (h : Between hash filename file disk s) (hlists : disk.Lists used free)
    (hp : s.scan.filePageIter ∈ used)
    (hchain : Chain (linkOn disk.pages) s.scan.filePageIter (s.scan.filePageIter :: more) INVALID_NUMBER) :
    ∃ i s', P3.readCurrentPage filename hash s = .ok () s' ∧
      Entered hash filename file disk i s.scan.filePageIter more s' := by
  obtain ⟨i, m, hrun, hm, hholds, hpage⟩ := h.mgr.readPage hlists hp h.free
  rw [← h.object] at hrun
  refine ⟨i, { s with bufMgr := m, moments := m :: s.moments, scan := { s.scan with curPage := some i } }, ?_,
    ⟨⟨h.object, hm, ?_⟩, rfl, rfl, h.notDirty, hholds, hpage, hchain⟩⟩
  · rw [P3.readCurrentPage, run_bind_ok (run_get s), run_bind_ok (h.currentPageNumber hlists hp),
      run_bind_ok (callBufMgr_eq hrun)]
    rfl
  · intro m' hm'
    rcases List.mem_cons.mp hm' with rfl | hold
    · exact hm.onePin
    · exact h.moments m' hold

/-- The page is given back, and the scan goes to the next one. -/
private theorem Entered.leave (h : Entered hash filename file disk i p more s) (hlists : disk.Lists used free)
    (hp : p ∈ used) :
    ∃ s₁ s', unPinCurrentPage filename hash s = .ok () s₁ ∧
      nextPage filename { s₁ with scan := { s₁.scan with curPage := none, curDirtyFlag := false } } = .ok () s' ∧
      Between hash filename file disk s' ∧ s'.scan.filePageIter = linkOn disk.pages p := by
  obtain ⟨m, hrun, hm, hfree⟩ := h.mgr.unPinPage h.holds
  rw [← h.object] at hrun
  have hp' : s.scan.filePageIter ∈ used := h.pageIter ▸ hp
  have hunpin : unPinCurrentPage filename hash s = .ok () { s with bufMgr := m, moments := m :: s.moments } := by
    rw [unPinCurrentPage, run_bind_ok (run_get s), run_bind_ok (h.currentPageNumber hlists hp'), h.notDirty, h.pageIter]
    exact callBufMgr_eq hrun
  obtain ⟨page, hpage, -⟩ := hlists.used_page p hp
  have hheader : ∀ s₁ : ScanState F N, s₁.bufMgr.files (filename s₁.scan.file) = disk → s₁.scan.filePageIter = p →
      nextPage filename s₁ = .ok () { s₁ with scan := { s₁.scan with filePageIter := linkOn disk.pages p } } := by
    intro s₁ hdisk hiter
    have hread : readPageHeader s₁.scan.filePageIter (s₁.bufMgr.files (filename s₁.scan.file)) =
        .ok page.header (s₁.bufMgr.files (filename s₁.scan.file)) := by
      rw [hdisk, hiter]
      exact readPageHeader_eq hlists.alive hpage
    rw [nextPage, run_bind_ok (run_get s₁), run_bind_ok (callFile_eq hread), linkOn_some hpage]
    rfl
  refine ⟨_, _, hunpin, hheader _ ?_ h.pageIter, ⟨⟨h.object, hm, ?_⟩, rfl, rfl, hfree⟩, rfl⟩
  · exact (congrArg (fun f => m.files (filename f)) h.object).trans hm.file_eq
  · intro m' hm'
    rcases List.mem_cons.mp hm' with rfl | hold
    · exact hm.onePin
    · exact h.moments m' hold

omit [DecidableEq N] in
/-- `pageRecordIter = curPage->begin()`. -/
private theorem Entered.beginRecords (h : Entered hash filename file disk i p more s) :
    ∃ s', P3.beginRecords s = .ok () s' ∧
      OnPage hash filename file disk i p more ((disk.pageAt p).getNextUsedSlot INVALID_SLOT) s' := by
  have hpage : (pageOf s.scan.curPage : ScanM F N Page) s = .ok (disk.pageAt p) s := by
    rw [h.curPage, ← h.page]
    rfl
  refine ⟨{ s with scan := { s.scan with
      pageRecordIter := { page_ := some i
                          current_record_ := (disk.pageAt p).recordAt ((disk.pageAt p).getNextUsedSlot INVALID_SLOT) } } },
    ?_, ⟨⟨⟨h.object, h.mgr, h.moments⟩, h.curPage, h.pageIter, h.notDirty, h.holds, h.page, h.chain⟩, rfl⟩⟩
  rw [P3.beginRecords, run_bind_ok (run_get s), run_bind_ok hpage, h.curPage]
  rfl

section OnPage

variable (h : OnPage hash filename file disk i p more slot s)
include h

omit [DecidableEq N] in
private theorem OnPage.pageOf_iter : (pageOf s.scan.pageRecordIter.page_ : ScanM F N Page) s = .ok (disk.pageAt p) s := by
  rw [h.iter, ← h.page]
  rfl

omit [DecidableEq N] in
/-- `pageRecordIter++`. -/
private theorem OnPage.nextRecord : ∃ s', P3.nextRecord s = .ok () s' ∧
    OnPage hash filename file disk i p more ((disk.pageAt p).getNextUsedSlot slot) s' := by
  refine ⟨{ s with scan := { s.scan with
      pageRecordIter := { page_ := some i
                          current_record_ := (disk.pageAt p).recordAt ((disk.pageAt p).getNextUsedSlot slot) } } },
    ?_, ⟨⟨⟨h.object, h.mgr, h.moments⟩, h.curPage, h.pageIter, h.notDirty, h.holds, h.page, h.chain⟩, rfl⟩⟩
  rw [P3.nextRecord, run_bind_ok (run_get s), run_bind_ok h.pageOf_iter, h.iter]
  rfl

omit [DecidableEq N] in
/-- `pageRecordIter == curPage->end()`. -/
private theorem OnPage.atPageEnd : P3.atPageEnd s = .ok (decide (slot = INVALID_SLOT)) s := by
  have hcur : (pageOf s.scan.curPage : ScanM F N Page) s = .ok (disk.pageAt p) s := by
    rw [h.curPage, ← h.page]
    rfl
  have hslot : s.scan.pageRecordIter.current_record_ = (disk.pageAt p).recordAt slot := by rw [h.iter]
  rw [P3.atPageEnd, run_bind_ok (run_get s), run_bind_ok h.pageOf_iter, run_bind_ok hcur, hslot, run_pure]
  simp [Page.recordAt]

omit [DecidableEq N] in
/-- The record at a used slot. -/
private theorem OnPage.record (hreadable : (disk.pageAt p).Readable) (hstored : (disk.pageAt p).Stored slot) :
    currentRecord s = .ok ((disk.pageAt p).recordAt slot) s ∧ getRecord s = .ok ((disk.pageAt p).recordBytes slot) s := by
  have hslot : s.scan.pageRecordIter.current_record_ = (disk.pageAt p).recordAt slot := by rw [h.iter]
  have hget : getRecord s = .ok ((disk.pageAt p).recordBytes slot) s := by
    rw [getRecord, run_bind_ok (run_get s), run_bind_ok h.pageOf_iter, hslot, hreadable.getRecord_eq hstored]
    rfl
  refine ⟨?_, hget⟩
  rw [currentRecord, run_bind_ok hget, run_bind_ok (run_get s), run_pure, hslot]

end OnPage

/-! ### Calls of `scanNext` -/

/-- The scan stands in front of these records. -/
inductive At (hash : F → PageId → Nat) (filename : F → N) (file : F) (disk : PageFile) (used : List PageId) :
    List (RecordId × List UInt8) → ScanState F N → Prop where
  | start {s : ScanState F N} (between : Between hash filename file disk s)
      (pageIter : s.scan.filePageIter = disk.header.first_used_page) :
      At hash filename file disk used (recordsOf disk used) s
  | onPage {s : ScanState F N} {i : FrameId} {p : PageId} {more : List PageId} {slot : SlotId}
      (on : OnPage hash filename file disk i p more slot s) (mem : ∀ q ∈ p :: more, q ∈ used) (nodup : more.Nodup) :
      At hash filename file disk used ((disk.pageAt p).recordsAfter slot ++ recordsOf disk more) s
  | done {s : ScanState F N} (between : Between hash filename file disk s)
      (pageIter : s.scan.filePageIter = INVALID_NUMBER) :
      At hash filename file disk used [] s

/-- The call returns the id of the first record, which `getRecord` gives then, or throws if there is none. -/
def Yields (hash : F → PageId → Nat) (filename : F → N) (file : F) (disk : PageFile) (used : List PageId)
    (r : EStateM.Result (ScanError F) (ScanState F N) RecordId) : List (RecordId × List UInt8) → Prop
  | [] => ∃ s', r = .error .endOfFile s' ∧ At hash filename file disk used [] s'
  | (record_id, record) :: rest => ∃ s', r = .ok record_id s' ∧ getRecord s' = .ok record s' ∧
      At hash filename file disk used rest s'

section Calls

variable (hlists : disk.Lists used free) (hreadable : ∀ p ∈ used, (disk.pageAt p).Readable)
include hlists hreadable

omit [DecidableEq N] hlists in
/-- The record at a used slot is returned. -/
private theorem OnPage.yields (h : OnPage hash filename file disk i p more slot s) (hmem : ∀ q ∈ p :: more, q ∈ used)
    (hnodup : more.Nodup) (hstored : (disk.pageAt p).Stored slot) :
    Yields hash filename file disk used (currentRecord s)
      (((disk.pageAt p).recordAt slot, (disk.pageAt p).recordBytes slot) ::
        ((disk.pageAt p).recordsAfter slot ++ recordsOf disk more)) := by
  obtain ⟨hreturns, hget⟩ := h.record (hreadable p (hmem p List.mem_cons_self)) hstored
  exact ⟨s, hreturns, hget, .onPage h hmem hnodup⟩

/-- The loop, after an advance; by induction on its rounds. -/
private theorem OnPage.findRecord {start : SlotId} {fuel : Nat}
    (h : OnPage hash filename file disk i p more ((disk.pageAt p).getNextUsedSlot start) s)
    (hmem : ∀ q ∈ p :: more, q ∈ used)
    (hnodup : more.Nodup) (hfuel : more.length < fuel) :
    Yields hash filename file disk used (P3.findRecord filename hash fuel s)
      ((disk.pageAt p).recordsAfter start ++ recordsOf disk more) := by
  induction fuel generalizing i p start s more with
  | zero => exact absurd hfuel (Nat.not_lt_zero _)
  | succ fuel ih =>
    have hp : p ∈ used := hmem p List.mem_cons_self
    rw [P3.findRecord, run_bind_ok h.atPageEnd]
    rcases (disk.pageAt p).recordsAfter_cases start with ⟨hzero, hrest⟩ | ⟨hstored, hrest⟩
    · -- the page has no more records
      rw [hzero, decide_eq_true rfl, if_pos rfl, hrest, List.nil_append]
      obtain ⟨s₁, s', hunpin, hnext, hbetween, hiter⟩ := h.toEntered.leave hlists hp
      rw [run_bind_ok hunpin, setScan, run_bind_ok (run_modify _ _), run_bind_ok hnext, run_bind_ok (run_get s')]
      have hchain : Chain (linkOn disk.pages) (linkOn disk.pages p) more INVALID_NUMBER := h.chain.2
      rw [← hiter] at hchain
      cases more with
      | nil =>
        have hend : s'.scan.filePageIter = INVALID_NUMBER := chain_nil.mp hchain
        rw [if_pos hend]
        exact ⟨s', rfl, .done hbetween hend⟩
      | cons q more =>
        have hq : s'.scan.filePageIter = q := hchain.1
        have hused : s'.scan.filePageIter ∈ used := hq ▸ hmem q (List.mem_cons_of_mem _ List.mem_cons_self)
        have hpos : ¬ s'.scan.filePageIter = INVALID_NUMBER := Nat.ne_of_gt (hlists.used_pos hused)
        rw [← hq] at hchain
        obtain ⟨j, s₂, hread, hentered⟩ := hbetween.readCurrentPage hlists hused hchain
        obtain ⟨s₃, hbegin, hon⟩ := hentered.beginRecords
        rw [if_neg hpos, run_bind_ok hread, run_bind_ok hbegin]
        rw [hq] at hon
        have hlater := ih hon (fun r hr => hmem r (List.mem_cons_of_mem _ hr)) (List.nodup_cons.mp hnodup).2
          (Nat.lt_of_succ_lt_succ hfuel)
        rw [recordsOf, List.flatMap_cons]
        exact hlater
    · -- the iterator is at a record
      have hne : ¬ (disk.pageAt p).getNextUsedSlot start = INVALID_SLOT := Nat.ne_of_gt hstored.1
      rw [decide_eq_false hne, if_neg Bool.false_ne_true, hrest, List.cons_append]
      exact h.yields hreadable hmem hnodup hstored

/-- The general part of `scanNext`. -/
private theorem OnPage.scanOn (h : OnPage hash filename file disk i p more slot s) (hmem : ∀ q ∈ p :: more, q ∈ used)
    (hnodup : more.Nodup) :
    Yields hash filename file disk used (P3.scanOn filename hash s)
      ((disk.pageAt p).recordsAfter slot ++ recordsOf disk more) := by
  obtain ⟨s₁, hnext, hon⟩ := h.nextRecord
  rw [P3.scanOn, run_bind_ok hnext, run_bind_ok (run_get s₁), hon.disk_eq]
  refine hon.findRecord hlists hreadable hmem hnodup (Nat.lt_succ_of_le ?_)
  exact length_le_of_lt hnodup fun q hq => hlists.used_lt (hmem q (List.mem_cons_of_mem _ hq))

/-- One call. -/
theorem At.scanNext {rest : List (RecordId × List UInt8)} (h : At hash filename file disk used rest s) :
    Yields hash filename file disk used (P3.scanNext filename hash s) rest := by
  rw [P3.scanNext, run_bind_ok (run_get s)]
  cases h with
  | done between pageIter =>
    rw [if_pos pageIter]
    exact ⟨s, rfl, .done between pageIter⟩
  | @onPage _ i p more slot on mem nodup =>
    have hpos : ¬ s.scan.filePageIter = INVALID_NUMBER := by
      rw [on.pageIter]
      exact Nat.ne_of_gt (hlists.used_pos (mem p List.mem_cons_self))
    have hcur : ¬ s.scan.curPage = none := by
      rw [on.curPage]
      exact Option.some_ne_none i
    rw [if_neg hpos, if_neg hcur]
    exact on.scanOn hlists hreadable mem nodup
  | start between pageIter =>
    have hheader : fileBegin filename s = .ok disk.header.first_used_page s := by
      have hread : readHeader (s.bufMgr.files (filename s.scan.file)) =
          .ok disk.header (s.bufMgr.files (filename s.scan.file)) := by
        rw [between.disk_eq]
        exact readHeader_eq hlists.alive
      rw [fileBegin, run_bind_ok (callFile_eq hread)]
      rfl
    have hsame : { s with scan := { s.scan with filePageIter := disk.header.first_used_page } } = s := by
      rw [← pageIter]
    have hchain := hlists.used_chain
    rw [← pageIter] at hchain
    cases used with
    | nil =>
      rw [if_pos (chain_nil.mp hchain)]
      exact ⟨s, rfl, .done between (chain_nil.mp hchain)⟩
    | cons p more =>
      have hp : s.scan.filePageIter = p := hchain.1
      have hused : s.scan.filePageIter ∈ p :: more := hp ▸ List.mem_cons_self
      have hpos : ¬ s.scan.filePageIter = INVALID_NUMBER := Nat.ne_of_gt (hlists.used_pos hused)
      have hnodup : more.Nodup := (List.nodup_cons.mp hlists.used_nodup).2
      rw [← hp] at hchain
      obtain ⟨i, s₁, hread, hentered⟩ := between.readCurrentPage hlists hused hchain
      have hclean : { s₁ with scan := { s₁.scan with curDirtyFlag := false } } = s₁ := by
        rw [← hentered.notDirty]
      obtain ⟨s₂, hbegin, hon⟩ := hentered.beginRecords
      rw [hp] at hon
      rw [if_neg hpos, if_pos between.curPage, run_bind_ok hheader, setScan, run_bind_ok (run_modify _ _), hsame,
        if_neg (pageIter ▸ hpos), run_bind_ok hread, setScan, run_bind_ok (run_modify _ _), hclean, run_bind_ok hbegin,
        run_bind_ok hon.atPageEnd, recordsOf, List.flatMap_cons]
      rcases (disk.pageAt p).recordsAfter_cases INVALID_SLOT with ⟨hzero, hrest⟩ | ⟨hstored, hrest⟩
      · -- the iterator is at the end and starts again, to find the same
        have hlater := hon.scanOn hlists hreadable (fun q hq => hq) hnodup
        rw [hzero] at hlater ⊢
        exact hlater
      · have hne : ¬ (disk.pageAt p).getNextUsedSlot INVALID_SLOT = INVALID_SLOT := Nat.ne_of_gt hstored.1
        rw [decide_eq_false hne, if_neg Bool.false_ne_true, hrest, List.cons_append]
        exact hon.yields hreadable (fun q hq => hq) hnodup hstored

end Calls

/-- The scan that is opened stands in front of all records. -/
theorem At.opened (h : Scanned hash filename file disk none mgr) (hlists : disk.Lists used free)
    (hfree : ∃ i < mgr.numBufs, Takeable mgr i) :
    ∃ s, openScan filename file mgr = .ok () s ∧ At hash filename file disk used (recordsOf disk used) s := by
  have hread : readHeader (mgr.files (filename file)) = .ok disk.header (mgr.files (filename file)) := by
    rw [h.file_eq]
    exact readHeader_eq hlists.alive
  have hheader : ∀ s₀ : ScanState F N, s₀.bufMgr = mgr → s₀.scan.file = file →
      fileBegin filename s₀ = .ok disk.header.first_used_page s₀ := by
    rintro s₀ rfl rfl
    rw [fileBegin, run_bind_ok (callFile_eq hread)]
    rfl
  refine ⟨{ bufMgr := mgr
            scan := { file := file, curPage := none, filePageIter := disk.header.first_used_page, pageRecordIter := .empty
                      curDirtyFlag := false }
            moments := [mgr] }, ?_, .start ⟨⟨rfl, h, fun m hm => ?_⟩, rfl, rfl, hfree⟩ rfl⟩
  · rw [openScan, run_bind_ok (hheader _ rfl rfl)]
    rfl
  · rw [List.mem_singleton.mp hm]
    exact h.onePin

omit [DecidableEq F] [DecidableEq N] in
/-- Every page has records of its own. -/
theorem recordsOf_nodup (hlists : disk.Lists used free) (hreadable : ∀ p ∈ used, (disk.pageAt p).Readable) :
    ((recordsOf disk used).map Prod.fst).Nodup := by
  rw [recordsOf, List.map_flatMap, List.nodup_flatMap]
  refine ⟨fun p _ => Page.recordsAfter_nodup, ?_⟩
  refine hlists.used_nodup.imp_of_mem fun {p q} hp hq hne => ?_
  intro record_id hmem hmem'
  obtain ⟨⟨_, record⟩, hrecord, rfl⟩ := List.mem_map.mp hmem
  obtain ⟨⟨_, record'⟩, hrecord', heq⟩ := List.mem_map.mp hmem'
  have hnumber := ((hreadable p hp).mem_recordsAfter.mp hrecord).1
  have hnumber' := ((hreadable q hq).mem_recordsAfter.mp hrecord').1
  rw [hlists.pageAt_number hp] at hnumber
  rw [hlists.pageAt_number hq] at hnumber'
  exact hne (hnumber.symm.trans ((congrArg RecordId.page_number heq).symm.trans hnumber'))

/-- The state after `n` calls of `scanNext`. -/
def afterCalls (filename : F → N) (hash : F → PageId → Nat) (n : Nat) (s : ScanState F N) : ScanState F N :=
  (fun s => stateAfter (scanNext filename hash s))^[n] s

/-- A call leaves the scan in front of the records behind the first one. -/
private theorem At.after (hlists : disk.Lists used free) (hreadable : ∀ p ∈ used, (disk.pageAt p).Readable)
    {rest : List (RecordId × List UInt8)} (h : At hash filename file disk used rest s) :
    At hash filename file disk used rest.tail (stateAfter (P3.scanNext filename hash s)) := by
  have hyields := h.scanNext hlists hreadable
  cases rest with
  | nil =>
    obtain ⟨s', hrun, hat⟩ := hyields
    rw [hrun]
    exact hat
  | cons record rest =>
    obtain ⟨s', hrun, -, hat⟩ := hyields
    rw [hrun]
    exact hat

/-- Any number of calls; by induction on it. -/
private theorem At.calls (hlists : disk.Lists used free) (hreadable : ∀ p ∈ used, (disk.pageAt p).Readable)
    {rest : List (RecordId × List UInt8)} (n : Nat) (h : At hash filename file disk used rest s) :
    At hash filename file disk used (rest.drop n) (afterCalls filename hash n s) := by
  induction n generalizing rest s with
  | zero => exact h
  | succ n ih =>
    have hlater := ih (h.after hlists hreadable)
    rw [List.drop_tail] at hlater
    exact hlater

omit [DecidableEq N] in
private theorem At.moments {rest : List (RecordId × List UInt8)} (h : At hash filename file disk used rest s) :
    ∀ m ∈ s.moments, OnePin file m := by
  cases h with
  | start between => exact between.moments
  | onPage on => exact on.moments
  | done between => exact between.moments

/-- A new scan of a file in order, whose pages have no pending changes in the pool, where a frame can be taken: the calls
of `scanNext` return the ids of the records on the pages of the used list one after the other, each once, `getRecord` gives
their bytes, and from then on every call throws `EndOfFileException`; the scan never has more than one pin. -/
theorem scan_records (h : Scanned hash filename file disk none mgr) (hfree : ∃ i < mgr.numBufs, Takeable mgr i)
    (hlists : disk.Lists used free) (hreadable : ∀ p ∈ used, (disk.pageAt p).Readable) :
    ((recordsOf disk used).map Prod.fst).Nodup ∧
    (∀ record_id record, (record_id, record) ∈ recordsOf disk used ↔
      record_id.page_number ∈ used ∧ record_id.padding = 0 ∧
        (disk.pageAt record_id.page_number).Stored record_id.slot_number ∧
        (disk.pageAt record_id.page_number).getRecord record_id = .ok record) ∧
    ∃ s, openScan filename file mgr = .ok () s ∧ ∀ n,
      (∀ record_id record, (recordsOf disk used)[n]? = some (record_id, record) →
        ∃ s', scanNext filename hash (afterCalls filename hash n s) = .ok record_id s' ∧ getRecord s' = .ok record s') ∧
      ((recordsOf disk used)[n]? = none →
        ∃ s', scanNext filename hash (afterCalls filename hash n s) = .error .endOfFile s') ∧
      ∀ m ∈ (afterCalls filename hash n s).moments, OnePin file m := by
  refine ⟨recordsOf_nodup hlists hreadable, fun record_id record => ?_, ?_⟩
  · rw [recordsOf, List.mem_flatMap]
    constructor
    · rintro ⟨p, hp, hrecord⟩
      obtain ⟨hnumber, hpadding, hstored, hget⟩ := (hreadable p hp).mem_recordsAfter.mp hrecord
      rw [hlists.pageAt_number hp] at hnumber
      rw [hnumber]
      exact ⟨hp, hpadding, hstored, hget⟩
    · rintro ⟨hp, hpadding, hstored, hget⟩
      refine ⟨record_id.page_number, hp, (hreadable _ hp).mem_recordsAfter.mpr ⟨?_, hpadding, hstored, hget⟩⟩
      exact (hlists.pageAt_number hp).symm
  · obtain ⟨s, hopen, hat⟩ := At.opened h hlists hfree
    refine ⟨s, hopen, fun n => ?_⟩
    have hthen := hat.calls hlists hreadable n
    have hyields := hthen.scanNext hlists hreadable
    refine ⟨fun record_id record hsome => ?_, fun hnone => ?_, hthen.moments⟩
    · obtain ⟨hlt, hget⟩ := List.getElem?_eq_some_iff.mp hsome
      rw [List.drop_eq_getElem_cons hlt, hget] at hyields
      obtain ⟨s', hrun, hrecord, -⟩ := hyields
      exact ⟨s', hrun, hrecord⟩
    · rw [List.drop_eq_nil_of_le (List.getElem?_eq_none_iff.mp hnone)] at hyields
      obtain ⟨s', hrun, -⟩ := hyields
      exact ⟨s', hrun⟩

/-! ### A small file -/

/-- A file of two pages, the first one without records and the second one with one. -/
def smallFile : PageFile :=
  { header := { num_pages := 3, first_used_page := 1, num_free_pages := 0, first_free_page := 0 }
    pages := fun n =>
      if n = 1 then some ((Page.fresh.set_page_number 1).set_next_page_number 2)
      else if n = 2 then some ((Page.fresh.set_page_number 2).insertRecord [97, 98]).1
      else none
    failed := false }

private theorem smallFile_pages {n : PageId} {page : Page} (hp : smallFile.pages n = some page) :
    (n = 1 ∨ n = 2) ∧ page.page_number = n := by
  unfold smallFile at hp
  dsimp only at hp
  split at hp
  · next hone =>
    obtain rfl := Option.some.inj hp
    exact ⟨.inl hone, hone.symm⟩
  · split at hp
    · next htwo =>
      obtain rfl := Option.some.inj hp
      refine ⟨.inr htwo, ?_⟩
      rw [htwo]
      decide +kernel
    · cases hp

private theorem smallFile_present {n : PageId} (hn : n = 1 ∨ n = 2) : ∃ page, smallFile.pages n = some page := by
  rcases hn with rfl | rfl
  · exact ⟨_, rfl⟩
  · exact ⟨_, rfl⟩

theorem smallFile_lists : smallFile.Lists [1, 2] [] where
  alive := rfl
  num_pos := by decide
  num_lt := by decide
  used_chain := ⟨rfl, rfl, (by decide +kernel : linkOn smallFile.pages 2 = INVALID_NUMBER)⟩
  free_chain := rfl
  sorted := by decide
  free_nodup := List.nodup_nil
  num_free := rfl
  mem_iff n := by
    have hbounds : ∀ k : Nat, k = 1 ∨ k = 2 ↔ 1 ≤ k ∧ k < 3 := by omega
    have hmem : n ∈ [1, 2] ∨ n ∈ [] ↔ n = 1 ∨ n = 2 := by simp
    exact hmem.trans (hbounds n)
  used_page n hn := by
    have hcases : n = 1 ∨ n = 2 := by simpa using hn
    obtain ⟨page, hp⟩ := smallFile_present hcases
    exact ⟨page, hp, (smallFile_pages hp).2⟩
  free_page _ hn := absurd hn List.not_mem_nil

theorem smallFile_sound : smallFile.Sound [] where
  alive := rfl
  num_pos := by decide
  num_lt := by decide
  free_chain := rfl
  free_nodup := List.nodup_nil
  num_free := rfl
  present n := by
    have hbounds : ∀ k : Nat, k = 1 ∨ k = 2 ↔ 1 ≤ k ∧ k < 3 := by omega
    refine Iff.trans ?_ (hbounds n)
    constructor
    · rintro ⟨page, hp⟩
      exact (smallFile_pages hp).1
    · exact smallFile_present
  number _ _ hp := .inr (smallFile_pages hp).2
  mem_free n := by
    refine iff_of_false List.not_mem_nil ?_
    rintro ⟨page, hp, hfree⟩
    obtain ⟨hn, hnum⟩ := smallFile_pages hp
    have hzero : n = 0 := hnum.symm.trans hfree
    subst hzero
    exact absurd hn (by decide)

/-- A pool of one frame over the small file. -/
def smallPool : BufMgr Unit Page (Unit → PageFile) := newBufMgr 1 .fresh fun _ => smallFile

/-- The scan of the small file: the record of page 2, and then the end. -/
theorem scan_records_small : ∃ s s₁ s₂, openScan id () smallPool = .ok () s ∧
    scanNext id (P3.hash fun _ => 0) s = .ok { page_number := 2, slot_number := 1, padding := 0 } s₁ ∧
    getRecord s₁ = .ok [97, 98] s₁ ∧ scanNext id (P3.hash fun _ => 0) s₁ = .error .endOfFile s₂ := by
  have hnone : ∀ i (f : Unit) p, ¬ smallPool.Holds i f p := fun _ _ _ => not_holds_newBufMgr
  have hrun : Run (pageFiles id) (P3.hash fun _ => 0) id Page.unlinked 1 .fresh (fun _ : Unit => smallFile) (fun _ => none)
      (fun mgr _ call => call.Orderly id mgr) smallPool ⟨fun _ => none, fun _ => false⟩ := .start
  have hscanned : Scanned (P3.hash fun _ => 0) id () smallFile none smallPool :=
    hrun.scanned (fun _ => ⟨⟨_, _, smallFile_lists⟩, ⟨_, smallFile_sound⟩⟩) Nat.one_pos (fun i p => hnone i () p)
      fun i g p hi => absurd hi (hnone i g p)
  have hreadable : ∀ p ∈ [1, 2], (smallFile.pageAt p).Readable := by
    have hslots : ∀ p ∈ [1, 2], ∀ i ∈ List.range' 1 (smallFile.pageAt p).header.num_slots,
        (smallFile.pageAt p).item_offset i ≤ DATA_SIZE := by decide +kernel
    intro p hp i hi
    refine hslots p hp i (List.mem_range'_1.mpr ⟨hi.1, ?_⟩)
    rw [Nat.add_comm]
    exact Nat.lt_succ_of_le hi.2.1
  have hrecords : recordsOf smallFile [1, 2] = [({ page_number := 2, slot_number := 1, padding := 0 }, [97, 98])] := by
    decide +kernel
  obtain ⟨-, -, s, hopen, hcalls⟩ := scan_records hscanned ⟨0, Nat.one_pos, .inl rfl⟩ smallFile_lists hreadable
  rw [hrecords] at hcalls
  obtain ⟨s₁, hfirst, hget⟩ := (hcalls 0).1 _ _ rfl
  obtain ⟨s₂, hend⟩ := (hcalls 1).2.1 rfl
  have hstate : afterCalls id (P3.hash fun _ => 0) 1 s = s₁ := by
    change stateAfter (scanNext id (P3.hash fun _ => 0) s) = s₁
    have hrun : scanNext id (P3.hash fun _ => 0) s = _ := hfirst
    rw [hrun]
    rfl
  rw [hstate] at hend
  exact ⟨s, s₁, s₂, hopen, hfirst, hget, hend⟩

end Cs564.P3
