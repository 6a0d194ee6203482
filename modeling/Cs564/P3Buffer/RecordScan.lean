import Cs564.P3Buffer.InterruptedScan
import Cs564.P3Buffer.PinnedPages
import Cs564.P3Buffer.RecordStore

/-!
# A scan among other clients

A scan of a file that no other client works on, while clients work on other files between its calls, in any order
(`ScanSession`).  The scan still returns the records of the map one after the other (`scanSession_answers`), and
`~FileScan` returns at any time and leaves the manager in the session of the other clients (`closeScan_session`).
-/

namespace Cs564.P3

open P2 (BufError BufHashTbl BufDesc BufMgr BufM Loads)
open P2.BufMgr PageFile

variable {F N : Type} [DecidableEq F] [DecidableEq N] {hash : F → PageId → Nat} {filename : F → N} {file : F}
  {disk : PageFile} {used free : List PageId} {mgr m : BufMgr F Page (N → PageFile)} {cur : Option FrameId}
  {i : FrameId} {p : PageId}

/-! ### The manager during a scan -/

/-- The file is `disk`, and the pool has pages of it through this object only, none of them dirty. -/
structure Sole (filename : F → N) (file : F) (disk : PageFile) (mgr : BufMgr F Page (N → PageFile)) : Prop where
  file_eq : mgr.files (filename file) = disk
  clean : Clean filename (filename file) mgr
  own : ∀ i g p, mgr.Holds i g p → filename g = filename file → g = file

namespace Sole

section Steps

variable (h : Sole filename file disk mgr)
include h

omit [DecidableEq F] [DecidableEq N] in
theorem aside (ha : Aside filename (filename file) mgr m) : Sole filename file disk m where
  file_eq := ha.file_eq.trans h.file_eq
  clean := h.clean.aside ha
  own i g p hi hg := h.own i g p (ha.frames i g p hi hg).1 hg

omit [DecidableEq F] [DecidableEq N] in
/-- A page of the file gets another clean descriptor. -/
private theorem redescribed (hi : mgr.Holds i file p) {desc : BufDesc F} (hdesc : desc.Is file p)
    (hclean : desc.dirty = false) : Sole filename file disk (mgr.withDesc i desc) := by
  have hholds : ∀ j g q, (mgr.withDesc i desc).Holds j g q ↔ mgr.Holds j g q := by
    intro j g q
    refine holds_withDesc ?_ ?_ ?_
    · exact hdesc.valid.trans hi.2.valid.symm
    · exact hdesc.file.trans hi.2.file.symm
    · exact hdesc.pageNo.trans hi.2.pageNo.symm
  refine ⟨h.file_eq, fun j g q hj hg => ?_, fun j g q hj hg => h.own j g q ((hholds j g q).mp hj) hg⟩
  by_cases hji : j = i
  · have hself : (mgr.withDesc i desc).bufDescTable j = desc := by
      rw [hji]
      exact Function.update_self ..
    rw [hself]
    exact hclean
  · have hother : (mgr.withDesc i desc).bufDescTable j = mgr.bufDescTable j := Function.update_of_ne hji ..
    rw [hother]
    exact h.clean j g q ((hholds j g q).mp hj) hg

omit [DecidableEq F] [DecidableEq N] in
/-- A page of the file is put into a frame. -/
private theorem occupied (hlt : i < mgr.numBufs) (table : BufHashTbl F) (page : Page) :
    Sole filename file disk (mgr.occupy i table file p page) := by
  refine ⟨h.file_eq, fun j g q hj hg => ?_, fun j g q hj hg => ?_⟩
  · rcases (holds_occupy hlt).mp hj with ⟨rfl, -, -⟩ | ⟨hne, hold⟩
    · have hself : (mgr.occupy j table file p page).bufDescTable j = .Set file p := Function.update_self ..
      rw [hself]
      rfl
    · have hother : (mgr.occupy i table file p page).bufDescTable j = mgr.bufDescTable j := Function.update_of_ne hne ..
      rw [hother]
      exact h.clean j g q hold hg
  · rcases (holds_occupy hlt).mp hj with ⟨-, rfl, -⟩ | ⟨-, hold⟩
    · rfl
    · exact h.own j g q hold hg

/-- `readPage` of a page in use. -/
theorem readPage (hlists : disk.Lists used free) (hp : p ∈ used)
    {r : EStateM.Result (BufError F) (BufMgr F Page (N → PageFile)) FrameId}
    (hspec : ReadPage (pageFiles filename) hash file p mgr r) : Sole filename file disk (stateAfter r) := by
  cases hspec with
  | @hit i holds =>
    exact h.redescribed holds ⟨holds.2.valid, holds.2.file, holds.2.pageNo⟩ (h.clean i file p holds rfl)
  | exceeded absent t full => exact h.aside (.touched t)
  | failed absent freed run =>
    have hm := h.aside (.freed h.clean freed)
    obtain ⟨file', hthrows, -⟩ := P2.onFile_error run
    rw [hm.file_eq, hlists.readPage_used hp] at hthrows
    cases hthrows
  | @loaded i m page files table absent freed run loads =>
    have hm := h.aside (.freed h.clean freed)
    obtain ⟨file', hreads, rfl⟩ := P2.onFile_ok run
    rw [hm.file_eq, hlists.readPage_used hp] at hreads
    obtain ⟨-, rfl⟩ := EStateM.Result.ok.inj hreads
    have hsame : m.withFiles (Function.update m.files (filename file) disk) = m := by
      rw [← hm.file_eq, Function.update_eq_self]
      rfl
    rw [hsame]
    exact hm.occupied freed.lt table page

omit [DecidableEq F] [DecidableEq N] in
/-- `unPinPage` without the dirty mark. -/
theorem unPinPage {r : EStateM.Result (BufError F) (BufMgr F Page (N → PageFile)) Unit}
    (hspec : UnPinPage file p false mgr r) : Sole filename file disk (stateAfter r) := by
  cases hspec with
  | absent => exact h
  | @notPinned i holds zero =>
    exact h.redescribed holds ⟨holds.2.valid, holds.2.file, holds.2.pageNo⟩ (h.clean i file p holds rfl)
  | @unpinned i holds pins =>
    exact h.redescribed holds ⟨holds.2.valid, holds.2.file, holds.2.pageNo⟩ (h.clean i file p holds rfl)

end Steps

end Sole

section Hosted

variable {bufs : Nat} {page : Page} {files : N → PageFile} {heap₀ heap : Heap N} {edits : Edits N Page}

/-- The manager of a session of other clients. -/
structure Hosted (hash : F → PageId → Nat) (filename : F → N) (file : F) (disk : PageFile) (bufs : Nat) (page : Page)
    (files : N → PageFile) (heap₀ : Heap N) (edits : Edits N Page) (heap : Heap N)
    (mgr : BufMgr F Page (N → PageFile)) : Prop extends Sole filename file disk mgr where
  run : RecordRun hash filename bufs page files heap₀ mgr edits heap
  stocked : Stocked hash filename mgr

/-- One call of the session. -/
private theorem Hosted.call (h : Hosted hash filename file disk bufs page files heap₀ edits heap mgr) (call : RecordCall F)
    (hproper : call.Proper filename mgr edits heap) (horderly : (call.toCall mgr).Orderly filename mgr)
    {edits' : Edits N Page}
    (hrun : (call.toCall mgr).run (pageFiles filename) hash filename Page.bare mgr edits = (m, edits'))
    (hsole : Sole filename file disk m) :
    Hosted hash filename file disk bufs page files heap₀ edits' (call.heap hash filename mgr heap) m := by
  have hafter := h.run.call call hproper
  have hstocked : Stocked hash filename ((call.toCall mgr).run (pageFiles filename) hash filename Page.bare mgr edits).1 :=
    h.stocked.call _ horderly
  rw [hrun] at hafter hstocked
  exact ⟨hsole, hafter, hstocked⟩

/-- The calls of a scan are calls of a client that changes nothing. -/
theorem hosts (hlists : disk.Lists used free) (hsaved : ∀ p, edits.unsaved (filename file, p) = false) :
    Hosts hash filename file disk used (Hosted hash filename file disk bufs page files heap₀ edits heap) where
  file_eq h := h.file_eq
  readPage {m p} h hp := by
    have hproper : (RecordCall.readPage file p).Proper filename m edits heap :=
      ⟨Nat.ne_of_gt (hlists.used_pos hp), trivial, fun i g hi hg => h.own i g p hi hg⟩
    refine h.call (.readPage file p) hproper hproper.orderly ?_
      (h.readPage hlists hp (readPage_spec h.stocked.agree h.stocked.backed.writable file p))
    rw [RecordCall.toCall, Call.run]
    cases P3.readPage (pageFiles filename) hash file p m <;> rfl
  unPinPage {m p} h := by
    have hproper : (RecordCall.unPinPage file p false).Proper filename m edits heap :=
      ⟨trivial, fun _ hunsaved => absurd ((hsaved p).symm.trans hunsaved) Bool.false_ne_true, trivial⟩
    refine h.call (.unPinPage file p false) hproper hproper.orderly ?_
      (h.unPinPage (unPinPage_spec h.stocked.agree file p false))
    rw [RecordCall.toCall, Call.run]
    cases P3.unPinPage hash file p false m <;> rfl
  flushFile {m} h := by
    have hproper : (RecordCall.flushFile file).Proper filename m edits heap := ⟨trivial, trivial, trivial⟩
    refine h.call (.flushFile file) hproper hproper.orderly ?_
      (h.aside (.flushFile h.stocked.agree h.stocked.backed h.clean file))
    rw [RecordCall.toCall, Call.run]
    cases P3.flushFile (pageFiles filename) hash file m <;> rfl

end Hosted

/-! ### The records -/

section Records

variable {bufs : Nat} {page : Page} {files : N → PageFile} {heap₀ heap heap' : Heap N} {edits edits' : Edits N Page}
  {mgr : BufMgr F Page (N → PageFile)}

/-- The pages of the file on disk have the records of the map. -/
def OnDisk (disk : PageFile) (used : List PageId) (n : N) (heap : Heap N) : Prop :=
  (∀ p ∈ used, ∃ live, heap (n, p) = some live ∧ (disk.pageAt p).Holds p live) ∧ ∀ p, p ∉ used → heap (n, p) = none

omit [DecidableEq F] [DecidableEq N] in
theorem OnDisk.readable {n : N} (h : OnDisk disk used n heap) : ∀ p ∈ used, (disk.pageAt p).Readable := by
  intro p hp
  obtain ⟨live, -, hpage⟩ := h.1 p hp
  exact hpage.valid.readable

omit [DecidableEq F] [DecidableEq N] in
/-- The records that a scan returns are those of the map. -/
theorem OnDisk.mem_recordsOf {n : N} (h : OnDisk disk used n heap) {record_id : RecordId} {record : List UInt8} :
    (record_id, record) ∈ recordsOf disk used ↔ record_id.padding = 0 ∧
      ∃ live, heap (n, record_id.page_number) = some live ∧ live record_id.slot_number = some record := by
  rw [recordsOf, List.mem_flatMap]
  constructor
  · rintro ⟨p, hp, hrecord⟩
    obtain ⟨live, hheap, hpage⟩ := h.1 p hp
    obtain ⟨hnumber, hpadding, hstored, hget⟩ := hpage.valid.readable.mem_recordsAfter.mp hrecord
    rw [hpage.valid.getRecord_eq hnumber hstored] at hget
    rw [hpage.number_eq] at hnumber
    refine ⟨hpadding, live, hnumber ▸ hheap, ?_⟩
    rw [← hpage.contents_eq]
    exact Page.contents_eq_some.mpr ⟨hstored, Except.ok.inj hget⟩
  · rintro ⟨hpadding, live, hheap, hlive⟩
    have hp : record_id.page_number ∈ used := by
      by_contra hnot
      rw [h.2 _ hnot] at hheap
      cases hheap
    obtain ⟨live', hheap', hpage⟩ := h.1 _ hp
    obtain rfl := Option.some.inj (hheap.symm.trans hheap')
    rw [← hpage.contents_eq] at hlive
    obtain ⟨hstored, hbytes⟩ := Page.contents_eq_some.mp hlive
    refine ⟨record_id.page_number, hp, hpage.valid.readable.mem_recordsAfter.mpr ⟨hpage.number_eq.symm, hpadding, hstored, ?_⟩⟩
    rw [hpage.valid.getRecord_eq hpage.number_eq.symm hstored, hbytes]

omit [DecidableEq F] [DecidableEq N] in
/-- The pages without their numbers decide. -/
private theorem onDisk_of_bare {n : N} {left : List PageId} (hlists : disk.Lists used free) (hsound : disk.Sound left)
    (hpages : ∀ p, Option.Rel (fun page live => page.Holds INVALID_NUMBER live)
      ((contentsOn disk.pages p).map Page.bare) (heap (n, p))) : OnDisk disk used n heap := by
  refine ⟨fun p hp => ?_, fun p hp => ?_⟩
  · obtain ⟨page, hpage, hnumber⟩ := hlists.used_page p hp
    have hmarked : page.page_number ≠ INVALID_NUMBER := hnumber ▸ Nat.ne_of_gt (hlists.used_pos hp)
    have hrel := hpages p
    rw [contentsOn_used hpage hmarked, Option.map_some, Page.bare_unlinked] at hrel
    have hat : disk.pageAt p = page := by
      rw [pageAt, hpage]
      rfl
    cases hheap : heap (n, p) with
    | none =>
      rw [hheap] at hrel
      cases hrel
    | some live =>
      rw [hheap] at hrel
      cases hrel with
      | some hholds =>
        rw [hat]
        exact ⟨live, rfl, Page.holds_iff_bare.mpr ⟨hnumber, hholds⟩⟩
  · have hnone : contentsOn disk.pages p = none := by
      by_contra hne
      exact hp ((hlists.mem_used_iff hsound).mpr hne)
    have hrel := hpages p
    rw [hnone] at hrel
    cases hheap : heap (n, p) with
    | none => rfl
    | some live =>
      rw [hheap] at hrel
      cases hrel

/-- What a session leaves of a file that is not in the pool. -/
private theorem RecordRun.onDisk (hstores : Stores files heap₀)
    (hrun : RecordRun hash filename bufs page files heap₀ mgr edits heap) (hpos : 0 < mgr.numBufs)
    (hnew : ∀ i f p, mgr.Holds i f p → filename f ≠ filename file) :
    Hosted hash filename file (mgr.files (filename file)) bufs page files heap₀ edits heap mgr ∧
      (∀ p, edits.unsaved (filename file, p) = false) ∧
      ∃ used free, (mgr.files (filename file)).Lists used free ∧
        OnDisk (mgr.files (filename file)) used (filename file) heap := by
  obtain ⟨hproper, hmatch⟩ := hrun.run hstores
  rcases hproper.stocked hstores.neat with ⟨h, hk⟩ | ⟨hzero, -⟩
  · refine ⟨⟨⟨rfl, fun i g p hi hg => absurd hg (hnew i g p hi), fun i g p hi hg => absurd hg (hnew i g p hi)⟩, hrun, h⟩,
      fun p => ?_, ?_⟩
    · by_contra hunsaved
      obtain ⟨i, g, hi, hg⟩ := hproper.unsaved_held hstores.neat (filename file) p (eq_true_of_ne_false hunsaved)
      exact hnew i g p hi hg
    · obtain ⟨used, free, hlists⟩ := (h.neat (filename file)).lists
      obtain ⟨left, hsound⟩ := (h.neat (filename file)).sound
      refine ⟨used, free, hlists, onDisk_of_bare hlists hsound fun p => ?_⟩
      have hrel := hmatch (filename file, p)
      rwa [← (hk (filename file) p).stored fun i f hi => hnew i f p hi, neatPages_eq (h.neat _)] at hrel
  · exact absurd hpos (hzero ▸ Nat.lt_irrefl 0)

end Records

/-! ### Sessions -/

/-- The states that a scan and other clients lead to, in any order, from the manager `mgr` of a session: the scan is
opened, its calls return `n` records, and the calls of the others are on other files. -/
inductive ScanSession (hash : F → PageId → Nat) (filename : F → N) (file : F) (mgr : BufMgr F Page (N → PageFile))
    (edits : Edits N Page) (heap : Heap N) : Nat → ScanState F N → Edits N Page → Heap N → Prop where
  | opens {s : ScanState F N} (run : openScan filename file mgr = .ok () s) :
      ScanSession hash filename file mgr edits heap 0 s edits heap
  | returns {n : Nat} {s s' : ScanState F N} {edits' : Edits N Page} {heap' : Heap N} {record_id : RecordId}
      (before : ScanSession hash filename file mgr edits heap n s edits' heap')
      (run : scanNext filename hash s = .ok record_id s') :
      ScanSession hash filename file mgr edits heap (n + 1) s' edits' heap'
  | throws {n : Nat} {s s' : ScanState F N} {edits' : Edits N Page} {heap' : Heap N} {e : ScanError F}
      (before : ScanSession hash filename file mgr edits heap n s edits' heap')
      (run : scanNext filename hash s = .error e s') : ScanSession hash filename file mgr edits heap n s' edits' heap'
  | call {n : Nat} {s : ScanState F N} {edits' : Edits N Page} {heap' : Heap N}
      (before : ScanSession hash filename file mgr edits heap n s edits' heap') (call : RecordCall F)
      (proper : call.Proper filename s.bufMgr edits' heap')
      (other : filename (call.toCall s.bufMgr).file ≠ filename file) :
      ScanSession hash filename file mgr edits heap n
        { s with bufMgr := ((call.toCall s.bufMgr).run (pageFiles filename) hash filename Page.bare s.bufMgr edits').1 }
        ((call.toCall s.bufMgr).run (pageFiles filename) hash filename Page.bare s.bufMgr edits').2
        (call.heap hash filename s.bufMgr heap')

/-- `scanNext` returns the id of the next record, which `getRecord` gives then, or throws if there is none; when the scan
begins it throws if every frame is pinned. -/
def Answers (filename : F → N) (hash : F → PageId → Nat) (s : ScanState F N) (next : Option (RecordId × List UInt8)) :
    Prop :=
  (∃ record_id record s', next = some (record_id, record) ∧ scanNext filename hash s = .ok record_id s' ∧
      getRecord s' = .ok record s') ∨
    (∃ s', next = none ∧ scanNext filename hash s = .error .endOfFile s') ∨
    ∃ s', s.scan.curPage = none ∧ (∀ i < s.bufMgr.numBufs, ¬ Takeable s.bufMgr i) ∧
      scanNext filename hash s = .error (.buf .bufferExceeded) s'

theorem Next.answers {s : ScanState F N} {rest : List (RecordId × List UInt8)}
    (h : Next hash filename file disk used s rest (scanNext filename hash s)) : Answers filename hash s rest.head? := by
  generalize hrun : scanNext filename hash s = r at h
  cases h with
  | record get => exact .inl ⟨_, _, _, rfl, hrun, get⟩
  | ended => exact .inr (.inl ⟨_, rfl, hrun⟩)
  | full begins full => exact .inr (.inr ⟨_, begins, full, hrun⟩)

/-- What a call on another file leaves of the map. -/
theorem RecordCall.heap_other {heap : Heap N} {call : RecordCall F} {n : N}
    (hother : filename (call.toCall mgr).file ≠ n) (p : PageId) :
    call.heap hash filename mgr heap (n, p) = heap (n, p) := by
  have hne : ∀ {f : F} {q : PageId}, filename f ≠ n → (n, p) ≠ (filename f, q) :=
    fun hf heq => hf (Prod.mk.inj heq).1.symm
  cases call with
  | readPage f q => rfl
  | allocPage f =>
    rw [RecordCall.heap]
    cases P3.allocPage (pageFiles filename) hash f mgr with
    | ok new m => exact Function.update_of_ne (hne hother) ..
    | error e m => rfl
  | unPinPage f q dirty => rfl
  | flushFile f => rfl
  | disposePage f q =>
    rw [RecordCall.heap]
    cases P3.disposePage (pageFiles filename) hash f q mgr with
    | ok _ m => exact Function.update_of_ne (hne hother) ..
    | error e m => rfl
  | onPage f q fid call => exact Function.update_of_ne (hne hother) ..

omit [DecidableEq F] in
/-- The scan that is opened. -/
theorem openScan_eq (hlists : (mgr.files (filename file)).Lists used free) : openScan filename file mgr = .ok ()
    { bufMgr := mgr
      scan := { file := file, curPage := none, filePageIter := (mgr.files (filename file)).header.first_used_page,
                pageRecordIter := .empty, curDirtyFlag := false }
      moments := [mgr] } := by
  rw [openScan, run_bind_ok (fileBegin_eq rfl hlists)]
  rfl

section Sessions

variable {bufs : Nat} {page : Page} {files : N → PageFile} {heap₀ heap heap' : Heap N} {edits edits' : Edits N Page}
  {s : ScanState F N} {n : Nat}

/-- What holds in every state of a session with a scan: where the scan stands, and that the manager is one of a session
without it. -/
structure Together (hash : F → PageId → Nat) (filename : F → N) (file : F) (disk : PageFile) (used : List PageId)
    (bufs : Nat) (page : Page) (files : N → PageFile) (heap₀ heap : Heap N) (n : Nat) (s : ScanState F N)
    (edits' : Edits N Page) (heap' : Heap N) : Prop where
  stands : Stands hash filename file disk used ((recordsOf disk used).drop n) s
  steady : Steady file used (Hosted hash filename file disk bufs page files heap₀ edits' heap') s
  saved : ∀ p, edits'.unsaved (filename file, p) = false
  same : ∀ p, heap' (filename file, p) = heap (filename file, p)

/-- A call of `scanNext`. -/
private theorem Together.scanNext (hlists : disk.Lists used free) (hreadable : ∀ p ∈ used, (disk.pageAt p).Readable)
    (h : Together hash filename file disk used bufs page files heap₀ heap n s edits' heap') :
    (∀ record_id s', P3.scanNext filename hash s = .ok record_id s' →
      Together hash filename file disk used bufs page files heap₀ heap (n + 1) s' edits' heap') ∧
    ∀ e s', P3.scanNext filename hash s = .error e s' →
      Together hash filename file disk used bufs page files heap₀ heap n s' edits' heap' := by
  have hhosts : Hosts hash filename file disk used (Hosted hash filename file disk bufs page files heap₀ edits' heap') :=
    hosts hlists h.saved
  have hkeeps := scanNext_keeps hhosts hlists s h.steady
  have hnext := h.stands.scanNext hlists hreadable
  constructor
  · intro record_id s' hrun
    rw [hrun] at hkeeps hnext
    refine ⟨?_, hkeeps, h.saved, h.same⟩
    generalize hrest : (recordsOf disk used).drop n = rest at hnext
    cases hnext with
    | record get stands =>
      rw [← List.tail_drop, hrest]
      exact stands
  · intro e s' hrun
    rw [hrun] at hkeeps hnext
    refine ⟨?_, hkeeps, h.saved, h.same⟩
    generalize (recordsOf disk used).drop n = rest at hnext
    cases hnext with
    | ended stands => exact stands
    | full begins full stands => exact stands

/-- `~FileScan`. -/
theorem Together.closeScan (hlists : disk.Lists used free)
    (h : Together hash filename file disk used bufs page files heap₀ heap n s edits' heap') :
    ∃ s', P3.closeScan filename hash s = .ok () s' ∧ (∀ i p, ¬ s'.bufMgr.Holds i file p) ∧
      Hosted hash filename file disk bufs page files heap₀ edits' heap' s'.bufMgr := by
  obtain ⟨s', hreturns, hnone⟩ := h.stands.closeScan hlists
  have hhosts : Hosts hash filename file disk used (Hosted hash filename file disk bufs page files heap₀ edits' heap') :=
    hosts hlists h.saved
  exact ⟨s', hreturns, hnone, (closeScan_keeps hhosts hlists).ok_run h.steady hreturns⟩

/-- A call on another file. -/
private theorem Together.call (hstores : Stores files heap₀)
    (h : Together hash filename file disk used bufs page files heap₀ heap n s edits' heap')
    (call : RecordCall F) (hproper : call.Proper filename s.bufMgr edits' heap')
    (hother : filename (call.toCall s.bufMgr).file ≠ filename file) :
    Together hash filename file disk used bufs page files heap₀ heap n
      { s with bufMgr := ((call.toCall s.bufMgr).run (pageFiles filename) hash filename Page.bare s.bufMgr edits').1 }
      ((call.toCall s.bufMgr).run (pageFiles filename) hash filename Page.bare s.bufMgr edits').2
      (call.heap hash filename s.bufMgr heap') := by
  have hm := h.steady.mgr
  obtain ⟨hrun, hmatch⟩ := hm.run.run hstores
  rcases hrun.stocked hstores.neat with ⟨hstocked, hk⟩ | ⟨hzero, -⟩
  · have horderly := (hstocked.toCall_proper hk hmatch hproper).orderly
    have ha : Aside filename (filename file) s.bufMgr
        ((call.toCall s.bufMgr).run (pageFiles filename) hash filename Page.bare s.bufMgr edits').1 :=
      .call hstocked.agree hstocked.backed hm.clean _ horderly hother
    have hm' : Hosted hash filename file disk bufs page files heap₀
        ((call.toCall s.bufMgr).run (pageFiles filename) hash filename Page.bare s.bufMgr edits').2
        (call.heap hash filename s.bufMgr heap')
        ((call.toCall s.bufMgr).run (pageFiles filename) hash filename Page.bare s.bufMgr edits').1 :=
      hm.call call hproper horderly rfl (hm.aside ha)
    refine ⟨h.stands.elsewhere ha hm'.stocked.agree hm'.stocked.backed, ?_, fun p => ?_, fun p => ?_⟩
    · exact ⟨⟨h.steady.object, h.steady.notDirty, h.steady.pageIter, hm'⟩, h.steady.onPage⟩
    · exact (Call.unsaved_other hother p).trans (h.saved p)
    · exact (RecordCall.heap_other hother p).trans (h.same p)
  · exact absurd hm.stocked.agree.pos (hzero ▸ Nat.lt_irrefl 0)

/-- A new object on the file can scan it. -/
theorem Hosted.scanned (hosted : Hosted hash filename file disk bufs page files heap₀ edits heap mgr)
    (hnew : ∀ i p, ¬ mgr.Holds i file p) : Scanned hash filename file disk none mgr :=
  ⟨hosted.stocked.agree, hosted.stocked.backed, hosted.file_eq, hosted.clean, fun i p hi => absurd hi (hnew i p),
    fun i p hi => absurd hi (hnew i p)⟩

/-- In every state of a session with a scan. -/
private theorem ScanSession.together (hstores : Stores files heap₀)
    (hosted : Hosted hash filename file disk bufs page files heap₀ edits heap mgr)
    (hnew : ∀ i p, ¬ mgr.Holds i file p) (hsaved : ∀ p, edits.unsaved (filename file, p) = false)
    (hlists : disk.Lists used free) (hreadable : ∀ p ∈ used, (disk.pageAt p).Readable)
    (h : ScanSession hash filename file mgr edits heap n s edits' heap') :
    Together hash filename file disk used bufs page files heap₀ heap n s edits' heap' := by
  induction h with
  | opens hopen =>
    have hfile := hosted.file_eq
    rw [openScan_eq (hfile.symm ▸ hlists)] at hopen
    obtain ⟨-, rfl⟩ := EStateM.Result.ok.inj hopen
    have hscanned := hosted.scanned hnew
    refine ⟨.start ⟨⟨rfl, hscanned, fun m hm => ?_⟩, rfl, rfl⟩ (congrArg (·.header.first_used_page) hfile),
      ⟨⟨rfl, rfl, ?_, hosted⟩, fun hne => absurd rfl hne⟩, hsaved, fun _ => rfl⟩
    · rw [List.mem_singleton.mp hm]
      exact hscanned.onePin
    · exact hfile.symm ▸ first_used hlists
  | returns before hrun ih => exact (ih.scanNext hlists hreadable).1 _ _ hrun
  | throws before hrun ih => exact (ih.scanNext hlists hreadable).2 _ _ hrun
  | call before call proper other ih => exact ih.call hstores call proper other

variable (hstores : Stores files heap₀) (hrun : RecordRun hash filename bufs page files heap₀ mgr edits heap)
  (hpos : 0 < mgr.numBufs) (hnew : ∀ i f p, mgr.Holds i f p → filename f ≠ filename file)
include hstores hrun hpos hnew

/-- In every session, a scan of a file that is not in the pool. -/
theorem RecordRun.scans : ∃ used free, (mgr.files (filename file)).Lists used free ∧
    OnDisk (mgr.files (filename file)) used (filename file) heap ∧
    Scanned hash filename file (mgr.files (filename file)) none mgr ∧
    ∀ n s edits' heap', ScanSession hash filename file mgr edits heap n s edits' heap' →
      Together hash filename file (mgr.files (filename file)) used bufs page files heap₀ heap n s edits' heap' := by
  obtain ⟨hosted, hsaved, used, free, hlists, hdisk⟩ := hrun.onDisk hstores hpos hnew
  have hnone : ∀ i p, ¬ mgr.Holds i file p := fun i p hi => hnew i file p hi rfl
  refine ⟨used, free, hlists, hdisk, hosted.scanned hnone, fun n s edits' heap' hsession => ?_⟩
  exact hsession.together hstores hosted hnone hsaved hlists hdisk.readable

/-- In a session over files that store a map, a scan of a file that is not in the pool: the records that the map has for
the file are returned one after the other, each once, whatever the other clients do to other files between the calls. -/
theorem scanSession_answers : ∃ records : List (RecordId × List UInt8), (records.map Prod.fst).Nodup ∧
    (∀ record_id record, (record_id, record) ∈ records ↔ record_id.padding = 0 ∧
      ∃ live, heap (filename file, record_id.page_number) = some live ∧ live record_id.slot_number = some record) ∧
    (∃ s, openScan filename file mgr = .ok () s) ∧
    ∀ n s edits' heap', ScanSession hash filename file mgr edits heap n s edits' heap' →
      Answers filename hash s records[n]? := by
  obtain ⟨used, free, hlists, hdisk, -, htogether⟩ := hrun.scans hstores hpos hnew
  refine ⟨recordsOf (mgr.files (filename file)) used, recordsOf_nodup hlists hdisk.readable, fun _ _ => hdisk.mem_recordsOf,
    ⟨_, openScan_eq hlists⟩, fun n s edits' heap' hsession => ?_⟩
  have hanswers := ((htogether n s edits' heap' hsession).stands.scanNext hlists hdisk.readable).answers
  rw [List.head?_drop] at hanswers
  exact hanswers

/-- `~FileScan` returns at any time of such a session; the file and its records are as they were, the pool has no page of
the object, and the manager is in a session of the other clients. -/
theorem closeScan_session (hsession : ScanSession hash filename file mgr edits heap n s edits' heap') :
    ∃ s', closeScan filename hash s = .ok () s' ∧ (∀ i p, ¬ s'.bufMgr.Holds i file p) ∧
      s'.bufMgr.files (filename file) = mgr.files (filename file) ∧ (∀ p, heap' (filename file, p) = heap (filename file, p)) ∧
      RecordRun hash filename bufs page files heap₀ s'.bufMgr edits' heap' := by
  obtain ⟨used, free, hlists, -, -, htogether⟩ := hrun.scans hstores hpos hnew
  have h := htogether n s edits' heap' hsession
  obtain ⟨s', hreturns, hnone, hhosted⟩ := h.closeScan hlists
  exact ⟨s', hreturns, hnone, hhosted.file_eq, h.same, hhosted.run⟩

end Sessions

/-! ### A scan of one record -/

/-- A page is allocated, gets a record and is given back, and its file is flushed. -/
def flushedRecord : List (RecordCall Unit) := oneRecord ++ [.flushFile ()]

theorem fixedRun_flushedRecord : FixedRun 1 flushedRecord :=
  fixedRun_append fixedRun_oneRecord (.flushFile ()) ⟨trivial, trivial, trivial⟩

/-- No page is in the pool. -/
theorem flushedRecord_new : ∀ i (f : Unit) p, (runRecordCalls 1 flushedRecord).1.Holds i f p → id f ≠ id () := by
  intro i f p hi
  have hnum : (runRecordCalls 1 flushedRecord).1.numBufs = 1 := by decide +kernel
  have hinvalid : ((runRecordCalls 1 flushedRecord).1.bufDescTable 0).valid = false := by decide +kernel
  obtain rfl : i = 0 := Nat.lt_one_iff.mp (hnum ▸ hi.1)
  exact absurd (hinvalid.symm.trans hi.2.valid) Bool.false_ne_true

/-- The record is one that the scan returns. -/
theorem scanSession_answers_one : ∃ (records : List (RecordId × List UInt8)) (s : ScanState Unit Unit),
    ({ page_number := 1, slot_number := 1, padding := 0 }, [7, 0, 0, 0]) ∈ records ∧
      openScan id () (runRecordCalls 1 flushedRecord).1 = .ok () s ∧ Answers id (P3.hash fun _ => 0) s records[0]? := by
  obtain ⟨records, -, hmem, ⟨s, hopen⟩, hanswers⟩ :=
    scanSession_answers stores_create fixedRun_flushedRecord (by decide +kernel) flushedRecord_new
  have hheap : ((runRecordCalls 1 flushedRecord).2.2 ((), 1)).bind (fun live => live 1) = some [7, 0, 0, 0] := by decide +kernel
  exact ⟨records, s, (hmem _ _).mpr ⟨rfl, Option.bind_eq_some_iff.mp hheap⟩, hopen, hanswers 0 s _ _ (.opens hopen)⟩

/-- The scan is given up at the record. -/
theorem closeScan_session_one : ∃ (s s₁ s₂ : ScanState Unit Unit) (record_id : RecordId),
    openScan id () (runRecordCalls 1 flushedRecord).1 = .ok () s ∧
      scanNext id (P3.hash fun _ => 0) s = .ok record_id s₁ ∧ closeScan id (P3.hash fun _ => 0) s₁ = .ok () s₂ := by
  have hruns : returned (fun _ s => returned (fun _ _ => true) (scanNext id (P3.hash fun _ => 0) s))
      (openScan id () (runRecordCalls 1 flushedRecord).1) = true := by decide +kernel
  obtain ⟨⟨⟩, s, hopen, hnext⟩ := exists_ok hruns
  obtain ⟨record_id, s₁, hreturns, -⟩ := exists_ok hnext
  obtain ⟨s₂, hclose, -⟩ := closeScan_session stores_create fixedRun_flushedRecord (by decide +kernel) flushedRecord_new
    (.returns (.opens hopen) hreturns)
  exact ⟨s, s₁, s₂, record_id, hopen, hreturns, hclose⟩

end Cs564.P3
