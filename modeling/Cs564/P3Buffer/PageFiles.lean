import Cs564.P2Buffer.PageFiles
import Cs564.P3Buffer.SharedFiles
import Cs564.PageFile.InOrder

/-!
# Page files under the manager of `p3`

`disposePage` throws when the page is not in the pool, where that of `p2` deletes it from its file all the same, and it
leaves a copy that another object on the file has in the pool.  In every run of calls that keep the files in order
(`Call.Orderly`), it takes a page in use out of the pool and the file exactly if the pool has the page through this
object and through no other one on the file (`disposePage_iff`).
-/

namespace Cs564.P3

open P2 (BufError BufHashTbl BufDesc BufMgr BufM Loads onFile)
open P2.BufMgr PageFile

variable {F N C : Type} [DecidableEq F] [DecidableEq N]

/-- `PageFile` objects with their names; the state is that of the files by name. -/
def pageFiles (filename : F → N) : FileLayer F Page (N → PageFile) where
  readPage f p := onFile (filename f) (PageFile.readPage p)
  writePage f p page := onFile (filename f) (PageFile.writePage p page)
  allocatePage f := onFile (filename f) do
    let allocated ← PageFile.allocatePage
    return (allocated.2, allocated.1)
  deletePage f p := onFile (filename f) (PageFile.deletePage p)

/-- A call of a file. -/
theorem onFile_eq {α : Type} {code : FileM α} {files : N → PageFile} {n : N} {a : α} {file : PageFile}
    (hrun : code (files n) = .ok a file) : onFile n code files = .ok a (Function.update files n file) := by
  rw [onFile, hrun]

/-- The files are in order, and the pages in the pool are pages in use, under their numbers. -/
structure Backed (filename : F → N) (mgr : BufMgr F Page (N → PageFile)) : Prop where
  files : ∀ n, (mgr.files n).InOrder
  number : ∀ i f p, mgr.Holds i f p → (mgr.bufPool i).page_number = p
  live : ∀ i f p, mgr.Holds i f p → contentsOn (mgr.files (filename f)).pages p ≠ none

/-- Pages have been written: the files have the same headers and the same pages in use. -/
structure Rewritten (files files' : N → PageFile) : Prop where
  header : ∀ n, (files' n).header = (files n).header
  live : ∀ n p, contentsOn (files' n).pages p = none ↔ contentsOn (files n).pages p = none

omit [DecidableEq N] in
theorem Rewritten.refl (files : N → PageFile) : Rewritten files files := ⟨fun _ => rfl, fun _ _ => Iff.rfl⟩

variable {hash : F → PageId → Nat} {filename : F → N} {mgr mgr' m : BufMgr F Page (N → PageFile)} {f g : F} {p q : PageId}
  {i : FrameId}

/-! ### Frames that are given up -/

omit [DecidableEq F] in
theorem Backed.writable (h : Backed filename mgr) : Writable (pageFiles filename) mgr := by
  intro i f p hi
  obtain ⟨file, hrun, -⟩ := (h.files (filename f)).writePage (h.live i f p hi) (h.number i f p hi)
  exact ⟨_, onFile_eq hrun⟩

omit [DecidableEq F] [DecidableEq N] in
/-- The same files, and no page that was not there before. -/
theorem Backed.congr (h : Backed filename mgr) (hfiles : mgr'.files = mgr.files)
    (hframes : ∀ j g q, mgr'.Holds j g q → mgr.Holds j g q ∧ (mgr'.bufPool j).page_number = (mgr.bufPool j).page_number) :
    Backed filename mgr' where
  files n := by
    rw [hfiles]
    exact h.files n
  number j g q hj := by
    obtain ⟨hold, hnum⟩ := hframes j g q hj
    exact hnum.trans (h.number j g q hold)
  live j g q hj := by
    rw [hfiles]
    exact h.live j g q (hframes j g q hj).1

omit [DecidableEq F] in
/-- A page of the pool is written back. -/
theorem Backed.written (h : Backed filename mgr) (hi : mgr.Holds i f p) {files : N → PageFile}
    (hwritten : Written (pageFiles filename) mgr i f p files) : (∀ n, (files n).InOrder) ∧ Rewritten mgr.files files := by
  unfold Written at hwritten
  by_cases hdirty : (mgr.bufDescTable i).dirty = true
  · rw [if_pos hdirty] at hwritten
    have hlive := h.live i f p hi
    obtain ⟨file, hrun, horder, hheader, hcontents⟩ := (h.files (filename f)).writePage hlive (h.number i f p hi)
    have hwrite : (pageFiles filename).writePage f p (mgr.bufPool i) mgr.files = _ := onFile_eq hrun
    rw [hwritten] at hwrite
    obtain ⟨-, rfl⟩ := EStateM.Result.ok.inj hwrite
    refine ⟨(Function.forall_update_iff _ _).mpr ⟨horder, fun n _ => h.files n⟩, ?_, ?_⟩
    · exact (Function.forall_update_iff mgr.files fun n file => file.header = (mgr.files n).header).mpr
        ⟨hheader, fun _ _ => rfl⟩
    · refine (Function.forall_update_iff mgr.files fun n file =>
        ∀ q, contentsOn file.pages q = none ↔ contentsOn (mgr.files n).pages q = none).mpr
          ⟨fun q => ?_, fun _ _ _ => Iff.rfl⟩
      rw [hcontents]
      by_cases hq : q = p
      · subst hq
        rw [Function.update_self]
        exact iff_of_false (Option.some_ne_none _) hlive
      · rw [Function.update_of_ne hq]
  · rw [if_neg hdirty] at hwritten
    subst hwritten
    exact ⟨h.files, .refl _⟩

/-- A page leaves the pool. -/
theorem Backed.dropped (h : Backed filename mgr) (d : Dropped (pageFiles filename) hash mgr i f p m) :
    Backed filename m ∧ Rewritten mgr.files m.files := by
  cases d with
  | drop holds unpinned written removed =>
    obtain ⟨horder, hsame⟩ := h.written holds written
    refine ⟨⟨horder, fun j g q hj => h.number j g q (holds_vacate.mp hj).2, fun j g q hj => ?_⟩, hsame⟩
    exact fun hnone => h.live j g q (holds_vacate.mp hj).2 ((hsame.live _ _).mp hnone)

omit [DecidableEq F] [DecidableEq N] in
theorem Backed.touched (h : Backed filename mgr) (t : mgr.Touched m) : Backed filename m :=
  h.congr t.files fun _ _ _ hj => ⟨t.holds_iff.mp hj, by rw [t.bufPool]⟩

theorem Backed.freed (h : Backed filename mgr) (hfreed : Freed (pageFiles filename) hash mgr i m) :
    Backed filename m ∧ Rewritten mgr.files m.files := by
  cases hfreed with
  | @empty m t lt invalid =>
    refine ⟨(h.touched t).congr rfl fun j g q hj => ⟨(holds_vacate.mp hj).2, rfl⟩, ?_⟩
    change Rewritten mgr.files m.files
    rw [t.files]
    exact .refl _
  | evicted t dropped =>
    have hdropped := (h.touched t).dropped dropped
    rw [t.files] at hdropped
    exact hdropped

omit [DecidableEq F] in
/-- A page of a file that may have changed is put into a frame. -/
theorem Backed.occupied (h : Backed filename mgr) {table : BufHashTbl F} {page : Page} {file : PageFile}
    (hi : i < mgr.numBufs) (horder : file.InOrder) (hnum : page.page_number = p) (hlive : contentsOn file.pages p ≠ none)
    (hkeeps : ∀ q, contentsOn (mgr.files (filename f)).pages q ≠ none → contentsOn file.pages q ≠ none) :
    Backed filename ((mgr.withFiles (Function.update mgr.files (filename f) file)).occupy i table f p page) := by
  have hi' : i < (mgr.withFiles (Function.update mgr.files (filename f) file)).numBufs := hi
  refine ⟨(Function.forall_update_iff _ _).mpr ⟨horder, fun n _ => h.files n⟩, fun j g q hj => ?_, fun j g q hj => ?_⟩
  · rcases (holds_occupy hi').mp hj with ⟨rfl, rfl, rfl⟩ | ⟨hne, hold⟩
    · exact (congrArg Page.page_number (Function.update_self ..)).trans hnum
    · exact (congrArg Page.page_number (Function.update_of_ne hne ..)).trans (h.number j g q hold)
  · change contentsOn (Function.update mgr.files (filename f) file (filename g)).pages q ≠ none
    rcases (holds_occupy hi').mp hj with ⟨rfl, rfl, rfl⟩ | ⟨hne, hold⟩
    · rw [Function.update_self]
      exact hlive
    · by_cases hname : filename g = filename f
      · rw [hname, Function.update_self]
        exact hkeeps q (hname ▸ h.live j g q hold)
      · rw [Function.update_of_ne hname]
        exact h.live j g q hold

/-! ### Runs -/

/-- The call keeps the files in order: no page 0 is asked for, the lists of a file are right and its numbers last when a
page is allocated, a page is deleted while no other object on its file has it in the pool, and a change of a page in the
pool is not one of its number. -/
def Call.Orderly (filename : F → N) (mgr : BufMgr F Page (N → PageFile)) : Call F Page → Prop
  | readPage _ p => p ≠ INVALID_NUMBER
  | allocPage f => FileCall.allocatePage.Safe (mgr.files (filename f))
  | unPinPage _ _ _ => True
  | flushFile _ => True
  | disposePage f p => (∃ i, mgr.Holds i f p) → Alone filename mgr f p
  | edit f p fid page => mgr.Holds fid f p ∧ page.page_number = (mgr.bufPool fid).page_number

omit [DecidableEq F] [DecidableEq N] in
/-- The page that a frame holds gets another descriptor. -/
theorem Backed.redescribed (h : Backed filename mgr) (hi : mgr.Holds i f p) {desc : BufDesc F} (hdesc : desc.Is f p) :
    Backed filename (mgr.withDesc i desc) := by
  refine h.congr rfl fun j g q hj => ⟨?_, rfl⟩
  refine (holds_withDesc ?_ ?_ ?_).mp hj
  · exact hdesc.valid.trans hi.2.valid.symm
  · exact hdesc.file.trans hi.2.file.symm
  · exact hdesc.pageNo.trans hi.2.pageNo.symm

/-- A page that is deleted is in no other frame. -/
private theorem Backed.disposed (h : Backed filename mgr) (hagree : mgr.Agree hash) (hi : mgr.Holds i f p)
    (halone : Alone filename mgr f p) {table : BufHashTbl F} {file : PageFile} (horder : file.InOrder)
    (hcontents : contentsOn file.pages = Function.update (contentsOn (mgr.files (filename f)).pages) p none) :
    Backed filename ((mgr.vacate i table).withFiles (Function.update mgr.files (filename f) file)) := by
  have hframes : ∀ j g q, ((mgr.vacate i table).withFiles (Function.update mgr.files (filename f) file)).Holds j g q →
      j ≠ i ∧ mgr.Holds j g q := by
    intro j g q hj
    have hj' : (mgr.vacate i table).Holds j g q := hj
    exact holds_vacate.mp hj'
  refine ⟨(Function.forall_update_iff _ _).mpr ⟨horder, fun n _ => h.files n⟩, fun j g q hj => ?_, fun j g q hj => ?_⟩
  · exact h.number j g q (hframes j g q hj).2
  · obtain ⟨hne, hold⟩ := hframes j g q hj
    change contentsOn (Function.update mgr.files (filename f) file (filename g)).pages q ≠ none
    by_cases hname : filename g = filename f
    · have hqp : q ≠ p := by
        rintro rfl
        obtain rfl := halone j g hold hname
        exact hne (hagree.unique hold hi)
      rw [hname, Function.update_self, hcontents, Function.update_of_ne hqp]
      exact hname ▸ h.live j g q hold
    · rw [Function.update_of_ne hname]
      exact h.live j g q hold

/-! ### One call -/

section Calls

variable (hagree : mgr.Agree hash) (h : Backed filename mgr)
include hagree h

private theorem Backed.readPage (hp : p ≠ INVALID_NUMBER)
    {r : EStateM.Result (BufError F) (BufMgr F Page (N → PageFile)) FrameId}
    (hspec : ReadPage (pageFiles filename) hash f p mgr r) :
    (stateAfter r).Agree hash ∧ Backed filename (stateAfter r) := by
  cases hspec with
  | hit holds =>
    exact ⟨hagree.withDesc holds ⟨holds.2.valid, holds.2.file, holds.2.pageNo⟩,
      h.redescribed holds ⟨holds.2.valid, holds.2.file, holds.2.pageNo⟩⟩
  | exceeded absent t full => exact ⟨hagree.touched t, h.touched t⟩
  | @failed i m e files absent freed run =>
    obtain ⟨hm, -⟩ := h.freed freed
    have hfile : files = m.files := by
      obtain ⟨file, hthrows, rfl⟩ := P2.onFile_error run
      rcases (hm.files (filename f)).readPage hp with ⟨page, hreturns, -⟩ | ⟨-, hrefused⟩
      · rw [hreturns] at hthrows
        cases hthrows
      · rw [hrefused] at hthrows
        obtain ⟨-, rfl⟩ := EStateM.Result.error.inj hthrows
        exact Function.update_eq_self ..
    rw [hfile]
    exact ⟨freed.agree hagree, hm⟩
  | @loaded i m page files table absent freed run loads =>
    obtain ⟨hm, -⟩ := h.freed freed
    refine ⟨loads.agree (freed.agree hagree) _ _, ?_⟩
    obtain ⟨file, hreads, rfl⟩ := P2.onFile_ok run
    rcases (hm.files (filename f)).readPage hp with ⟨page', hreturns, hnum, hcontents⟩ | ⟨-, hrefused⟩
    · obtain ⟨rfl, rfl⟩ := EStateM.Result.ok.inj (hreturns.symm.trans hreads)
      refine hm.occupied freed.lt (hm.files _) hnum ?_ fun _ hq => hq
      exact hcontents ▸ Option.some_ne_none _
    · rw [hrefused] at hreads
      cases hreads

omit hagree in
/-- What the file does after `allocBuf`. -/
theorem Backed.allocates (hsafe : FileCall.allocatePage.Safe (mgr.files (filename f)))
    (freed : Freed (pageFiles filename) hash mgr i m) : ∃ page file,
      (pageFiles filename).allocatePage f m.files =
        .ok (page.page_number, page) (Function.update m.files (filename f) file) ∧ file.InOrder ∧
      contentsOn (m.files (filename f)).pages page.page_number = none ∧
      contentsOn file.pages =
        Function.update (contentsOn (m.files (filename f)).pages) page.page_number (some page.unlinked) := by
  obtain ⟨hm, hsame⟩ := h.freed freed
  have hsafe' : FileCall.allocatePage.Safe (m.files (filename f)) := by
    rw [FileCall.Safe, hsame.header]
    exact hsafe
  obtain ⟨page, file, hrun, horder, hunused, hcontents⟩ := (hm.files (filename f)).allocatePage hsafe'
  refine ⟨page, file, onFile_eq ?_, horder, hunused, hcontents⟩
  rw [run_bind_ok hrun]
  rfl

private theorem Backed.allocPage (hsafe : FileCall.allocatePage.Safe (mgr.files (filename f)))
    {r : EStateM.Result (BufError F) (BufMgr F Page (N → PageFile)) (PageId × FrameId)}
    (hspec : AllocPage (pageFiles filename) hash f mgr r) :
    (stateAfter r).Agree hash ∧ Backed filename (stateAfter r) := by
  cases hspec with
  | exceeded t full => exact ⟨hagree.touched t, h.touched t⟩
  | failed freed run =>
    obtain ⟨page, file, hreturns, -⟩ := h.allocates hsafe freed
    rw [hreturns] at run
    cases run
  | @present i j m _ new files freed run holds =>
    obtain ⟨page, file, hreturns, -, hunused, -⟩ := h.allocates hsafe freed
    obtain ⟨rfl, -⟩ := EStateM.Result.ok.inj (hreturns.symm.trans run)
    exact absurd hunused ((h.freed freed).1.live j f _ holds)
  | @allocated i m new files table freed run loads =>
    obtain ⟨page, file, hreturns, horder, -, hcontents⟩ := h.allocates hsafe freed
    obtain ⟨rfl, rfl⟩ := EStateM.Result.ok.inj (hreturns.symm.trans run)
    obtain ⟨hm, -⟩ := h.freed freed
    refine ⟨loads.agree (freed.agree hagree) _ _, hm.occupied freed.lt horder rfl ?_ fun q hq => ?_⟩
    · rw [hcontents, Function.update_self]
      exact Option.some_ne_none _
    · rw [hcontents]
      by_cases heq : q = page.page_number
      · rw [heq, Function.update_self]
        exact Option.some_ne_none _
      · rw [Function.update_of_ne heq]
        exact hq

omit [DecidableEq N] in
private theorem Backed.unPinPage {dirty : Bool} {r : EStateM.Result (BufError F) (BufMgr F Page (N → PageFile)) Unit}
    (hspec : UnPinPage f p dirty mgr r) : (stateAfter r).Agree hash ∧ Backed filename (stateAfter r) := by
  have hmarked : ∀ {i}, mgr.Holds i f p → ((mgr.bufDescTable i).unpinned dirty).Is f p :=
    fun holds => ⟨holds.2.valid, holds.2.file, holds.2.pageNo⟩
  cases hspec with
  | absent => exact ⟨hagree, h⟩
  | notPinned holds zero => exact ⟨hagree.withDesc holds (hmarked holds), h.redescribed holds (hmarked holds)⟩
  | unpinned holds pins => exact ⟨hagree.withDesc holds (hmarked holds), h.redescribed holds (hmarked holds)⟩

omit hagree [DecidableEq F] in
/-- What the file does when a frame holds the page. -/
theorem Backed.deletes (hi : mgr.Holds i f p) : ∃ file used free used',
    (pageFiles filename).deletePage f p mgr.files = .ok () (Function.update mgr.files (filename f) file) ∧ file.InOrder ∧
      contentsOn file.pages = Function.update (contentsOn (mgr.files (filename f)).pages) p none ∧
      (mgr.files (filename f)).Lists used free ∧ file.Lists used' (p :: free) ∧ ∀ n, n ∈ used' ↔ n ∈ used ∧ n ≠ p := by
  obtain ⟨file, used, free, used', hrun, hfile⟩ := (h.files (filename f)).deletePage (h.live i f p hi)
  exact ⟨file, used, free, used', onFile_eq hrun, hfile⟩

private theorem Backed.disposePage (halone : (∃ i, mgr.Holds i f p) → Alone filename mgr f p)
    {r : EStateM.Result (BufError F) (BufMgr F Page (N → PageFile)) Unit}
    (hspec : DisposePage (pageFiles filename) hash f p mgr r) :
    (stateAfter r).Agree hash ∧ Backed filename (stateAfter r) := by
  cases hspec with
  | absent => exact ⟨hagree, h⟩
  | failed holds removed run =>
    obtain ⟨file, _, _, _, hreturns, -⟩ := h.deletes holds
    rw [hreturns] at run
    cases run
  | @disposed i table files holds removed run =>
    obtain ⟨file, _, _, _, hreturns, horder, hcontents, -⟩ := h.deletes holds
    obtain ⟨-, rfl⟩ := EStateM.Result.ok.inj (hreturns.symm.trans run)
    obtain ⟨table', hremove, hagree'⟩ := hagree.vacate holds
    obtain rfl := Except.ok.inj (removed.symm.trans hremove)
    exact ⟨hagree'.withFiles _, h.disposed hagree holds (halone ⟨i, holds⟩) horder hcontents⟩

variable {body : Page → C} {edits : Edits N C}

theorem Backed.call (call : Call F Page) (horderly : call.Orderly filename mgr) :
    (call.run (pageFiles filename) hash filename body mgr edits).1.Agree hash ∧
      Backed filename (call.run (pageFiles filename) hash filename body mgr edits).1 := by
  cases call with
  | readPage f p =>
    have hkept := h.readPage hagree horderly (readPage_spec hagree h.writable f p)
    rw [Call.run]
    cases hrun : P3.readPage (pageFiles filename) hash f p mgr <;> rw [hrun] at hkept <;> exact hkept
  | allocPage f =>
    have hkept := h.allocPage hagree horderly (allocPage_spec hagree h.writable f)
    rw [Call.run]
    cases hrun : P3.allocPage (pageFiles filename) hash f mgr <;> rw [hrun] at hkept <;> exact hkept
  | unPinPage f p dirty =>
    have hkept := h.unPinPage hagree (unPinPage_spec hagree f p dirty)
    rw [Call.run]
    cases hrun : P3.unPinPage hash f p dirty mgr <;> rw [hrun] at hkept <;> exact hkept
  | flushFile f =>
    obtain ⟨m, -, hagree', h', ⟨i, p, -, -, hrun⟩ | ⟨hrun, -⟩⟩ :=
      flushFile_cases (W := Backed filename) (fun hm => hm.writable)
        (fun hm _ hdrop => hdrop.elim fun _ hdrop => hdrop.elim fun _ hdrop => (hm.dropped hdrop).1) hagree h f
    · rw [Call.run, hrun]
      exact ⟨hagree', h'⟩
    · rw [Call.run, hrun]
      exact ⟨hagree', h'⟩
  | disposePage f p =>
    have hkept := h.disposePage hagree horderly (disposePage_spec hagree f p)
    rw [Call.run]
    cases hrun : P3.disposePage (pageFiles filename) hash f p mgr <;> rw [hrun] at hkept <;> exact hkept
  | edit f p fid page =>
    obtain ⟨holds, hnum⟩ := horderly
    refine ⟨hagree.withPool _, h.congr rfl fun j g q hj => ⟨hj, ?_⟩⟩
    by_cases hji : j = fid
    · subst hji
      exact (congrArg Page.page_number (Function.update_self ..)).trans hnum
    · exact congrArg Page.page_number (Function.update_of_ne hji ..)

end Calls

variable {body : Page → C} {edits : Edits N C}

/-- What holds in every state of a run: of a pool with frames, and of a pool without. -/
theorem Run.backed {bufs : Nat} {page : Page} {files : N → PageFile} {contents : N × PageId → Option C}
    (hfiles : ∀ n, (files n).InOrder)
    (hrun : Run (pageFiles filename) hash filename body bufs page files contents
      (fun mgr _ call => call.Orderly filename mgr) mgr edits) :
    (mgr.Agree hash ∧ Backed filename mgr) ∨
      mgr.numBufs = 0 ∧ ∀ f p, mgr.hashTable.entry hash f p = none := by
  induction hrun with
  | start =>
    by_cases hbufs : bufs = 0
    · exact .inr ⟨hbufs, fun f p => BufHashTbl.entry_new _⟩
    · refine .inl ⟨agree_newBufMgr (Nat.pos_of_ne_zero hbufs) page files, hfiles, fun i f p hi => ?_, fun i f p hi => ?_⟩
      · exact absurd hi not_holds_newBufMgr
      · exact absurd hi not_holds_newBufMgr
  | @call mgr edits call before meets ih =>
    rcases ih with ⟨hagree, h⟩ | ⟨hzero, hnone⟩
    · exact .inl (h.call hagree call meets)
    · have hedit : ∀ f p fid page, call = .edit f p fid page → mgr.Holds fid f p := by
        rintro f p fid page rfl
        exact meets.1
      rw [empty_call hzero hnone call hedit]
      exact .inr ⟨hzero, hnone⟩

/-! ### `disposePage` -/

/-- Page `p` of the file of `f` has gone to the free list, no frame and no entry of the hash table refers to it, and all
other pages, frames and entries are as before. -/
structure Disposed (hash : F → PageId → Nat) (filename : F → N) (f : F) (p : PageId)
    (mgr mgr' : BufMgr F Page (N → PageFile)) : Prop where
  freed : ∃ used free used', (mgr.files (filename f)).Lists used free ∧
    (mgr'.files (filename f)).Lists used' (p :: free) ∧ ∀ q, q ∈ used' ↔ q ∈ used ∧ q ≠ p
  noFrame : ∀ i g, mgr'.Holds i g p → filename g ≠ filename f
  noEntry : ∀ g, filename g = filename f → mgr'.hashTable.entry hash g p = none
  pages : ∀ q, q ≠ p → contentsOn (mgr'.files (filename f)).pages q = contentsOn (mgr.files (filename f)).pages q
  files : ∀ n, n ≠ filename f → mgr'.files n = mgr.files n
  frames : ∀ i, ¬ mgr.Holds i f p → mgr'.bufDescTable i = mgr.bufDescTable i ∧ mgr'.bufPool i = mgr.bufPool i
  entries : ∀ g q, ¬ (filename g = filename f ∧ q = p) → mgr'.hashTable.entry hash g q = mgr.hashTable.entry hash g q
  clock : mgr'.clockHand = mgr.clockHand ∧ mgr'.numBufs = mgr.numBufs

/-- What `disposePage` does with a page that the pool has through this object only. -/
private theorem Backed.disposes (hagree : mgr.Agree hash) (h : Backed filename mgr) (hi : mgr.Holds i f p)
    (halone : Alone filename mgr f p) :
    ∃ mgr', P3.disposePage (pageFiles filename) hash f p mgr = .ok () mgr' ∧ Disposed hash filename f p mgr mgr' := by
  obtain ⟨file, used, free, used', hdelete, -, hcontents, hlists, hlists', hmem⟩ := h.deletes hi
  have hspec := disposePage_spec (L := pageFiles filename) hagree f p
  cases hrun : P3.disposePage (pageFiles filename) hash f p mgr with
  | error e mgr' =>
    rw [hrun] at hspec
    cases hspec with
    | absent absent => exact absurd hi (absent i)
    | failed holds removed run =>
      rw [hdelete] at run
      cases run
  | ok _ mgr' =>
    rw [hrun] at hspec
    cases hspec with
    | @disposed j table files holds removed run =>
      obtain rfl := hagree.unique hi holds
      obtain ⟨-, rfl⟩ := EStateM.Result.ok.inj (hdelete.symm.trans run)
      obtain ⟨table', hremove, -, hentry⟩ := BufHashTbl.remove_ok hagree.distinct ((hagree.entry_iff f p i).mpr hi)
      obtain rfl := Except.ok.inj (removed.symm.trans hremove)
      -- No other object on the file had an entry for the page.
      have hothers : ∀ g, filename g = filename f → g ≠ f → mgr.hashTable.entry hash g p = none := by
        intro g hname hne
        exact hagree.entry_none_iff.mpr fun j hj => hne (halone j g hj hname)
      refine ⟨_, rfl, ⟨used, free, used', hlists, ?_, hmem⟩, fun j g hj hname => ?_, fun g hname => ?_, fun q hq => ?_,
        fun n hn => Function.update_of_ne hn .., fun j hj => ⟨Function.update_of_ne ?_ .., rfl⟩, fun g q hkey => ?_,
          rfl, rfl⟩
      · change (Function.update mgr.files (filename f) file (filename f)).Lists used' (p :: free)
        rw [Function.update_self]
        exact hlists'
      · have hj' : (mgr.vacate i table).Holds j g p := hj
        obtain ⟨hne, hold⟩ := holds_vacate.mp hj'
        obtain rfl := halone j g hold hname
        exact hne (hagree.unique hold hi)
      · refine (hentry g p).trans ?_
        by_cases hg : g = f
        · rw [if_pos ⟨hg, rfl⟩]
        · rw [if_neg fun hkey => hg hkey.1]
          exact hothers g hname hg
      · change contentsOn (Function.update mgr.files (filename f) file (filename f)).pages q = _
        rw [Function.update_self, hcontents, Function.update_of_ne hq]
      · rintro rfl
        exact hj hi
      · refine (hentry g q).trans (if_neg ?_)
        rintro ⟨rfl, rfl⟩
        exact hkey ⟨rfl, rfl⟩

/-- In every run of orderly calls, `disposePage` moves a page to the free list exactly if the pool has the page through this
object and through no other one on the file. -/
theorem disposePage_iff {bufs : Nat} {page : Page} {files : N → PageFile} {contents : N × PageId → Option C}
    (hfiles : ∀ n, (files n).InOrder)
    (hrun : Run (pageFiles filename) hash filename body bufs page files contents
      (fun mgr _ call => call.Orderly filename mgr) mgr edits) :
    (∃ mgr', disposePage (pageFiles filename) hash f p mgr = .ok () mgr' ∧ Disposed hash filename f p mgr mgr') ↔
      (∃ i, mgr.Holds i f p) ∧ Alone filename mgr f p := by
  rcases hrun.backed hfiles with ⟨hagree, h⟩ | ⟨hzero, hnone⟩
  · constructor
    · rintro ⟨mgr', hreturns, hdisposed⟩
      have hspec := disposePage_spec (L := pageFiles filename) hagree f p
      rw [hreturns] at hspec
      cases hspec with
      | @disposed i table files holds removed run =>
        refine ⟨⟨i, holds⟩, fun j g hj hname => ?_⟩
        by_contra hne
        -- The copy of the other object is in a frame that is not given up.
        have hji : j ≠ i := by
          rintro rfl
          exact hne (Option.some.inj (hj.2.file.symm.trans holds.2.file))
        have hstays : (mgr.vacate i table).Holds j g p := holds_vacate.mpr ⟨hji, hj⟩
        exact hdisposed.noFrame j g hstays hname
    · rintro ⟨⟨i, hi⟩, halone⟩
      exact h.disposes hagree hi halone
  · refine iff_of_false ?_ ?_
    · rintro ⟨mgr', hreturns, -⟩
      rw [disposePage, run_bind_ok (run_get mgr), BufHashTbl.lookup_eq, hnone] at hreturns
      cases hreturns
    · rintro ⟨⟨i, hi⟩, -⟩
      exact Nat.not_lt_zero i (hzero ▸ hi.1)

/-- A pool of `bufs` frames over one new page file, after the calls. -/
def onePool (bufs : Nat) (calls : List (Call Unit Page)) : BufMgr Unit Page (Unit → PageFile) × Edits Unit Page :=
  runCalls (pageFiles id) (P3.hash fun _ => 0) id Page.unlinked bufs .fresh (fun _ => .create) (fun _ => none) calls

/-- The runs of `onePool`. -/
def OnePoolRun (bufs : Nat) : BufMgr Unit Page (Unit → PageFile) → Edits Unit Page → Prop :=
  Run (pageFiles id) (P3.hash fun _ => 0) id Page.unlinked bufs .fresh (fun _ => .create) (fun _ => none)
    (fun mgr _ call => call.Orderly id mgr)

/-- Two pages are allocated; the second one takes the frame of the first one if there is no other. -/
private theorem onePool_two (bufs : Nat) (hsecond : FileCall.allocatePage.Safe
      ((onePool bufs [.allocPage (), .unPinPage () 1 false]).1.files ())) :
    OnePoolRun bufs (onePool bufs [.allocPage (), .unPinPage () 1 false, .allocPage (), .unPinPage () 2 false]).1
      (onePool bufs [.allocPage (), .unPinPage () 1 false, .allocPage (), .unPinPage () 2 false]).2 := by
  have h₀ : OnePoolRun bufs (onePool bufs []).1 (onePool bufs []).2 := .start
  have h₁ := run_append h₀ (.allocPage ()) ⟨fun _ => Nat.zero_le 1, fun _ => (by decide : 1 + 1 < 2 ^ 32)⟩
  have h₂ := run_append h₁ (.unPinPage () 1 false) trivial
  have h₃ := run_append h₂ (.allocPage ()) hsecond
  exact run_append h₃ (.unPinPage () 2 false) trivial

/-- With two frames, page 1 is in the pool. -/
theorem disposePage_iff_cached : ∃ mgr',
    disposePage (pageFiles id) (P3.hash fun _ => 0) () 1
      (onePool 2 [.allocPage (), .unPinPage () 1 false, .allocPage (), .unPinPage () 2 false]).1 = .ok () mgr' ∧
    Disposed (P3.hash fun _ => 0) id () 1
      (onePool 2 [.allocPage (), .unPinPage () 1 false, .allocPage (), .unPinPage () 2 false]).1 mgr' := by
  have hrun := onePool_two 2 ⟨by decide +kernel, by decide +kernel⟩
  refine (disposePage_iff (fun _ => inOrder_create) hrun).mpr ⟨⟨0, ?_, ?_, ?_, ?_⟩, fun _ _ _ _ => rfl⟩ <;> decide +kernel

/-- With one frame, page 1 has left the pool, and `disposePage` throws. -/
theorem disposePage_evicted : ¬ ∀ bufs mgr edits, OnePoolRun bufs mgr edits → ∀ p, contentsOn (mgr.files ()).pages p ≠ none →
    (∀ i, mgr.Holds i () p → (mgr.bufDescTable i).pinCnt = 0) →
    ∃ mgr', disposePage (pageFiles id) (P3.hash fun _ => 0) () p mgr = .ok () mgr' ∧
      Disposed (P3.hash fun _ => 0) id () p mgr mgr' := by
  intro hall
  have hrun := onePool_two 1 ⟨by decide +kernel, by decide +kernel⟩
  have hunpinned : ∀ i < 1, ((onePool 1 [.allocPage (), .unPinPage () 1 false, .allocPage (),
      .unPinPage () 2 false]).1.bufDescTable i).pinCnt = 0 := by decide +kernel
  obtain ⟨mgr', hreturns, -⟩ := hall 1 _ _ hrun 1 (by decide +kernel) fun i hi => hunpinned i hi.1
  have hsome : ((disposePage (pageFiles id) (P3.hash fun _ => 0) () 1).run' (onePool 1 [.allocPage (), .unPinPage () 1 false,
      .allocPage (), .unPinPage () 2 false]).1).isSome = true := by
    delta EStateM.run' EStateM.run
    rw [hreturns]
    rfl
  revert hsome
  decide +kernel

end Cs564.P3
