import Cs564.P3Buffer.PageFiles
import Cs564.P3Buffer.SameLayer
import Cs564.PageFile.Blank

/-!
# Page files as a page store

A page file is a page store only while it is neat, and only for calls that it can take.  `guardedFiles` throws for all
other calls, and so is one in every state (`guardedFiles_faithful`).  In a run of orderly calls over neat files the
manager makes no other calls: it does the same over `pageFiles` and over `guardedFiles` (`Run.guarded`).
-/

namespace Cs564.P3

open P2 (BufError BufHashTbl BufDesc BufMgr BufM Loads onFile)
open P2.BufMgr PageFile

variable {F N : Type} [DecidableEq F] [DecidableEq N]

/-- The pages in use, without their numbers and links. -/
def pagesOf (files : N → PageFile) (key : N × PageId) : Option Page := (contentsOn (files key.1).pages key.2).map Page.bare

open Classical in
/-- The pages in use of the neat files. -/
noncomputable def neatPages (files : N → PageFile) (key : N × PageId) : Option Page :=
  if (files key.1).Neat then pagesOf files key else none

open Classical in
/-- Page files, of which only calls are made that a neat file can take; a page is written under its number. -/
noncomputable def guardedFiles (filename : F → N) : FileLayer F Page (N → PageFile) where
  readPage f p files :=
    if (files (filename f)).Neat ∧ p ≠ INVALID_NUMBER then (pageFiles filename).readPage f p files
    else .error (.invalidPage p) files
  writePage f p page files :=
    if (files (filename f)).Neat ∧ contentsOn (files (filename f)).pages p ≠ none then
      (pageFiles filename).writePage f p (page.set_page_number p) files
    else .error (.invalidPage p) files
  allocatePage f files :=
    if (files (filename f)).Neat ∧ FileCall.allocatePage.Safe (files (filename f)) then
      (pageFiles filename).allocatePage f files
    else .error .assertion files
  deletePage f p files :=
    if (files (filename f)).Neat ∧ contentsOn (files (filename f)).pages p ≠ none then
      (pageFiles filename).deletePage f p files
    else .error (.invalidPage p) files

omit [DecidableEq N] in
theorem neatPages_eq {files : N → PageFile} {n : N} (h : (files n).Neat) (p : PageId) :
    neatPages files (n, p) = pagesOf files (n, p) := if_pos h

omit [DecidableEq N] in
theorem neatPages_ne_none_iff {files : N → PageFile} {n : N} {p : PageId} :
    neatPages files (n, p) ≠ none ↔ (files n).Neat ∧ contentsOn (files n).pages p ≠ none := by
  unfold neatPages
  split
  · next h =>
    refine ⟨fun hne => ⟨h, fun hnone => hne ?_⟩, fun hne hnone => hne.2 ?_⟩
    · rw [pagesOf, hnone]
      rfl
    · exact Option.map_eq_none_iff.mp hnone
  · next h => exact iff_of_false (fun hne => hne rfl) fun hne => h hne.1

/-- One page of a file changes. -/
private theorem neatPages_update {files : N → PageFile} {n : N} {file : PageFile} {p : PageId} {page : Option Page}
    (h : (files n).Neat) (hfile : file.Neat)
    (hcontents : contentsOn file.pages = Function.update (contentsOn (files n).pages) p page) :
    neatPages (Function.update files n file) = Function.update (neatPages files) (n, p) (page.map Page.bare) := by
  funext key
  obtain ⟨m, q⟩ := key
  by_cases hm : m = n
  · subst hm
    have hneat : (Function.update files m file m).Neat := by
      rw [Function.update_self]
      exact hfile
    rw [neatPages_eq hneat, pagesOf, Function.update_self, hcontents]
    by_cases hq : q = p
    · subst hq
      rw [Function.update_self, Function.update_self]
    · rw [Function.update_of_ne hq, Function.update_of_ne fun heq => hq (Prod.mk.inj heq).2]
      exact (neatPages_eq h q).symm
  · rw [Function.update_of_ne fun heq => hm (Prod.mk.inj heq).1, neatPages, neatPages, pagesOf, pagesOf,
      Function.update_of_ne hm]

omit [DecidableEq F] in
/-- `allocatePage` of an object, by that of its file. -/
private theorem pageFiles_allocatePage {filename : F → N} {files : N → PageFile} {f : F} {page : Page} {file : PageFile}
    (hrun : PageFile.allocatePage (files (filename f)) = .ok (page, page.page_number) file) :
    (pageFiles filename).allocatePage f files =
      .ok (page.page_number, page) (Function.update files (filename f) file) := by
  refine onFile_eq ?_
  rw [run_bind_ok hrun]
  rfl

omit [DecidableEq F] in
/-- They are a page store. -/
theorem guardedFiles_faithful (filename : F → N) : (guardedFiles filename).Faithful filename Page.bare neatPages where
  readPage := by
    intro files f p c hsome
    obtain ⟨hneat, hlive⟩ := neatPages_ne_none_iff.mp (hsome ▸ Option.some_ne_none c)
    obtain ⟨used, free, hlists⟩ := hneat.lists
    obtain ⟨left, hsound⟩ := hneat.sound
    have hp : p ≠ INVALID_NUMBER := Nat.ne_of_gt (hlists.used_pos ((hlists.mem_used_iff hsound).mpr hlive))
    rcases hneat.readPage hp with ⟨page, hread, -, hcontents⟩ | ⟨hnone, -⟩
    · refine ⟨page, _, (if_pos ⟨hneat, hp⟩).trans (onFile_eq hread), ?_, by rw [Function.update_eq_self]⟩
      rw [neatPages_eq hneat, pagesOf, hcontents, Option.map_some, Page.bare_unlinked] at hsome
      exact Option.some.inj hsome
    · exact absurd hnone hlive
  writePage := by
    intro files f p page hlive
    obtain ⟨hneat, hlive⟩ := neatPages_ne_none_iff.mp hlive
    obtain ⟨file, hwrite, hfile, hcontents⟩ := hneat.writePage hlive (page.page_number_set_page_number p)
    refine ⟨_, (if_pos ⟨hneat, hlive⟩).trans (onFile_eq hwrite), ?_⟩
    rw [neatPages_update hneat hfile hcontents, Option.map_some, Page.bare_unlinked, Page.bare_set_page_number]
  allocatePage := by
    intro files files' f new hrun
    simp only [guardedFiles] at hrun
    split at hrun
    · next hguard =>
      obtain ⟨page, file, halloc, hfile, -, hunused, hcontents⟩ := hguard.1.allocatePage hguard.2
      obtain ⟨rfl, rfl⟩ := EStateM.Result.ok.inj (hrun.symm.trans (pageFiles_allocatePage halloc))
      constructor
      · rw [neatPages_eq hguard.1, pagesOf, hunused]
        rfl
      · rw [neatPages_update hguard.1 hfile hcontents, Option.map_some, Page.bare_unlinked]
    · cases hrun
  allocateThrows := by
    intro files files' f e hrun
    simp only [guardedFiles] at hrun
    split at hrun
    · next hguard =>
      obtain ⟨page, file, halloc, -⟩ := hguard.1.allocatePage hguard.2
      rw [pageFiles_allocatePage halloc] at hrun
      cases hrun
    · obtain ⟨-, rfl⟩ := EStateM.Result.error.inj hrun
      rfl
  deletePage := by
    intro files files' f p hrun
    simp only [guardedFiles] at hrun
    split at hrun
    · next hguard =>
      obtain ⟨file, hdelete, hfile, hcontents⟩ := hguard.1.deletePage hguard.2
      obtain ⟨-, rfl⟩ := EStateM.Result.ok.inj (hrun.symm.trans (onFile_eq hdelete))
      rw [neatPages_update hguard.1 hfile hcontents]
      rfl
    · cases hrun

omit [DecidableEq F] in
/-- They refuse a page that they do not have. -/
theorem guardedFiles_refuses (filename : F → N) (f : F) (p : PageId) :
    (guardedFiles filename).Refuses filename neatPages f p := by
  intro files hnone
  by_cases hguard : (files (filename f)).Neat ∧ p ≠ INVALID_NUMBER
  · rcases hguard.1.readPage hguard.2 with ⟨page, -, -, hcontents⟩ | ⟨-, hread⟩
    · rw [neatPages_eq hguard.1, pagesOf, hcontents] at hnone
      cases hnone
    · have hthrows : onFile (filename f) (PageFile.readPage p) files = .error (.invalidPage p) files := by
        rw [onFile, hread]
        dsimp only
        rw [Function.update_eq_self]
      exact ⟨_, _, (if_pos hguard).trans hthrows, rfl⟩
  · exact ⟨_, _, if_neg hguard, rfl⟩

/-! ### The manager over neat files -/

variable {hash : F → PageId → Nat} {filename : F → N} {mgr m : BufMgr F Page (N → PageFile)} {f : F} {p : PageId}
  {i : FrameId}

/-- The files are neat, and the pages in the pool are pages in use, under their numbers. -/
structure Stocked (hash : F → PageId → Nat) (filename : F → N) (mgr : BufMgr F Page (N → PageFile)) : Prop where
  agree : mgr.Agree hash
  backed : Backed filename mgr
  neat : ∀ n, (mgr.files n).Neat

namespace Stocked

section Code

variable (h : Stocked hash filename mgr)
include h

theorem sameWrites : SameWrites (pageFiles filename) (guardedFiles filename) mgr := by
  intro i f p hi
  have hpage : (mgr.bufPool i).set_page_number p = mgr.bufPool i := by
    rw [← h.backed.number i f p hi]
    rfl
  have hguarded : (guardedFiles filename).writePage f p (mgr.bufPool i) mgr.files =
      (pageFiles filename).writePage f p ((mgr.bufPool i).set_page_number p) mgr.files :=
    if_pos ⟨h.neat _, h.backed.live i f p hi⟩
  rw [hguarded, hpage]

/-- A page that leaves the pool is written to a neat file. -/
theorem dropped (d : Dropped (pageFiles filename) hash mgr i f p m) : Stocked hash filename m := by
  refine ⟨d.agree h.agree, (h.backed.dropped d).1, ?_⟩
  cases d with
  | @drop files table holds unpinned written removed =>
    change ∀ n, (files n).Neat
    unfold Written at written
    split at written
    · obtain ⟨file, hrun, rfl⟩ := P2.onFile_ok written
      obtain ⟨file', hwrite, hfile, -⟩ :=
        (h.neat (filename f)).writePage (h.backed.live i f p holds) (h.backed.number i f p holds)
      obtain rfl := (EStateM.Result.ok.inj (hrun.symm.trans hwrite)).2
      exact (Function.forall_update_iff _ _).mpr ⟨hfile, fun n _ => h.neat n⟩
    · rw [written]
      exact h.neat

omit [DecidableEq N] in
theorem touched (t : mgr.Touched m) : Stocked hash filename m where
  agree := h.agree.touched t
  backed := h.backed.touched t
  neat n := by
    rw [t.files]
    exact h.neat n

theorem freed (hfreed : Freed (pageFiles filename) hash mgr i m) : Stocked hash filename m := by
  cases hfreed with
  | @empty m t lt invalid =>
    have hfreed : Freed (pageFiles filename) hash mgr i (m.vacate i m.hashTable) := .empty t lt invalid
    exact ⟨hfreed.agree h.agree, (h.backed.freed hfreed).1, (h.touched t).neat⟩
  | evicted t dropped => exact (h.touched t).dropped dropped

theorem readPage_guarded (hp : p ≠ INVALID_NUMBER) :
    readPage (pageFiles filename) hash f p mgr = readPage (guardedFiles filename) hash f p mgr :=
  h.sameWrites.readPage h.agree h.backed.writable fun _ _ hfreed => (if_pos ⟨(h.freed hfreed).neat _, hp⟩).symm

theorem allocPage_guarded (hsafe : FileCall.allocatePage.Safe (mgr.files (filename f))) :
    allocPage (pageFiles filename) hash f mgr = allocPage (guardedFiles filename) hash f mgr := by
  refine h.sameWrites.allocPage h.agree h.backed.writable fun i m hfreed => ?_
  have hsafe' : FileCall.allocatePage.Safe (m.files (filename f)) := by
    rw [FileCall.Safe, (h.backed.freed hfreed).2.header]
    exact hsafe
  exact (if_pos ⟨(h.freed hfreed).neat _, hsafe'⟩).symm

theorem flushFile_guarded :
    flushFile (pageFiles filename) hash f mgr = flushFile (guardedFiles filename) hash f mgr :=
  flushFile_congr (W := Stocked hash filename) (fun hm => hm.sameWrites) (fun hm => hm.backed.writable)
    (fun hm _ hdrop => hdrop.elim fun _ hdrop => hdrop.elim fun _ hdrop => hm.dropped hdrop) h.agree h

theorem disposePage_guarded :
    disposePage (pageFiles filename) hash f p mgr = disposePage (guardedFiles filename) hash f p mgr :=
  disposePage_congr h.agree fun i hi => (if_pos ⟨h.neat _, h.backed.live i f p hi⟩).symm

/-! ### One call -/

private theorem withFile {file : PageFile} (hfile : file.Neat) (n : N) : ∀ m, (Function.update mgr.files n file m).Neat :=
  (Function.forall_update_iff _ _).mpr ⟨hfile, fun m _ => h.neat m⟩

private theorem afterReadPage (hp : p ≠ INVALID_NUMBER)
    {r : EStateM.Result (BufError F) (BufMgr F Page (N → PageFile)) FrameId}
    (hspec : ReadPage (pageFiles filename) hash f p mgr r) : ∀ n, ((stateAfter r).files n).Neat := by
  cases hspec with
  | hit holds => exact h.neat
  | exceeded absent t full => exact (h.touched t).neat
  | @failed i m e files absent freed run =>
    have hm := h.freed freed
    obtain ⟨file, hthrows, rfl⟩ := P2.onFile_error run
    rcases (hm.neat (filename f)).readPage hp with ⟨page, hreturns, -⟩ | ⟨-, hrefused⟩
    · rw [hreturns] at hthrows
      cases hthrows
    · obtain ⟨-, rfl⟩ := EStateM.Result.error.inj (hrefused.symm.trans hthrows)
      exact hm.withFile (hm.neat _) _
  | @loaded i m page files table absent freed run loads =>
    have hm := h.freed freed
    obtain ⟨file, hreads, rfl⟩ := P2.onFile_ok run
    rcases (hm.neat (filename f)).readPage hp with ⟨page', hreturns, -⟩ | ⟨-, hrefused⟩
    · obtain ⟨-, rfl⟩ := EStateM.Result.ok.inj (hreturns.symm.trans hreads)
      exact hm.withFile (hm.neat _) _
    · rw [hrefused] at hreads
      cases hreads

/-- What the file does after `allocBuf`. -/
theorem allocates (hsafe : FileCall.allocatePage.Safe (mgr.files (filename f)))
    (hfreed : Freed (pageFiles filename) hash mgr i m) : ∃ page file,
      (pageFiles filename).allocatePage f m.files = .ok (page.page_number, page) (Function.update m.files (filename f) file) ∧
        file.Neat ∧ page.bare = .fresh ∧ contentsOn (m.files (filename f)).pages page.page_number = none := by
  have hsafe' : FileCall.allocatePage.Safe (m.files (filename f)) := by
    rw [FileCall.Safe, (h.backed.freed hfreed).2.header]
    exact hsafe
  obtain ⟨page, file, halloc, hfile, hblank, hunused, -⟩ := ((h.freed hfreed).neat (filename f)).allocatePage hsafe'
  exact ⟨page, file, pageFiles_allocatePage halloc, hfile, hblank, hunused⟩

private theorem afterAllocPage (hsafe : FileCall.allocatePage.Safe (mgr.files (filename f)))
    {r : EStateM.Result (BufError F) (BufMgr F Page (N → PageFile)) (PageId × FrameId)}
    (hspec : AllocPage (pageFiles filename) hash f mgr r) : ∀ n, ((stateAfter r).files n).Neat := by
  cases hspec with
  | exceeded t full => exact (h.touched t).neat
  | failed freed run =>
    obtain ⟨page, file, hreturns, -⟩ := h.allocates hsafe freed
    rw [hreturns] at run
    cases run
  | @present i j m _ new files freed run holds =>
    obtain ⟨page, file, hreturns, -, -, hunused⟩ := h.allocates hsafe freed
    obtain ⟨rfl, -⟩ := EStateM.Result.ok.inj (hreturns.symm.trans run)
    exact absurd hunused ((h.freed freed).backed.live j f _ holds)
  | @allocated i m new files table freed run loads =>
    obtain ⟨page, file, hreturns, hfile, -⟩ := h.allocates hsafe freed
    obtain ⟨-, rfl⟩ := EStateM.Result.ok.inj (hreturns.symm.trans run)
    exact (h.freed freed).withFile hfile _

private theorem afterDisposePage {r : EStateM.Result (BufError F) (BufMgr F Page (N → PageFile)) Unit}
    (hspec : DisposePage (pageFiles filename) hash f p mgr r) : ∀ n, ((stateAfter r).files n).Neat := by
  have hdeletes : ∀ {i}, mgr.Holds i f p → ∃ file,
      (pageFiles filename).deletePage f p mgr.files = .ok () (Function.update mgr.files (filename f) file) ∧ file.Neat := by
    intro i hi
    obtain ⟨file, hdelete, hfile, -⟩ := (h.neat (filename f)).deletePage (h.backed.live i f p hi)
    exact ⟨file, onFile_eq hdelete, hfile⟩
  cases hspec with
  | absent => exact h.neat
  | failed holds removed run =>
    obtain ⟨file, hreturns, -⟩ := hdeletes holds
    rw [hreturns] at run
    cases run
  | disposed holds removed run =>
    obtain ⟨file, hreturns, hfile⟩ := hdeletes holds
    obtain ⟨-, rfl⟩ := EStateM.Result.ok.inj (hreturns.symm.trans run)
    exact h.withFile hfile _

variable {C : Type} {body : Page → C} {edits : Edits N C}

/-- An orderly call is the same over the guarded files. -/
theorem call_guarded (call : Call F Page) (horderly : call.Orderly filename mgr) :
    call.run (pageFiles filename) hash filename body mgr edits =
      call.run (guardedFiles filename) hash filename body mgr edits := by
  cases call with
  | readPage f p => rw [Call.run, Call.run, h.readPage_guarded horderly]
  | allocPage f => rw [Call.run, Call.run, h.allocPage_guarded horderly]
  | unPinPage f p dirty => rfl
  | flushFile f => rw [Call.run, Call.run, h.flushFile_guarded]
  | disposePage f p => rw [Call.run, Call.run, h.disposePage_guarded]
  | edit f p fid page => rfl

/-- An orderly call keeps the files neat. -/
theorem call (call : Call F Page) (horderly : call.Orderly filename mgr) :
    Stocked hash filename (call.run (pageFiles filename) hash filename body mgr edits).1 := by
  obtain ⟨hagree, hbacked⟩ : (call.run (pageFiles filename) hash filename body mgr edits).1.Agree hash ∧
      Backed filename (call.run (pageFiles filename) hash filename body mgr edits).1 :=
    h.backed.call h.agree call horderly
  refine ⟨hagree, hbacked, ?_⟩
  cases call with
  | readPage f p =>
    have hneat := h.afterReadPage horderly (readPage_spec h.agree h.backed.writable f p)
    rw [Call.run]
    cases hrun : P3.readPage (pageFiles filename) hash f p mgr <;> rw [hrun] at hneat <;> exact hneat
  | allocPage f =>
    have hneat := h.afterAllocPage horderly (allocPage_spec h.agree h.backed.writable f)
    rw [Call.run]
    cases hrun : P3.allocPage (pageFiles filename) hash f mgr <;> rw [hrun] at hneat <;> exact hneat
  | unPinPage f p dirty =>
    have hspec := unPinPage_spec h.agree f p dirty
    rw [Call.run]
    cases hrun : P3.unPinPage hash f p dirty mgr <;> rw [hrun] at hspec <;> cases hspec <;> exact h.neat
  | flushFile f =>
    obtain ⟨m, -, -, hm, ⟨i, p, -, -, hrun⟩ | ⟨hrun, -⟩⟩ :=
      flushFile_cases (W := Stocked hash filename) (fun hm => hm.backed.writable)
        (fun hm _ hdrop => hdrop.elim fun _ hdrop => hdrop.elim fun _ hdrop => hm.dropped hdrop) h.agree h f
    · rw [Call.run, hrun]
      exact hm.neat
    · rw [Call.run, hrun]
      exact hm.neat
  | disposePage f p =>
    have hneat := h.afterDisposePage (disposePage_spec h.agree f p)
    rw [Call.run]
    cases hrun : P3.disposePage (pageFiles filename) hash f p mgr <;> rw [hrun] at hneat <;> exact hneat
  | edit f p fid page => exact h.neat

end Code

end Stocked

/-! ### Runs -/

section Runs

variable {C : Type} {body : Page → C} {edits : Edits N C}

/-- A page is changed with a pin on it, and the last pin on a changed page is given back with the dirty mark. -/
def Call.Marks {F N P C σ : Type} (filename : F → N) (mgr : BufMgr F P σ) (edits : Edits N C) : Call F P → Prop
  | readPage _ _ => True
  | allocPage _ => True
  | unPinPage f p dirty =>
    dirty = false → edits.unsaved (filename f, p) = true → ∀ i, mgr.Holds i f p → 1 < (mgr.bufDescTable i).pinCnt
  | flushFile _ => True
  | disposePage _ _ => True
  | edit f p fid _ => mgr.Holds fid f p ∧ 0 < (mgr.bufDescTable fid).pinCnt

/-- The call keeps the files in order, marks what it changes, and asks for no page that another object has in the pool. -/
structure Call.Proper (filename : F → N) (mgr : BufMgr F Page (N → PageFile)) (edits : Edits N C) (call : Call F Page) :
    Prop where
  orderly : call.Orderly filename mgr
  marks : call.Marks filename mgr edits
  unshared : call.Unshared filename mgr

theorem Stocked.allowed (h : Stocked hash filename mgr) {call : Call F Page} (hproper : call.Proper filename mgr edits)
    (store : (N → PageFile) → N × PageId → Option C) (hrefuses : ∀ f p, (guardedFiles filename).Refuses filename store f p) :
    call.Allowed (guardedFiles filename) filename store mgr edits := by
  refine ⟨?_, hproper.unshared⟩
  cases call with
  | readPage f p => exact .inr (hrefuses f p)
  | allocPage f => trivial
  | unPinPage f p dirty => exact hproper.marks
  | flushFile f => trivial
  | disposePage f p =>
    intro i hi
    obtain ⟨file, hdelete, -⟩ := (h.neat (filename f)).deletePage (h.backed.live i f p hi)
    exact ⟨_, (if_pos ⟨h.neat _, h.backed.live i f p hi⟩).trans (onFile_eq hdelete)⟩
  | edit f p fid page => exact hproper.marks

end Runs

section Runs

variable {edits : Edits N Page} {bufs : Nat} {page : Page} {files : N → PageFile} {contents : N × PageId → Option Page}

/-- A run of proper calls is one over the guarded files; a pool without frames stays as it is. -/
theorem Run.guarded (hfiles : ∀ n, (files n).Neat)
    (hrun : Run (pageFiles filename) hash filename Page.bare bufs page files contents
      (fun mgr edits call => call.Proper filename mgr edits) mgr edits) :
    Run (guardedFiles filename) hash filename Page.bare bufs page files contents
        (fun mgr edits call => call.Allowed (guardedFiles filename) filename neatPages mgr edits) mgr edits ∧
      (Stocked hash filename mgr ∨
        mgr.numBufs = 0 ∧ (∀ f p, mgr.hashTable.entry hash f p = none) ∧ ∀ n, (mgr.files n).Neat) := by
  induction hrun with
  | start =>
    refine ⟨.start, ?_⟩
    by_cases hbufs : bufs = 0
    · exact .inr ⟨hbufs, fun f p => BufHashTbl.entry_new _, hfiles⟩
    · refine .inl ⟨agree_newBufMgr (Nat.pos_of_ne_zero hbufs) page files, ⟨fun n => (hfiles n).toInOrder, ?_, ?_⟩, hfiles⟩
      · exact fun i f p hi => absurd hi not_holds_newBufMgr
      · exact fun i f p hi => absurd hi not_holds_newBufMgr
  | @call mgr edits call before meets ih =>
    obtain ⟨hbefore, hstate⟩ := ih
    rcases hstate with h | ⟨hzero, hnone, hneat⟩
    · refine ⟨?_, .inl (h.call call meets.orderly)⟩
      rw [h.call_guarded call meets.orderly]
      exact .call call hbefore (h.allowed meets neatPages (guardedFiles_refuses filename))
    · have hedit : ∀ f p fid page, call = .edit f p fid page → mgr.Holds fid f p := by
        rintro f p fid page rfl
        exact meets.orderly.1
      rw [empty_call hzero hnone call hedit]
      exact ⟨hbefore, .inr ⟨hzero, hnone, hneat⟩⟩

/-- What holds in every state of a run of proper calls. -/
theorem Run.stocked (hfiles : ∀ n, (files n).Neat)
    (hrun : Run (pageFiles filename) hash filename Page.bare bufs page files (pagesOf files)
      (fun mgr edits call => call.Proper filename mgr edits) mgr edits) :
    (Stocked hash filename mgr ∧ Kept filename Page.bare neatPages mgr edits) ∨
      mgr.numBufs = 0 ∧ (∀ f p, mgr.hashTable.entry hash f p = none) ∧ (∀ n, (mgr.files n).Neat) ∧
        pagesOf mgr.files = edits.contents := by
  have hpages : ∀ {files' : N → PageFile}, (∀ n, (files' n).Neat) → neatPages files' = pagesOf files' := by
    intro files' hneat
    funext key
    exact neatPages_eq (hneat key.1) key.2
  obtain ⟨hguarded, hstate⟩ := hrun.guarded hfiles
  rw [← hpages hfiles] at hguarded
  rcases hguarded.kept (guardedFiles_faithful filename) with ⟨hagree, hkept⟩ | ⟨hzero, hnone, hstore⟩
  · rcases hstate with h | ⟨hzero, -, -⟩
    · exact .inl ⟨h, hkept⟩
    · exact absurd hagree.pos (hzero ▸ Nat.lt_irrefl 0)
  · rcases hstate with h | ⟨-, -, hneat⟩
    · exact absurd h.agree.pos (hzero ▸ Nat.lt_irrefl 0)
    · exact .inr ⟨hzero, hnone, hneat, (hpages hneat).symm.trans hstore⟩

end Runs

end Cs564.P3
