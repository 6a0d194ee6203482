import Cs564.P2Buffer.PageFiles

/-!
# Flushing a file

`flushFile` goes over the frames and gives up those with a page of the file, until one of them is pinned (`Flushed`).
Over page files the writes of dirty pages return, so it throws for a pinned page and for nothing else
(`flushFile_exact`).
-/

namespace Cs564.P2

open PageFile BufMgr

variable {F : Type} [DecidableEq F]

/-- What has been done while pages of file `f` were flushed: a frame is as it was, or it had an unpinned page of the file,
which has been written if it was dirty; frames, entries and pages of other files are as they were. -/
structure Flushed (hash : F → PageId → Nat) (f : F) (mgr mgr' : BufMgr F Page (F → PageFile)) : Prop where
  numBufs : mgr'.numBufs = mgr.numBufs
  bufPool : mgr'.bufPool = mgr.bufPool
  frame : ∀ i, mgr'.bufDescTable i = mgr.bufDescTable i ∨
    mgr'.bufDescTable i = .clear ∧ ∃ p, mgr.Holds i f p ∧ (mgr.bufDescTable i).pinCnt = 0 ∧
      ((mgr.bufDescTable i).dirty = true → contentsOn (mgr'.files f).pages p = some (mgr.bufPool i).unlinked)
  entry : ∀ g q, g ≠ f → mgr'.hashTable.lookup hash g q = mgr.hashTable.lookup hash g q
  files : ∀ g, g ≠ f → mgr'.files g = mgr.files g
  absent : ∀ q, (∀ i, ¬ mgr.Holds i f q) → contentsOn (mgr'.files f).pages q = contentsOn (mgr.files f).pages q

variable {hash : F → PageId → Nat} {mgr mgr' mgr'' : BufMgr F Page (F → PageFile)} {f : F}

namespace Flushed

theorem refl (hash : F → PageId → Nat) (f : F) (mgr : BufMgr F Page (F → PageFile)) : Flushed hash f mgr mgr where
  numBufs := rfl
  bufPool := rfl
  frame _ := .inl rfl
  entry _ _ _ := rfl
  files _ _ := rfl
  absent _ _ := rfl

/-- A frame that holds a page afterwards is as it was. -/
theorem same (h : Flushed hash f mgr mgr') {i : FrameId} {g : F} {q : PageId} (hi : mgr'.Holds i g q) :
    mgr'.bufDescTable i = mgr.bufDescTable i := by
  rcases h.frame i with hsame | ⟨hclear, -⟩
  · exact hsame
  · have his := hi.2
    rw [hclear] at his
    exact absurd his BufDesc.not_is_clear

theorem holds_of (h : Flushed hash f mgr mgr') {i : FrameId} {g : F} {q : PageId} (hi : mgr'.Holds i g q) :
    mgr.Holds i g q := by
  have hsame := h.same hi
  obtain ⟨hlt, his⟩ := hi
  exact ⟨h.numBufs ▸ hlt, hsame ▸ his⟩

/-- A page whose frame has been given up is in no frame. -/
theorem gone (h : Flushed hash f mgr mgr') (hagree : mgr.Agree hash) {i : FrameId} {p : PageId} (hi : mgr.Holds i f p)
    (hclear : mgr'.bufDescTable i = .clear) (j : FrameId) : ¬ mgr'.Holds j f p := by
  intro hj
  obtain rfl := hagree.unique (h.holds_of hj) hi
  have his := hj.2
  rw [hclear] at his
  exact BufDesc.not_is_clear his

theorem trans (h : Flushed hash f mgr mgr') (hagree : mgr.Agree hash) (h' : Flushed hash f mgr' mgr'') :
    Flushed hash f mgr mgr'' where
  numBufs := h'.numBufs.trans h.numBufs
  bufPool := h'.bufPool.trans h.bufPool
  frame i := by
    rcases h'.frame i with hsame' | ⟨hclear', p, hi, hpin, hwritten⟩
    · rcases h.frame i with hsame | ⟨hclear, p, hi, hpin, hwritten⟩
      · exact .inl (hsame'.trans hsame)
      · refine .inr ⟨hsame'.trans hclear, p, hi, hpin, fun hdirty => ?_⟩
        rw [h'.absent p (h.gone hagree hi hclear)]
        exact hwritten hdirty
    · have hsame := h.same hi
      refine .inr ⟨hclear', p, h.holds_of hi, hsame ▸ hpin, fun hdirty => ?_⟩
      rw [← h.bufPool]
      exact hwritten (hsame ▸ hdirty)
  entry g q hg := (h'.entry g q hg).trans (h.entry g q hg)
  files g hg := (h'.files g hg).trans (h.files g hg)
  absent q hno := (h'.absent q fun i hi => hno i (h.holds_of hi)).trans (h.absent q hno)

end Flushed

/-- A frame with an unpinned page of the file is given up. -/
private theorem Backed.flushed (hb : Backed mgr f) (h : mgr.Agree hash) {i : FrameId} {p : PageId} (hi : mgr.Holds i f p)
    (hpin : (mgr.bufDescTable i).pinCnt = 0) {files : F → PageFile} {table : BufHashTbl F}
    (hwritten : mgr.Written (pageFiles F) i f files) (hremove : mgr.hashTable.remove hash f p = .ok table) :
    Flushed hash f mgr ((mgr.withFiles files).vacate i table) := by
  obtain ⟨-, hfiles, hcontents, -, hothers⟩ := hb.written hi hwritten
  constructor
  · rfl
  · rfl
  · intro j
    by_cases hji : j = i
    · subst hji
      exact .inr ⟨Function.update_self .., p, hi, hpin, hcontents⟩
    · exact .inl (Function.update_of_ne hji ..)
  · intro g q hg
    obtain ⟨table', hremove', -, hentry⟩ := BufHashTbl.remove_ok h.distinct ((h.entry_iff f p i).mpr hi)
    obtain rfl := Except.ok.inj (hremove.symm.trans hremove')
    have hkey : ¬ (g = f ∧ q = p) := fun hkey => hg hkey.1
    change table.lookup hash g q = mgr.hashTable.lookup hash g q
    rw [BufHashTbl.lookup_eq, BufHashTbl.lookup_eq, hentry, if_neg hkey]
  · exact hfiles
  · intro q hno
    refine hothers q ?_
    rintro rfl
    exact hno i hi

/-- `flushFile` at one frame: the frame has no page of the file then, or it has a pinned one. -/
private theorem Backed.flushFrame (hb : Backed mgr f) (h : mgr.Agree hash) {i : FrameId} (hi : i < mgr.numBufs) :
    (∃ mgr', flushFrame (pageFiles F) hash f i mgr = .ok () mgr' ∧ Flushed hash f mgr mgr' ∧ Backed mgr' f ∧
      mgr'.Agree hash ∧ (mgr'.bufDescTable i).file ≠ some f ∧
        ∀ p, mgr.Holds i f p → (mgr.bufDescTable i).pinCnt = 0) ∨
    ∃ p, mgr.Holds i f p ∧ 0 < (mgr.bufDescTable i).pinCnt ∧
      flushFrame (pageFiles F) hash f i mgr = .error (.pagePinned f p i) mgr := by
  rcases flushFrame_cases (L := pageFiles F) h f hi with ⟨hfile, hrun⟩ | ⟨p, hholds, ⟨hpin, hrun⟩ | ⟨hpin, hwrites⟩⟩
  · exact .inl ⟨mgr, hrun, .refl hash f mgr, hb, h, hfile, fun p hp => absurd hp.2.file hfile⟩
  · exact .inr ⟨p, hholds, hpin, hrun⟩
  · rcases hwrites with ⟨files, table, hwritten, hremove, hrun⟩ | ⟨e, files, -, hwrite, -⟩
    · have hq : Quiet (pageFiles F) hash mgr ((mgr.withFiles files).vacate i table) :=
        .evicted hholds hpin hwritten hremove
      obtain ⟨⟨free, hsound⟩, -⟩ := hb.written hholds hwritten
      refine .inl ⟨_, hrun, hb.flushed h hholds hpin hwritten hremove, hb.quiet hq hsound.usable, hq.agree h, ?_,
        fun _ _ => hpin⟩
      have hself : ((mgr.withFiles files).vacate i table).bufDescTable i = .clear := Function.update_self ..
      rw [hself]
      exact fun hsome => by cases hsome
    · obtain ⟨file, free, hrun, -⟩ := hb.write hholds
      rw [hrun] at hwrite
      cases hwrite

/-- The loop of `flushFile`: it goes over all the frames, or up to a pinned page of the file. -/
private theorem Backed.flushFrames {l : List FrameId} (hb : Backed mgr f) (h : mgr.Agree hash)
    (hl : ∀ i ∈ l, i < mgr.numBufs) :
    (∃ mgr', flushFrames (pageFiles F) hash f l mgr = .ok () mgr' ∧ Flushed hash f mgr mgr' ∧
      ∀ i ∈ l, (mgr'.bufDescTable i).file ≠ some f ∧ ∀ p, mgr.Holds i f p → (mgr.bufDescTable i).pinCnt = 0) ∨
    ∃ i p mgr', flushFrames (pageFiles F) hash f l mgr = .error (.pagePinned f p i) mgr' ∧ Flushed hash f mgr mgr' ∧
      mgr.Holds i f p ∧ 0 < (mgr.bufDescTable i).pinCnt := by
  induction l generalizing mgr with
  | nil => exact .inl ⟨mgr, rfl, .refl hash f mgr, fun i hi => absurd hi List.not_mem_nil⟩
  | cons i l ih =>
    rw [P2.flushFrames]
    rcases hb.flushFrame h (hl i (List.mem_cons_self ..)) with
      ⟨mgr₁, hrun, hflushed, hb₁, h₁, hfile, hpins⟩ | ⟨p, hholds, hpin, hrun⟩
    · have hl₁ : ∀ j ∈ l, j < mgr₁.numBufs := fun j hj => hflushed.numBufs ▸ hl j (List.mem_cons_of_mem _ hj)
      rw [run_bind_ok hrun]
      rcases ih hb₁ h₁ hl₁ with ⟨mgr₂, hrun₂, hflushed₂, hall⟩ | ⟨j, p, mgr₂, hrun₂, hflushed₂, hholds, hpin⟩
      · refine .inl ⟨mgr₂, hrun₂, hflushed.trans h hflushed₂, fun j hj => ?_⟩
        rcases List.mem_cons.mp hj with rfl | hj
        · refine ⟨?_, hpins⟩
          rcases hflushed₂.frame j with hsame | ⟨-, p, hholds, -⟩
          · rw [hsame]
            exact hfile
          · exact absurd hholds.2.file hfile
        · refine ⟨(hall j hj).1, fun p hholds => ?_⟩
          rcases hflushed.frame j with hsame | ⟨-, -, -, hpin, -⟩
          · have hholds₁ : mgr₁.Holds j f p := ⟨hl₁ j hj, hsame ▸ hholds.2⟩
            rw [← hsame]
            exact (hall j hj).2 p hholds₁
          · exact hpin
      · refine .inr ⟨j, p, mgr₂, hrun₂, hflushed.trans h hflushed₂, hflushed.holds_of hholds, ?_⟩
        rw [← hflushed.same hholds]
        exact hpin
    · exact .inr ⟨i, p, mgr, run_bind_error hrun, .refl hash f mgr, hholds, hpin⟩

/-- Frames, entries and pages of other files are as they were. -/
structure OthersKept (hash : F → PageId → Nat) (f : F) (mgr mgr' : BufMgr F Page (F → PageFile)) : Prop where
  frame : ∀ i, (mgr.bufDescTable i).file ≠ some f →
    mgr'.bufDescTable i = mgr.bufDescTable i ∧ mgr'.bufPool i = mgr.bufPool i
  entry : ∀ g q, g ≠ f → mgr'.hashTable.lookup hash g q = mgr.hashTable.lookup hash g q
  file : ∀ g, g ≠ f → mgr'.files g = mgr.files g

/-- `flushFile` throws for a pinned page of the file and for nothing else; when it returns, no frame has a page of the
file, and the file has the contents of those that were dirty; when it throws, this holds of the pages that are not in
the pool any more, and the others are as they were.  All that belongs to other files is as it was. -/
structure FlushesExactly (hash : F → PageId → Nat) (f : F) (mgr : BufMgr F Page (F → PageFile)) : Prop where
  pinned : (∃ p i mgr', flushFile (pageFiles F) hash f mgr = .error (.pagePinned f p i) mgr') ↔
    ∃ i p, mgr.Holds i f p ∧ 0 < (mgr.bufDescTable i).pinCnt
  returns : ∀ mgr', flushFile (pageFiles F) hash f mgr = .ok () mgr' →
    (∀ i, i < mgr'.numBufs → (mgr'.bufDescTable i).file ≠ some f) ∧
      (∀ i p, mgr.Holds i f p → (mgr.bufDescTable i).dirty = true →
        contentsOn (mgr'.files f).pages p = some (mgr.bufPool i).unlinked) ∧ OthersKept hash f mgr mgr'
  throws : ∀ e mgr', flushFile (pageFiles F) hash f mgr = .error e mgr' →
    (∃ p i, e = .pagePinned f p i) ∧
      (∀ i p, mgr.Holds i f p → (mgr'.Holds i f p ∧ mgr.SameFrame mgr' i) ∨
        (∀ j, ¬ mgr'.Holds j f p) ∧ ((mgr.bufDescTable i).dirty = true →
          contentsOn (mgr'.files f).pages p = some (mgr.bufPool i).unlinked)) ∧ OthersKept hash f mgr mgr'

/-- The other files. -/
private theorem Flushed.others (h : Flushed hash f mgr mgr') : OthersKept hash f mgr mgr' where
  frame i hfile := by
    rcases h.frame i with hsame | ⟨-, p, hi, -⟩
    · exact ⟨hsame, congrFun h.bufPool i⟩
    · exact absurd hi.2.file hfile
  entry := h.entry
  file := h.files

/-- A page of the file is in its frame as it was, or it has been written if it was dirty. -/
private theorem Flushed.page (h : Flushed hash f mgr mgr') (hagree : mgr.Agree hash) {i : FrameId} {p : PageId}
    (hi : mgr.Holds i f p) : (mgr'.Holds i f p ∧ mgr.SameFrame mgr' i) ∨
      (∀ j, ¬ mgr'.Holds j f p) ∧ ((mgr.bufDescTable i).dirty = true →
        contentsOn (mgr'.files f).pages p = some (mgr.bufPool i).unlinked) := by
  rcases h.frame i with hsame | ⟨hclear, q, hq, -, hwritten⟩
  · refine .inl ⟨⟨h.numBufs ▸ hi.1, hsame ▸ hi.2⟩, ?_, ?_, congrFun h.bufPool i⟩ <;> rw [hsame]
  · obtain ⟨-, rfl⟩ := Prod.mk.inj (hi.2.unique hq.2)
    exact .inr ⟨h.gone hagree hi hclear, hwritten⟩

/-- `flushFile` of a file whose pages in the pool are pages in use. -/
theorem Backed.flushesExactly (hb : Backed mgr f) (h : mgr.Agree hash) : FlushesExactly hash f mgr := by
  have hcode : flushFile (pageFiles F) hash f mgr =
      P2.flushFrames (pageFiles F) hash f (List.range mgr.numBufs) mgr := by
    rw [flushFile, run_bind_ok (run_get mgr)]
  rcases hb.flushFrames h fun i hi => List.mem_range.mp hi with
    ⟨mgr₁, hrun, hflushed, hall⟩ | ⟨i, p, mgr₁, hrun, hflushed, hholds, hpin⟩
  · have hframe : ∀ i, i < mgr₁.numBufs → (mgr₁.bufDescTable i).file ≠ some f := fun i hi =>
      (hall i (List.mem_range.mpr (hflushed.numBufs ▸ hi))).1
    constructor
    · constructor
      · rintro ⟨p, i, mgr', hthrow⟩
        rw [hcode, hrun] at hthrow
        cases hthrow
      · rintro ⟨i, p, hi, hpin⟩
        exact absurd ((hall i (List.mem_range.mpr hi.1)).2 p hi) (Nat.ne_of_gt hpin)
    · intro mgr' hreturn
      rw [hcode, hrun] at hreturn
      obtain ⟨-, rfl⟩ := EStateM.Result.ok.inj hreturn
      refine ⟨hframe, fun i p hi hdirty => ?_, hflushed.others⟩
      rcases hflushed.page h hi with ⟨hstill, -⟩ | ⟨-, hwritten⟩
      · exact absurd hstill.2.file (hframe i hstill.1)
      · exact hwritten hdirty
    · intro e mgr' hthrow
      rw [hcode, hrun] at hthrow
      cases hthrow
  · constructor
    · exact ⟨fun _ => ⟨i, p, hholds, hpin⟩, fun _ => ⟨p, i, mgr₁, hcode.trans hrun⟩⟩
    · intro mgr' hreturn
      rw [hcode, hrun] at hreturn
      cases hreturn
    · intro e mgr' hthrow
      rw [hcode, hrun] at hthrow
      obtain ⟨rfl, rfl⟩ := EStateM.Result.error.inj hthrow
      exact ⟨⟨p, i, rfl⟩, fun j q hj => hflushed.page h hj, hflushed.others⟩

/-- In every run over page files in which the clients keep the numbers of the page objects: `flushFile` of a usable file
is exact. -/
theorem flushFile_exact {bufs : Nat} (hbufs : 1 ≤ bufs) {page : Page} {files : F → PageFile}
    (hfiles : ∀ f, (files f).Reached) {contents : F × PageId → Option Page} {clients : Clients F Page}
    (hrun : MgrRun (pageFiles F) hash (.new bufs page files) contents
      (fun mgr clients call => call.KeepsNumber (pageFiles F) mgr clients) mgr clients)
    (hu : (mgr.files f).Usable) : FlushesExactly hash f mgr :=
  (hrun.backed hbufs hfiles hu).flushesExactly (hrun.bufRun.agree (BufMgr.agree_new hbufs page files))

/-! ### Runs on fixed calls -/

/-- Three frames over new page files. -/
def newFiles : BufMgr Nat Page (Nat → PageFile) := .new 3 Page.fresh fun _ => .create

/-- One more call in a run of `runCalls`. -/
private theorem mgrRun_append {cond : BufMgr Nat Page (Nat → PageFile) → Clients Nat Page → BufCall Nat Page → Prop}
    {calls : List (BufCall Nat Page)}
    (h : MgrRun (pageFiles Nat) (fun f p => f + p) newFiles (fun _ => none) cond
      (runCalls (pageFiles Nat) (fun f p => f + p) newFiles (fun _ => none) calls).1
      (runCalls (pageFiles Nat) (fun f p => f + p) newFiles (fun _ => none) calls).2) (call : BufCall Nat Page)
    (hmeets : cond (runCalls (pageFiles Nat) (fun f p => f + p) newFiles (fun _ => none) calls).1
      (runCalls (pageFiles Nat) (fun f p => f + p) newFiles (fun _ => none) calls).2 call) :
    MgrRun (pageFiles Nat) (fun f p => f + p) newFiles (fun _ => none) cond
      (runCalls (pageFiles Nat) (fun f p => f + p) newFiles (fun _ => none) (calls ++ [call])).1
      (runCalls (pageFiles Nat) (fun f p => f + p) newFiles (fun _ => none) (calls ++ [call])).2 := by
  rw [runCalls, List.foldl_append]
  exact .call call h hmeets

/-- A page of file 0 is changed and given back as dirty, and a page of file 1 has a pin. -/
def dirtyPage : BufMgr Nat Page (Nat → PageFile) × Clients Nat Page :=
  runCalls (pageFiles Nat) (fun f p => f + p) newFiles (fun _ => none)
    [.allocPage 0, .edit 0 1 ((Page.fresh.set_page_number 1).insertRecord [7]).1, .unPinPage 0 1 true, .allocPage 1]

theorem flushFile_exact_dirty : FlushesExactly (fun f p => f + p) 0 dirtyPage.1 := by
  have h₀ : MgrRun (pageFiles Nat) (fun f p => f + p) newFiles (fun _ => none)
      (fun mgr clients call => call.KeepsNumber (pageFiles Nat) mgr clients)
      (runCalls (pageFiles Nat) (fun f p => f + p) newFiles (fun _ => none) []).1
      (runCalls (pageFiles Nat) (fun f p => f + p) newFiles (fun _ => none) []).2 := .start
  have h₁ := mgrRun_append h₀ (.allocPage 0) trivial
  have hnumber : BufCall.KeepsNumber (pageFiles Nat)
      (runCalls (pageFiles Nat) (fun f p => f + p) newFiles (fun _ => none) [.allocPage 0]).1
      (runCalls (pageFiles Nat) (fun f p => f + p) newFiles (fun _ => none) [.allocPage 0]).2
      (.edit 0 1 ((Page.fresh.set_page_number 1).insertRecord [7]).1) := by
    change Page.page_number _ = Page.page_number _
    decide +kernel
  have h₂ := mgrRun_append h₁ (.edit 0 1 ((Page.fresh.set_page_number 1).insertRecord [7]).1) hnumber
  have h₃ := mgrRun_append h₂ (.unPinPage 0 1 true) trivial
  have h₄ := mgrRun_append h₃ (.allocPage 1) trivial
  refine flushFile_exact (by decide) (fun _ => .refl) h₄ ⟨by decide +kernel, ?_, by decide +kernel⟩
  exact Option.isNone_iff_eq_none.mp (by decide +kernel)

/-- A page of file 0 is dirty, another one has a pin, and page 0 was asked for. -/
def failedStream : BufMgr Nat Page (Nat → PageFile) × Clients Nat Page :=
  runCalls (pageFiles Nat) (fun f p => f + p) newFiles (fun _ => none)
    [.allocPage 0, .unPinPage 0 1 true, .allocPage 0, .readPage 0 0]

/-- The write of the dirty page does not return, so `flushFile` does not get to the pinned one. -/
theorem flushFile_stops : ¬ ∀ (mgr : BufMgr Nat Page (Nat → PageFile)) (clients : Clients Nat Page),
    MgrRun (pageFiles Nat) (fun f p => f + p) newFiles (fun _ => none)
      (fun mgr clients call => call.KeepsNumber (pageFiles Nat) mgr clients) mgr clients →
    ∀ f, FlushesExactly (fun f p => f + p) f mgr := by
  intro hall
  have h₀ : MgrRun (pageFiles Nat) (fun f p => f + p) newFiles (fun _ => none)
      (fun mgr clients call => call.KeepsNumber (pageFiles Nat) mgr clients)
      (runCalls (pageFiles Nat) (fun f p => f + p) newFiles (fun _ => none) []).1
      (runCalls (pageFiles Nat) (fun f p => f + p) newFiles (fun _ => none) []).2 := .start
  have h₁ := mgrRun_append h₀ (.allocPage 0) trivial
  have h₂ := mgrRun_append h₁ (.unPinPage 0 1 true) trivial
  have h₃ := mgrRun_append h₂ (.allocPage 0) trivial
  have h₄ := mgrRun_append h₃ (.readPage 0 0) trivial
  have hexact : FlushesExactly (fun f p => f + p) 0 failedStream.1 := hall _ _ h₄ 0
  have hpinned : failedStream.1.Holds 1 0 2 ∧ 0 < (failedStream.1.bufDescTable 1).pinCnt :=
    ⟨⟨by decide +kernel, by decide +kernel, by decide +kernel, by decide +kernel⟩, by decide +kernel⟩
  obtain ⟨p, i, mgr', hthrow⟩ := hexact.pinned.mpr ⟨1, 2, hpinned⟩
  have hfile : threw (fun e _ => match e with | .file _ => true | _ => false)
      (flushFile (pageFiles Nat) (fun f p => f + p) (some 0) failedStream.1) = true := by
    decide +kernel
  rw [hthrow] at hfile
  exact Bool.false_ne_true hfile

end Cs564.P2
