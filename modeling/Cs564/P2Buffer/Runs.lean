import Cs564.P2Buffer.Operations
import Mathlib.Data.List.Induction

/-!
# Runs of a buffer manager with its clients

The calls that clients make, and the changes they make to a page through the pointer they got for it (`BufCall.edit`).
Beside the manager goes a record of the calls that returned (`Clients`): the pins of each page, counted from the call
that brought it into the pool, the pointer, and the contents of each page after all changes so far.
`BufCall.outcome` says what one call does to both, on every exit.
-/

namespace Cs564.P2

/-- What clients do; `flushFile` also with `File()`. -/
inductive BufCall (F P : Type) where
  | readPage (file : F) (pageNo : PageId)
  | allocPage (file : F)
  | unPinPage (file : F) (pageNo : PageId) (dirty : Bool)
  | flushFile (file : Option F)
  | disposePage (file : F) (pageNo : PageId)
  | edit (file : F) (pageNo : PageId) (page : P)

/-- What the clients know of each page: its pins since it was brought into the pool, the pointer to it, its contents,
and whether it was changed after the last `unPinPage` that marked it as dirty. -/
structure Clients (F P : Type) where
  pins : F × PageId → Int
  pointer : F × PageId → FrameId
  contents : F × PageId → Option P
  pending : F × PageId → Bool

namespace Clients

variable {F P : Type}

/-- Before the first call. -/
def new (contents : F × PageId → Option P) : Clients F P :=
  { pins := fun _ => 0, pointer := fun _ => 0, contents := contents, pending := fun _ => false }

variable [DecidableEq F] (clients : Clients F P) (f : F) (p : PageId)

/-- A call returned a pointer to the page, which was in the pool before or not. -/
def took (fid : FrameId) (cached : Bool) : Clients F P :=
  { clients with pins := Function.update clients.pins (f, p) (if cached then clients.pins (f, p) + 1 else 1)
                 pointer := Function.update clients.pointer (f, p) fid }

/-- `unPinPage` returned. -/
def gaveBack (dirty : Bool) : Clients F P :=
  { clients with pins := Function.update clients.pins (f, p) (clients.pins (f, p) - 1)
                 pending := if dirty then Function.update clients.pending (f, p) false else clients.pending }

/-- The page is new. -/
def started (page : P) : Clients F P :=
  { clients with contents := Function.update clients.contents (f, p) (some page)
                 pending := Function.update clients.pending (f, p) false }

/-- `disposePage` returned. -/
def disposed : Clients F P :=
  { clients with pins := Function.update clients.pins (f, p) 0
                 contents := Function.update clients.contents (f, p) none
                 pending := Function.update clients.pending (f, p) false }

/-- The page was changed. -/
def edited (page : P) : Clients F P :=
  { clients with contents := Function.update clients.contents (f, p) (some page)
                 pending := Function.update clients.pending (f, p) true }

end Clients

variable {F P σ : Type} [DecidableEq F]

/-- Some frame holds the page. -/
def BufMgr.cached (mgr : BufMgr F P σ) (f : F) (p : PageId) : Bool :=
  (List.range mgr.numBufs).any fun i =>
    (mgr.bufDescTable i).valid && (mgr.bufDescTable i).file == some f && (mgr.bufDescTable i).pageNo == p

theorem BufMgr.cached_iff {mgr : BufMgr F P σ} {f : F} {p : PageId} :
    mgr.cached f p = true ↔ ∃ i, mgr.Holds i f p := by
  rw [BufMgr.cached, List.any_eq_true]
  refine exists_congr fun i => ?_
  rw [List.mem_range, Bool.and_eq_true, Bool.and_eq_true, beq_iff_eq, beq_iff_eq]
  constructor
  · rintro ⟨hlt, ⟨hvalid, hfile⟩, hpage⟩
    exact ⟨hlt, hvalid, hfile, hpage⟩
  · rintro ⟨hlt, hvalid, hfile, hpage⟩
    exact ⟨hlt, ⟨hvalid, hfile⟩, hpage⟩

/-- The manager and the clients after the call, whether it returns or throws. -/
def BufCall.run (L : FileLayer F P σ) (hash : F → PageId → Nat) (mgr : BufMgr F P σ) (clients : Clients F P) :
    BufCall F P → BufMgr F P σ × Clients F P
  | readPage f p =>
    match P2.readPage L hash f p mgr with
    | .ok fid mgr' => (mgr', clients.took f p fid (mgr.cached f p))
    | .error _ mgr' => (mgr', clients)
  | allocPage f =>
    match P2.allocPage L hash f mgr with
    | .ok new mgr' =>
      (mgr', (clients.took f new.1 new.2 (mgr.cached f new.1)).started f new.1 (mgr'.bufPool new.2))
    | .error _ mgr' => (mgr', clients)
  | unPinPage f p dirty =>
    match P2.unPinPage hash f p dirty mgr with
    | .ok () mgr' => (mgr', clients.gaveBack f p dirty)
    | .error _ mgr' => (mgr', clients)
  | flushFile f =>
    match P2.flushFile L hash f mgr with
    | .ok () mgr' => (mgr', clients)
    | .error _ mgr' => (mgr', clients)
  | disposePage f p =>
    match P2.disposePage L hash f p mgr with
    | .ok () mgr' => (mgr', clients.disposed f p)
    | .error _ mgr' => (mgr', clients)
  | edit f p page =>
    ({ mgr with bufPool := Function.update mgr.bufPool (clients.pointer (f, p)) page }, clients.edited f p page)

/-- The states that calls lead to from a new manager over `files`, each call meeting `cond`. -/
inductive BufRun (L : FileLayer F P σ) (hash : F → PageId → Nat) (start : BufMgr F P σ) (contents : F × PageId → Option P)
    (cond : Clients F P → BufCall F P → Prop) : BufMgr F P σ → Clients F P → Prop where
  | start : BufRun L hash start contents cond start (.new contents)
  | call {mgr : BufMgr F P σ} {clients : Clients F P} (call : BufCall F P)
      (before : BufRun L hash start contents cond mgr clients) (meets : cond clients call) :
      BufRun L hash start contents cond (call.run L hash mgr clients).1 (call.run L hash mgr clients).2

/-- What a call can do to the manager and the clients. -/
inductive Outcome (L : FileLayer F P σ) (hash : F → PageId → Nat) (mgr : BufMgr F P σ) (clients : Clients F P) :
    BufCall F P → BufMgr F P σ → Clients F P → Prop where
  | quiet {call : BufCall F P} {mgr' : BufMgr F P σ} (steps : BufMgr.QuietSteps L hash mgr mgr') :
      Outcome L hash mgr clients call mgr' clients
  | pinned {i : FrameId} {f : F} {p : PageId} (holds : mgr.Holds i f p) :
      Outcome L hash mgr clients (.readPage f p) (mgr.withDesc i (mgr.bufDescTable i).pinned) (clients.took f p i true)
  | read {mgr₁ : BufMgr F P σ} {i : FrameId} {f : F} {p : PageId} {page : P} {files : σ} {table : BufHashTbl F}
      (absent : ∀ j, ¬ mgr.Holds j f p) (steps : BufMgr.QuietSteps L hash mgr mgr₁)
      (run : L.readPage f p mgr₁.files = .ok page files) (loads : Loads hash mgr₁ i f p table) :
      Outcome L hash mgr clients (.readPage f p) ((mgr₁.withFiles files).occupy i table f p page)
        (clients.took f p i false)
  | allocated {mgr₁ : BufMgr F P σ} {i : FrameId} {f : F} {page : P} {files : σ} {table : BufHashTbl F}
      (steps : BufMgr.QuietSteps L hash mgr mgr₁) (run : L.allocatePage f mgr₁.files = .ok page files)
      (loads : Loads hash mgr₁ i f (L.page_number page) table) :
      Outcome L hash mgr clients (.allocPage f) ((mgr₁.withFiles files).occupy i table f (L.page_number page) page)
        ((clients.took f (L.page_number page) i (mgr.cached f (L.page_number page))).started f (L.page_number page) page)
  | unpinned {i : FrameId} {f : F} {p : PageId} {dirty : Bool} (holds : mgr.Holds i f p)
      (pins : 0 < (mgr.bufDescTable i).pinCnt) :
      Outcome L hash mgr clients (.unPinPage f p dirty) (mgr.withDesc i ((mgr.bufDescTable i).unpinned dirty))
        (clients.gaveBack f p dirty)
  | unpinnedAbsent {f : F} {p : PageId} {dirty : Bool} (absent : ∀ i, ¬ mgr.Holds i f p) :
      Outcome L hash mgr clients (.unPinPage f p dirty) mgr (clients.gaveBack f p dirty)
  | disposed {i : FrameId} {f : F} {p : PageId} {table : BufHashTbl F} {files : σ} (holds : mgr.Holds i f p)
      (removed : mgr.hashTable.remove hash f p = .ok table) (run : L.deletePage f p mgr.files = .ok () files) :
      Outcome L hash mgr clients (.disposePage f p) ((mgr.vacate i table).withFiles files) (clients.disposed f p)
  | disposedAbsent {f : F} {p : PageId} {files : σ} (absent : ∀ i, ¬ mgr.Holds i f p)
      (run : L.deletePage f p mgr.files = .ok () files) :
      Outcome L hash mgr clients (.disposePage f p) (mgr.withFiles files) (clients.disposed f p)
  | dropped {i : FrameId} {f : F} {p : PageId} {table : BufHashTbl F} {files : σ} {e : FileError}
      (holds : mgr.Holds i f p) (removed : mgr.hashTable.remove hash f p = .ok table)
      (run : L.deletePage f p mgr.files = .error e files) :
      Outcome L hash mgr clients (.disposePage f p) ((mgr.vacate i table).withFiles files) clients
  | edited {f : F} {p : PageId} {page : P} :
      Outcome L hash mgr clients (.edit f p page)
        { mgr with bufPool := Function.update mgr.bufPool (clients.pointer (f, p)) page } (clients.edited f p page)

variable {L : FileLayer F P σ} {hash : F → PageId → Nat} {mgr : BufMgr F P σ} {clients : Clients F P}

/-- One call. -/
theorem BufCall.outcome (h : mgr.Agree hash) (clients : Clients F P) (call : BufCall F P) :
    Outcome L hash mgr clients call (call.run L hash mgr clients).1 (call.run L hash mgr clients).2 := by
  cases call with
  | readPage f p =>
    rcases readPage_cases (L := L) h f p with
      ⟨i, hi, hrun⟩ | ⟨hno, ⟨e, mgr₁, hrun, hq⟩ | ⟨mgr₁, i, page, files, table, hq, hread, hload, hrun⟩⟩
    · have hcached : mgr.cached f p = true := BufMgr.cached_iff.mpr ⟨i, hi⟩
      simp only [BufCall.run, hrun, hcached]
      exact .pinned hi
    · simp only [BufCall.run, hrun]
      exact .quiet hq
    · have hcached : mgr.cached f p = false :=
        Bool.eq_false_iff.mpr fun htrue => not_exists.mpr hno (BufMgr.cached_iff.mp htrue)
      simp only [BufCall.run, hrun, hcached]
      exact .read hno hq hread hload
  | allocPage f =>
    rcases allocPage_cases (L := L) h f with
      ⟨e, mgr₁, hrun, hq⟩ | ⟨mgr₁, i, page, files, table, hq, hnew, hload, hrun⟩
    · simp only [BufCall.run, hrun]
      exact .quiet hq
    · have hpage : ((mgr₁.withFiles files).occupy i table f (L.page_number page) page).bufPool i = page :=
        Function.update_self ..
      simp only [BufCall.run, hrun, hpage]
      exact .allocated hq hnew hload
  | unPinPage f p dirty =>
    rcases unPinPage_cases h f p dirty with ⟨hno, hrun⟩ | ⟨i, hi, -, hrun⟩ | ⟨i, hi, hpos, hrun⟩
    · simp only [BufCall.run, hrun]
      exact .unpinnedAbsent hno
    · simp only [BufCall.run, hrun]
      exact .quiet .refl
    · simp only [BufCall.run, hrun]
      exact .unpinned hi hpos
  | flushFile file =>
    cases file with
    | none =>
      rcases flushFile_none (L := L) h with ⟨-, hrun⟩ | ⟨i, -, -, hrun⟩
      · simp only [BufCall.run, hrun]
        exact .quiet .refl
      · simp only [BufCall.run, hrun]
        exact .quiet .refl
    | some f =>
      rcases flushFile_quiet (L := L) h f with ⟨e, mgr', hrun, hq, -⟩ | ⟨_, mgr', hrun, hq, -⟩
      · simp only [BufCall.run, hrun]
        exact .quiet hq
      · simp only [BufCall.run, hrun]
        exact .quiet hq
  | disposePage f p =>
    rcases disposePage_cases (L := L) h f p with ⟨hno, hrun⟩ | ⟨i, table, hi, hremove, hrun⟩
    · cases hdelete : L.deletePage f p mgr.files with
      | ok _ files =>
        simp only [BufCall.run, hrun, onFiles_ok hdelete]
        exact .disposedAbsent hno hdelete
      | error e files =>
        simp only [BufCall.run, hrun, onFiles_error hdelete]
        exact .quiet (.single (.failed (.deletePage f p e hdelete)))
    · cases hdelete : L.deletePage f p mgr.files with
      | ok _ files =>
        have hrun' := hrun.trans (onFiles_ok hdelete)
        simp only [BufCall.run, hrun']
        exact .disposed hi hremove hdelete
      | error e files =>
        have hrun' := hrun.trans (onFiles_error hdelete)
        simp only [BufCall.run, hrun']
        exact .dropped hi hremove hdelete
  | edit f p page => exact .edited

/-- A page is put into a frame. -/
theorem Loads.agree {i : FrameId} {f : F} {p : PageId} {table : BufHashTbl F} (loads : Loads hash mgr i f p table)
    (h : mgr.Agree hash) (files : σ) (page : P) : ((mgr.withFiles files).occupy i table f p page).Agree hash := by
  obtain ⟨table', hinsert, hagree⟩ := h.occupy loads.lt loads.invalid loads.absent page
  rw [Except.ok.inj (loads.inserted.symm.trans hinsert)]
  exact hagree.withFiles files

/-- One call keeps the tables in agreement. -/
theorem Outcome.agree {call : BufCall F P} {mgr' : BufMgr F P σ} {clients' : Clients F P} (h : mgr.Agree hash)
    (ho : Outcome L hash mgr clients call mgr' clients') : mgr'.Agree hash := by
  cases ho with
  | quiet steps => exact steps.agree h
  | pinned holds => exact h.withDesc holds ⟨holds.2.valid, holds.2.file, holds.2.pageNo⟩
  | read absent steps run loads => exact loads.agree (steps.agree h) _ _
  | allocated steps run loads => exact loads.agree (steps.agree h) _ _
  | unpinned holds pins => exact h.withDesc holds ⟨holds.2.valid, holds.2.file, holds.2.pageNo⟩
  | unpinnedAbsent absent => exact h
  | disposed holds removed run =>
    obtain ⟨table, hremove, hagree⟩ := h.vacate holds
    rw [Except.ok.inj (removed.symm.trans hremove)]
    exact hagree.withFiles _
  | disposedAbsent absent run => exact h.withFiles _
  | dropped holds removed run =>
    obtain ⟨table, hremove, hagree⟩ := h.vacate holds
    rw [Except.ok.inj (removed.symm.trans hremove)]
    exact hagree.withFiles _
  | edited => exact h.withPool _

variable {start : BufMgr F P σ} {contents : F × PageId → Option P} {cond : Clients F P → BufCall F P → Prop}

/-- In every run the tables agree. -/
theorem BufRun.agree (hstart : start.Agree hash) (hrun : BufRun L hash start contents cond mgr clients) :
    mgr.Agree hash := by
  induction hrun with
  | start => exact hstart
  | call call _ _ ih => exact (call.outcome ih _).agree ih

/-- The hash table maps exactly the pages in valid frames to these frames, a page is in one frame only, invalid frames
are empty, and `flushFile` of a file with a name meets no invalid frame.  The file of `File()` is that of the invalid
frames: `flushFile` throws for it as long as there is one, and does nothing otherwise. -/
structure TablesAgree (L : FileLayer F P σ) (hash : F → PageId → Nat) (mgr : BufMgr F P σ) : Prop where
  maps : ∀ f p i, mgr.hashTable.lookup hash f p = .ok i ↔ i < mgr.numBufs ∧ (mgr.bufDescTable i).valid = true ∧
    (mgr.bufDescTable i).file = some f ∧ (mgr.bufDescTable i).pageNo = p
  distinct : ∀ i j, i < mgr.numBufs → j < mgr.numBufs → (mgr.bufDescTable i).valid = true →
    (mgr.bufDescTable j).valid = true → (mgr.bufDescTable i).file = (mgr.bufDescTable j).file →
    (mgr.bufDescTable i).pageNo = (mgr.bufDescTable j).pageNo → i = j
  cleared : ∀ i, i < mgr.numBufs → (mgr.bufDescTable i).valid = false →
    (mgr.bufDescTable i).pinCnt = 0 ∧ (mgr.bufDescTable i).dirty = false ∧ (mgr.bufDescTable i).file = none
  flush : ∀ (f : F) i dirty valid refbit mgr', flushFile L hash f mgr ≠ .error (.badBuffer i dirty valid refbit) mgr'
  flushNone : (∀ i < mgr.numBufs, (mgr.bufDescTable i).valid = true) ∧ flushFile L hash none mgr = .ok () mgr ∨
    ∃ i < mgr.numBufs, (mgr.bufDescTable i).valid = false ∧ flushFile L hash none mgr =
      .error (.badBuffer i (mgr.bufDescTable i).dirty false (mgr.bufDescTable i).refbit) mgr

/-- In every run over any files the hash table and the frame table agree. -/
theorem tables_agree {bufs : Nat} (hbufs : 1 ≤ bufs) {page : P} {files : σ}
    (hrun : BufRun L hash (.new bufs page files) contents (fun _ _ => True) mgr clients) : TablesAgree L hash mgr := by
  have h := hrun.agree (BufMgr.agree_new hbufs page files)
  constructor
  · intro f p i
    constructor
    · intro hlookup
      rw [BufHashTbl.lookup_eq] at hlookup
      cases hentry : mgr.hashTable.entry hash f p with
      | none =>
        rw [hentry] at hlookup
        cases hlookup
      | some j =>
        rw [hentry] at hlookup
        obtain ⟨hlt, his⟩ := (h.entry_iff f p j).mp hentry
        rw [← Except.ok.inj hlookup]
        exact ⟨hlt, his.valid, his.file, his.pageNo⟩
    · rintro ⟨hlt, hvalid, hfile, hpage⟩
      exact h.lookup_some ⟨hlt, hvalid, hfile, hpage⟩
  · intro i j hi hj hvi hvj hfile hpage
    obtain ⟨f, hf⟩ := (h.tidy i hi).named hvi
    exact h.unique ⟨hi, hvi, hf, rfl⟩ ⟨hj, hvj, hfile.symm.trans hf, hpage.symm⟩
  · intro i hi hinvalid
    exact (h.tidy i hi).cleared hinvalid
  · intro f i dirty valid refbit mgr' hbad
    rcases flushFile_quiet (L := L) h f with ⟨e, mgr₁, hrun, -, he⟩ | ⟨_, mgr₁, hrun, -, -⟩
    · rw [hrun] at hbad
      injection hbad with he'
      exact he i dirty valid refbit he'
    · rw [hrun] at hbad
      cases hbad
  · exact flushFile_none h

/-! ### Runs on fixed calls -/

/-- The state after the calls in order. -/
def runCalls (L : FileLayer F P σ) (hash : F → PageId → Nat) (start : BufMgr F P σ) (contents : F × PageId → Option P)
    (calls : List (BufCall F P)) : BufMgr F P σ × Clients F P :=
  calls.foldl (fun state call => call.run L hash state.1 state.2) (start, .new contents)

/-- One more call in a run of `runCalls`. -/
theorem bufRun_append {calls : List (BufCall F P)}
    (h : BufRun L hash start contents cond (runCalls L hash start contents calls).1
      (runCalls L hash start contents calls).2) (call : BufCall F P)
    (hmeets : cond (runCalls L hash start contents calls).2 call) :
    BufRun L hash start contents cond (runCalls L hash start contents (calls ++ [call])).1
      (runCalls L hash start contents (calls ++ [call])).2 := by
  rw [runCalls, List.foldl_append]
  exact .call call h hmeets

/-- A run of any calls. -/
theorem bufRun_runCalls (L : FileLayer F P σ) (hash : F → PageId → Nat) (start : BufMgr F P σ)
    (contents : F × PageId → Option P) (calls : List (BufCall F P)) :
    BufRun L hash start contents (fun _ _ => True) (runCalls L hash start contents calls).1
      (runCalls L hash start contents calls).2 := by
  induction calls using List.reverseRecOn with
  | nil => exact .start
  | append_singleton calls call ih => exact bufRun_append ih call trivial

/-- A call of one file. -/
def onFile {α : Type} (f : F) (code : FileM α) : EStateM FileError (F → PageFile) α := fun files =>
  match code (files f) with
  | .ok a file => .ok a (Function.update files f file)
  | .error e file => .error e (Function.update files f file)

/-- Page files under the manager. -/
def pageFiles (F : Type) [DecidableEq F] : FileLayer F Page (F → PageFile) where
  readPage f p := onFile f (PageFile.readPage p)
  writePage f page := onFile f (PageFile.writePage page.page_number page)
  allocatePage f := onFile f do
    let allocated ← PageFile.allocatePage
    return allocated.1
  deletePage f p := onFile f (PageFile.deletePage p)
  page_number := Page.page_number

/-- Two frames for the pages of two page files. -/
def smallRun : BufMgr Nat Page (Nat → PageFile) × Clients Nat Page :=
  runCalls (pageFiles Nat) (fun f p => f + p) (.new 2 Page.fresh fun _ => .create) (fun _ => none)
    [.allocPage 0, .allocPage 1, .allocPage 0, .unPinPage 0 1 true, .readPage 0 7, .allocPage 0]

/-- A new manager has an invalid frame, and `File()` has its file. -/
theorem flushFile_noName : ¬ ∀ (mgr : BufMgr Nat Page (Nat → PageFile)) (clients : Clients Nat Page),
    BufRun (pageFiles Nat) (fun f p => f + p) (.new 1 Page.fresh fun _ => .create) (fun _ => none) (fun _ _ => True)
      mgr clients →
    ∀ (file : Option Nat) i dirty valid refbit mgr',
      flushFile (pageFiles Nat) (fun f p => f + p) file mgr ≠ .error (.badBuffer i dirty valid refbit) mgr' := by
  intro h
  exact h _ _ .start none 0 false false false _ rfl

theorem tables_agree_small : TablesAgree (pageFiles Nat) (fun f p => f + p) smallRun.1 :=
  tables_agree (by decide) (bufRun_runCalls ..)

end Cs564.P2
