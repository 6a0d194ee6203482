import Cs564.BTree.Index
import Cs564.Lib.Outcomes
import Cs564.P3Buffer.BlobFile
import Cs564.P3Buffer.Operations

/-!
# The index over the buffer manager

`poolLayer` is the layer below the index as it is in the program: the index calls `BufMgr` with its `File` object, and
its page pointers are frames of the pool.  Other clients use the same pool with other objects (`Other`), the `FileScan`
in the constructor among them.  `Hosts` says that the index file is a blob file, apart from the other files.  These may be
files of any kind, as long as the other clients leave the pages of the pool such that they can be written (`Storable`).
-/

namespace Cs564.BTree

open P2 (BufError BufMgr BufM)
open P3 (FileLayer BlobFile)

/-- What the exceptions of the manager are for the index. -/
def Exc.ofBufError {F : Type} : BufError F → Exc
  | .bufferExceeded => .bufferExceeded
  | .pageNotPinned .. => .pageNotPinned
  | .pagePinned .. => .pagePinned
  | .badBuffer .. => .badBuffer
  | .hashNotFound .. => .hashNotFound
  | .hashAlreadyPresent .. => .hashAlreadyPresent
  | .file (.invalidPage _) => .invalidPage
  | .file .assertion => .indeterminate
  | .file .indeterminate => .indeterminate
  | .file .outOfFuel => .outOfFuel
  | .noFile => .indeterminate
  | .outOfFuel => .outOfFuel

/-- A call of the manager. -/
def onPool {F σ α : Type} (call : BufM F Page σ α) : EStateM Exc (BufMgr F Page σ) α := fun mgr =>
  match call mgr with
  | .ok a mgr' => .ok a mgr'
  | .error e mgr' => .error (.ofBufError e) mgr'

theorem stateAfter_onPool {F σ α : Type} (call : BufM F Page σ α) (mgr : BufMgr F Page σ) :
    stateAfter (onPool call mgr) = stateAfter (call mgr) := by
  rw [onPool]
  cases call mgr <;> rfl

theorem onPool_ok {F σ α : Type} {call : BufM F Page σ α} {mgr m : BufMgr F Page σ} {a : α}
    (run : onPool call mgr = .ok a m) : call mgr = .ok a m := by
  rw [onPool] at run
  cases hcall : call mgr with
  | ok b m' =>
    rw [hcall] at run
    obtain ⟨rfl, rfl⟩ := EStateM.Result.ok.inj run
    rfl
  | error e m' =>
    rw [hcall] at run
    cases run

theorem onPool_error {F σ α : Type} {call : BufM F Page σ α} {mgr m : BufMgr F Page σ} {e : Exc}
    (run : onPool call mgr = .error e m) : ∃ e', call mgr = .error e' m ∧ e = .ofBufError e' := by
  rw [onPool] at run
  cases hcall : call mgr with
  | ok b m' =>
    rw [hcall] at run
    cases run
  | error e' m' =>
    rw [hcall] at run
    obtain ⟨rfl, rfl⟩ := EStateM.Result.error.inj run
    exact ⟨e', rfl, rfl⟩

/-- No other exception of the manager stands for a full pool. -/
theorem Exc.ofBufError_exceeded {F : Type} {e : BufError F} (h : Exc.ofBufError e = .bufferExceeded) :
    e = .bufferExceeded := by
  cases e with
  | bufferExceeded => rfl
  | file e => cases e <;> cases h
  | _ => cases h

/-- The buffer manager as the layer below the index on the object `file`. -/
def poolLayer {F σ : Type} [DecidableEq F] (L : FileLayer F Page σ) (hash : F → PageId → Nat) (file : F) :
    PageLayer (BufMgr F Page σ) FrameId where
  readPage p := onPool (P3.readPage L hash file p)
  allocPage := onPool (P3.allocPage L hash file)
  unPinPage p dirty := onPool (P3.unPinPage hash file p dirty)
  flushFile := onPool (P3.flushFile L hash file)
  load i mgr := mgr.bufPool i
  store i page mgr := { mgr with bufPool := Function.update mgr.bufPool i page }

/-! ### The files -/

section Files

variable {F σ : Type}

/-- Writing page `p` of the object does not throw. -/
def Accepts (L : FileLayer F Page σ) (files : σ) (file : F) (p : PageId) : Prop :=
  ∀ page, ∃ files', L.writePage file p page files = .ok () files'

/-- A call of the object other than `deletePage` leaves `files'`. -/
inductive Leads (L : FileLayer F Page σ) (file : F) (files : σ) : σ → Prop
  | readPage (p : PageId) : Leads L file files (stateAfter (L.readPage file p files))
  | writePage (p : PageId) (page : Page) : Leads L file files (stateAfter (L.writePage file p page files))
  | allocatePage : Leads L file files (stateAfter (L.allocatePage file files))

section Leads

variable {L : FileLayer F Page σ} {file : F} {files files' : σ} {p : PageId}

theorem Leads.read {r : EStateM.Result FileError σ Page} (run : L.readPage file p files = r) :
    Leads L file files (stateAfter r) := run ▸ .readPage p

theorem Leads.write {page : Page} {r : EStateM.Result FileError σ Unit} (run : L.writePage file p page files = r) :
    Leads L file files (stateAfter r) := run ▸ .writePage p page

theorem Leads.allocate {r : EStateM.Result FileError σ (PageId × Page)} (run : L.allocatePage file files = r) :
    Leads L file files (stateAfter r) := run ▸ .allocatePage

end Leads

/-- Writing page `p` of the object with this content takes from no page that it can be written. -/
def Harmless (L : FileLayer F Page σ) (file : F) (p : PageId) (page : Page) : Prop :=
  ∀ ⦃files files'⦄, L.writePage file p page files = .ok () files' → ∀ ⦃g q⦄, Accepts L files g q → Accepts L files' g q

/-- All pages of the pool can be written, and those of the objects without `mine` with no harm to others. -/
structure Storable (L : FileLayer F Page σ) (mine : F → Prop) (mgr : BufMgr F Page σ) : Prop where
  accepts : ∀ i g p, mgr.Holds i g p → Accepts L mgr.files g p
  harmless : ∀ i g p, mgr.Holds i g p → ¬ mine g → Harmless L g p (mgr.bufPool i)

/-- Fewer pages, in files that accept as much. -/
theorem Storable.sub {L : FileLayer F Page σ} {mine : F → Prop} {mgr m : BufMgr F Page σ} (h : Storable L mine mgr)
    (hfiles : ∀ {g p}, Accepts L mgr.files g p → Accepts L m.files g p)
    (hsub : ∀ i g p, m.Holds i g p → mgr.Holds i g p ∧ (¬ mine g → m.bufPool i = mgr.bufPool i)) : Storable L mine m where
  accepts i g p hi := hfiles (h.accepts i g p (hsub i g p hi).1)
  harmless i g p hi hg := by
    obtain ⟨hold, hpage⟩ := hsub i g p hi
    rw [hpage hg]
    exact h.harmless i g p hold hg

/-- The objects with `on` are those of the index file, which is the blob file `blob files`. -/
structure Hosts (L : FileLayer F Page σ) (on : F → Prop) (blob : σ → BlobFile Page) : Prop where
  readPage : ∀ {f}, on f → ∀ files p, ∃ files',
    L.readPage f p files = .ok ((blob files).readPage .fresh p).1 files' ∧ blob files' = ((blob files).readPage .fresh p).2
  writePage : ∀ {f}, on f → ∀ files p page, ∃ files',
    L.writePage f p page files = .ok () files' ∧ blob files' = (blob files).writePage p page
  allocatePage : ∀ {f}, on f → ∀ {files new}, (blob files).allocatePage .fresh = .ok new →
    ∃ files', L.allocatePage f files = .ok new.1 files' ∧ blob files' = new.2
  allocateThrows : ∀ {f}, on f → ∀ {files e}, (blob files).allocatePage .fresh = .error e →
    ∃ files', L.allocatePage f files = .error e files' ∧ blob files' = blob files
  accepts : ∀ {f}, on f → ∀ {g p files files'}, Leads L f files files' → Accepts L files g p → Accepts L files' g p
  elsewhere : ∀ {g}, ¬ on g → ∀ {files files'}, Leads L g files files' → blob files' = blob files
  deleted : ∀ {g}, ¬ on g → ∀ files p, blob (stateAfter (L.deletePage g p files)) = blob files

/-- The pages of the index file can be written. -/
theorem Hosts.acceptsOwn {L : FileLayer F Page σ} {on : F → Prop} {blob : σ → BlobFile Page} (hL : Hosts L on blob)
    {f : F} (hf : on f) (files : σ) (p : PageId) : Accepts L files f p := by
  intro page
  obtain ⟨files', hrun, -⟩ := hL.writePage hf files p page
  exact ⟨files', hrun⟩

/-- Objects of blob files, the index file being the one with the name `name`. -/
theorem blobFiles_hosts {N : Type} [DecidableEq N] (filename : F → N) (name : N) :
    Hosts (P3.blobFiles filename .fresh) (fun f => filename f = name) (fun files => files name) where
  readPage := by
    rintro f rfl files p
    exact ⟨_, rfl, Function.update_self ..⟩
  writePage := by
    rintro f rfl files p page
    exact ⟨_, rfl, Function.update_self ..⟩
  allocatePage := by
    rintro f rfl files new hnew
    refine ⟨Function.update files (filename f) new.2, ?_, Function.update_self ..⟩
    simp only [P3.blobFiles, hnew]
  allocateThrows := by
    rintro f rfl files e he
    refine ⟨files, ?_, rfl⟩
    simp only [P3.blobFiles, he]
  elsewhere := by
    intro g hg files files' hleads
    have hne : name ≠ filename g := Ne.symm hg
    cases hleads with
    | readPage p => exact Function.update_of_ne hne ..
    | writePage p page => exact Function.update_of_ne hne ..
    | allocatePage =>
      simp only [P3.blobFiles]
      cases (files (filename g)).allocatePage Page.fresh with
      | ok new => exact Function.update_of_ne hne ..
      | error e => rfl
  accepts _ _ _ _ _ _ _ _ := ⟨_, rfl⟩
  deleted _ _ _ := rfl

/-- Pages of blob files can always be written. -/
theorem blobFiles_storable {N : Type} [DecidableEq N] (filename : F → N) (mine : F → Prop)
    (mgr : BufMgr F Page (N → BlobFile Page)) : Storable (P3.blobFiles filename .fresh) mine mgr where
  accepts _ _ _ _ _ := ⟨_, rfl⟩
  harmless _ _ _ _ _ _ _ _ _ _ _ _ := ⟨_, rfl⟩

end Files

/-! ### Other clients -/

section Other

variable {F σ : Type} [DecidableEq F]

/-- What another client does, with an object that is not one of the index file: a call of the manager, whether it returns
or throws, or a change of a page through its pointer.  No page is deleted or allocated anew while the pool has it, and the
pages that the pool has then can be written. -/
inductive Other (L : FileLayer F Page σ) (hash : F → PageId → Nat) (on : F → Prop) (mgr : BufMgr F Page σ) :
    BufMgr F Page σ → Prop
  | readPage {g : F} (elsewhere : ¬ on g) (p : PageId)
      (kept : Storable L on (stateAfter (P3.readPage L hash g p mgr))) :
      Other L hash on mgr (stateAfter (P3.readPage L hash g p mgr))
  | allocPage {g : F} (elsewhere : ¬ on g)
      (anew : ∀ h p i m, P3.allocPage L hash g mgr ≠ .error (.hashAlreadyPresent h p i) m)
      (kept : Storable L on (stateAfter (P3.allocPage L hash g mgr))) :
      Other L hash on mgr (stateAfter (P3.allocPage L hash g mgr))
  | unPinPage {g : F} (elsewhere : ¬ on g) (p : PageId) (dirty : Bool) :
      Other L hash on mgr (stateAfter (P3.unPinPage hash g p dirty mgr))
  | flushFile {g : F} (elsewhere : ¬ on g) : Other L hash on mgr (stateAfter (P3.flushFile L hash g mgr))
  | disposePage {g : F} (elsewhere : ¬ on g) (p : PageId)
      (kept : Storable L on (stateAfter (P3.disposePage L hash g p mgr))) :
      Other L hash on mgr (stateAfter (P3.disposePage L hash g p mgr))
  | edit {g : F} (elsewhere : ¬ on g) {i : FrameId} {p : PageId} (holds : mgr.Holds i g p) (page : Page)
      (harmless : Harmless L g p page) :
      Other L hash on mgr { mgr with bufPool := Function.update mgr.bufPool i page }

/-- The constructor inserts the pairs that a `FileScan` finds, while the scan uses the pool. -/
inductive Feeds (L : FileLayer F Page σ) (hash : F → PageId → Nat) (on : F → Prop) (file : F) :
    List (Int × RecordId) → World (BufMgr F Page σ) FrameId → World (BufMgr F Page σ) FrameId → Prop
  | none {w : World (BufMgr F Page σ) FrameId} : Feeds L hash on file [] w w
  | insert {entries : List (Int × RecordId)} {w w₁ w₂ : World (BufMgr F Page σ) FrameId}
      (before : Feeds L hash on file entries w w₁) {key : Int} {rid : RecordId}
      (run : insertEntry (poolLayer L hash file) key rid w₁ = .ok () w₂) :
      Feeds L hash on file (entries ++ [(key, rid)]) w w₂
  | other {entries : List (Int × RecordId)} {w w₁ : World (BufMgr F Page σ) FrameId}
      (before : Feeds L hash on file entries w w₁) {mgr : BufMgr F Page σ} (step : Other L hash on w₁.pages mgr) :
      Feeds L hash on file entries w { w₁ with pages := mgr }

/-- The constructor builds a new index file over the pool, for a relation with the given pairs, and returns. -/
inductive Constructs (L : FileLayer F Page σ) (hash : F → PageId → Nat) (on : F → Prop) (file : F)
    (relationName : Nat → Nat) (nameLength : Nat) (attrByteOffset : Int) (attrType : Datatype)
    (entries : List (Int × RecordId)) (w w' : World (BufMgr F Page σ) FrameId) : Prop
  | intro {ids : PageId × PageId} {w₁ w₂ : World (BufMgr F Page σ) FrameId}
      (begins : constructPages (poolLayer L hash file) relationName nameLength attrByteOffset attrType w = .ok ids w₁)
      (feeds : Feeds L hash on file entries w₁ w₂)
      (ends : constructEnd (poolLayer L hash file) ids.1 ids.2 w₂ = .ok () w')

/-- `getFirstPageNo` of the index file. -/
def getFirstPageNo (blob : σ → BlobFile Page) : EStateM Exc (BufMgr F Page σ) PageId := fun mgr =>
  match (blob mgr.files).getFirstPageNo with
  | .ok p => .ok p mgr
  | .error _ => .error .indeterminate mgr

end Other

end Cs564.BTree
