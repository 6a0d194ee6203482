import Cs564.P2Buffer.Agreement
import Mathlib.Logic.Relation

/-!
# What the operations do

An operation takes quiet steps (`Quiet`): reference bits and the clock hand move, unpinned pages are evicted, and a call
of a file fails.  On top of that `readPage`, `allocPage`, `unPinPage` and `disposePage` make at most one change that the
client asked for.  `readPage_cases` and the like say so for each operation; they hold of every file layer.
-/

namespace Cs564.P2

variable {F P σ : Type} [DecidableEq F]

/-- A call of a file throws and leaves `files'`. -/
inductive FileLayer.Fails (L : FileLayer F P σ) (files files' : σ) : Prop where
  | readPage (f : F) (p : PageId) (e : FileError) (run : L.readPage f p files = .error e files')
  | writePage (f : F) (page : P) (e : FileError) (run : L.writePage f page files = .error e files')
  | allocatePage (f : F) (e : FileError) (run : L.allocatePage f files = .error e files')
  | deletePage (f : F) (p : PageId) (e : FileError) (run : L.deletePage f p files = .error e files')

namespace BufMgr

/-- The clock hand and reference bits have moved. -/
structure Touched (mgr mgr' : BufMgr F P σ) : Prop where
  numBufs : mgr'.numBufs = mgr.numBufs
  hashTable : mgr'.hashTable = mgr.hashTable
  bufPool : mgr'.bufPool = mgr.bufPool
  files : mgr'.files = mgr.files
  hand : mgr'.clockHand < mgr'.numBufs
  desc : ∀ i, mgr'.bufDescTable i = { mgr.bufDescTable i with refbit := (mgr'.bufDescTable i).refbit }

/-- The files after the page in frame `i` has been written if it is dirty. -/
def Written (L : FileLayer F P σ) (mgr : BufMgr F P σ) (i : FrameId) (f : F) (files : σ) : Prop :=
  if (mgr.bufDescTable i).dirty then L.writePage f (mgr.bufPool i) mgr.files = .ok () files else files = mgr.files

/-- A step that the client has not asked for.  In `orphan` a file has allocated a page that is in the pool already. -/
inductive Quiet (L : FileLayer F P σ) (hash : F → PageId → Nat) (mgr : BufMgr F P σ) : BufMgr F P σ → Prop where
  | touched {mgr' : BufMgr F P σ} (t : mgr.Touched mgr') : Quiet L hash mgr mgr'
  | evicted {i : FrameId} {f : F} {p : PageId} {files : σ} {table : BufHashTbl F} (holds : mgr.Holds i f p)
      (unpinned : (mgr.bufDescTable i).pinCnt = 0) (written : mgr.Written L i f files)
      (removed : mgr.hashTable.remove hash f p = .ok table) : Quiet L hash mgr ((mgr.withFiles files).vacate i table)
  | failed {files : σ} (fails : L.Fails mgr.files files) : Quiet L hash mgr (mgr.withFiles files)
  | orphan {i j : FrameId} {f : F} {page : P} {files : σ} (invalid : (mgr.bufDescTable i).valid = false)
      (run : L.allocatePage f mgr.files = .ok page files) (holds : mgr.Holds j f (L.page_number page)) :
      Quiet L hash mgr { mgr with files := files, bufPool := Function.update mgr.bufPool i page }

/-- Quiet steps. -/
abbrev QuietSteps (L : FileLayer F P σ) (hash : F → PageId → Nat) : BufMgr F P σ → BufMgr F P σ → Prop :=
  Relation.ReflTransGen (Quiet L hash)

variable {L : FileLayer F P σ} {hash : F → PageId → Nat} {mgr mgr' : BufMgr F P σ}

section Touched

omit [DecidableEq F]

theorem Touched.refl (hhand : mgr.clockHand < mgr.numBufs) : mgr.Touched mgr :=
  ⟨rfl, rfl, rfl, rfl, hhand, fun _ => rfl⟩

/-- `advanceClock`. -/
theorem touched_advance (hpos : 0 < mgr.numBufs) :
    mgr.Touched { mgr with clockHand := (mgr.clockHand + 1) % mgr.numBufs } :=
  ⟨rfl, rfl, rfl, rfl, Nat.mod_lt _ hpos, fun _ => rfl⟩

/-- A reference bit is cleared and the hand moves on. -/
theorem touched_refbit (hpos : 0 < mgr.numBufs) (i : FrameId) :
    mgr.Touched { mgr with
      bufDescTable := Function.update mgr.bufDescTable i { mgr.bufDescTable i with refbit := false }
      clockHand := (mgr.clockHand + 1) % mgr.numBufs } := by
  refine ⟨rfl, rfl, rfl, rfl, Nat.mod_lt _ hpos, fun j => ?_⟩
  dsimp only
  by_cases hj : j = i
  · subst hj
    rw [Function.update_self]
  · rw [Function.update_of_ne hj]

theorem Touched.holds_iff (t : mgr.Touched mgr') {i : FrameId} {f : F} {p : PageId} :
    mgr'.Holds i f p ↔ mgr.Holds i f p := by
  have hdesc : (mgr'.bufDescTable i).Is f p ↔ (mgr.bufDescTable i).Is f p := by
    refine BufDesc.is_congr ?_ ?_ ?_ <;> rw [t.desc i]
  unfold Holds
  rw [t.numBufs, hdesc]

end Touched

theorem Agree.touched (h : mgr.Agree hash) (t : mgr.Touched mgr') : mgr'.Agree hash where
  pos := t.numBufs ▸ h.pos
  hand := t.hand
  distinct := t.hashTable ▸ h.distinct
  entry_iff f p i := by
    rw [t.hashTable, t.holds_iff]
    exact h.entry_iff f p i
  tidy i hi := by
    have ht := h.tidy i (t.numBufs ▸ hi)
    rw [t.desc i]
    exact ⟨ht.named, ht.cleared⟩

/-- What a quiet step does to the frames that hold pages. -/
theorem Quiet.holds_of (hq : Quiet L hash mgr mgr') {i : FrameId} {f : F} {p : PageId} (hi : mgr'.Holds i f p) :
    mgr.Holds i f p := by
  cases hq with
  | touched t => exact t.holds_iff.mp hi
  | evicted => exact (holds_vacate.mp hi).2
  | failed => exact hi
  | orphan => exact hi

theorem Quiet.agree (hq : Quiet L hash mgr mgr') (h : mgr.Agree hash) : mgr'.Agree hash := by
  cases hq with
  | touched t => exact h.touched t
  | evicted holds _ _ removed =>
    obtain ⟨table', hremove, hagree⟩ := h.vacate holds
    have htable := Except.ok.inj (removed.symm.trans hremove)
    rw [htable]
    exact hagree.withFiles _
  | failed => exact h.withFiles _
  | orphan => exact ⟨h.pos, h.hand, h.distinct, h.entry_iff, h.tidy⟩

theorem QuietSteps.agree (hq : QuietSteps L hash mgr mgr') (h : mgr.Agree hash) : mgr'.Agree hash := by
  induction hq with
  | refl => exact h
  | tail _ hstep ih => exact hstep.agree ih

theorem QuietSteps.holds_of (hq : QuietSteps L hash mgr mgr') {i : FrameId} {f : F} {p : PageId}
    (hi : mgr'.Holds i f p) : mgr.Holds i f p := by
  induction hq with
  | refl => exact hi
  | tail _ hstep ih => exact ih (hstep.holds_of hi)

end BufMgr

open BufMgr

variable {L : FileLayer F P σ} {hash : F → PageId → Nat} {mgr : BufMgr F P σ}

/-- The code ends after quiet steps: it throws, but not `BadBufferException`, or `post` holds of what it returns. -/
def QuietRun (L : FileLayer F P σ) (hash : F → PageId → Nat) {α : Type} (code : BufM F P σ α) (mgr : BufMgr F P σ)
    (post : α → BufMgr F P σ → Prop) : Prop :=
  (∃ e mgr', code mgr = .error e mgr' ∧ QuietSteps L hash mgr mgr' ∧ ∀ i dirty valid refbit,
    e ≠ .badBuffer i dirty valid refbit) ∨
  ∃ a mgr', code mgr = .ok a mgr' ∧ QuietSteps L hash mgr mgr' ∧ post a mgr'

section Files

variable {α : Type} {call : EStateM FileError σ α}

omit [DecidableEq F]

theorem onFiles_ok {a : α} {files : σ} (h : call mgr.files = .ok a files) :
    (onFiles call : BufM F P σ α) mgr = .ok a (mgr.withFiles files) := by
  rw [onFiles, h]
  rfl

theorem onFiles_error {e : FileError} {files : σ} (h : call mgr.files = .error e files) :
    (onFiles call : BufM F P σ α) mgr = .error (.file e) (mgr.withFiles files) := by
  rw [onFiles, h]
  rfl

theorem onTable_ok {call : BufHashTbl F → Except (BufError F) (BufHashTbl F)} {table : BufHashTbl F}
    (h : call mgr.hashTable = .ok table) :
    (onTable call : BufM F P σ Unit) mgr = .ok () { mgr with hashTable := table } := by
  rw [onTable, h]

theorem onTable_error {call : BufHashTbl F → Except (BufError F) (BufHashTbl F)} {e : BufError F}
    (h : call mgr.hashTable = .error e) : (onTable call : BufM F P σ Unit) mgr = .error e mgr := by
  rw [onTable, h]

/-- A dirty page is written, or the write throws. -/
theorem writeBack_cases (L : FileLayer F P σ) (mgr : BufMgr F P σ) (f : F) (i : FrameId) :
    (∃ files, mgr.Written L i f files ∧ writeBack L f i mgr = .ok () (mgr.withFiles files)) ∨
    ∃ e files, (mgr.bufDescTable i).dirty = true ∧ L.writePage f (mgr.bufPool i) mgr.files = .error e files ∧
      writeBack L f i mgr = .error (.file e) (mgr.withFiles files) := by
  have hrun : writeBack L f i mgr = (if (mgr.bufDescTable i).dirty then onFiles (L.writePage f (mgr.bufPool i))
      else (pure () : BufM F P σ Unit)) mgr := rfl
  rw [hrun]
  by_cases hd : (mgr.bufDescTable i).dirty = true
  · rw [if_pos hd]
    cases hw : L.writePage f (mgr.bufPool i) mgr.files with
    | ok _ files =>
      refine .inl ⟨files, ?_, onFiles_ok hw⟩
      rw [Written, if_pos hd]
      exact hw
    | error e files => exact .inr ⟨e, files, hd, rfl, onFiles_error hw⟩
  · rw [if_neg hd]
    refine .inl ⟨mgr.files, ?_, rfl⟩
    rw [Written, if_neg hd]

end Files

/-- The end of `allocBuf`: the page is written if it is dirty, and the frame is given up, or the write throws. -/
theorem evict_cases (h : mgr.Agree hash) {i : FrameId} {f : F} {p : PageId} (hi : mgr.Holds i f p) :
    (∃ files table, mgr.Written L i f files ∧ mgr.hashTable.remove hash f p = .ok table ∧
      evict L hash i mgr = .ok () ((mgr.withFiles files).vacate i table)) ∨
    ∃ e files, (mgr.bufDescTable i).dirty = true ∧ L.writePage f (mgr.bufPool i) mgr.files = .error e files ∧
      evict L hash i mgr = .error (.file e) (mgr.withFiles files) := by
  have hrun : evict L hash i mgr = (do
      writeBack L f i
      onTable fun table => table.remove hash f p
      setDesc i .clear : BufM F P σ Unit) mgr := by
    rw [evict, run_bind, run_get]
    dsimp only
    rw [hi.2.file, hi.2.pageNo]
  rw [hrun]
  rcases writeBack_cases L mgr f i with ⟨files, hwritten, hback⟩ | ⟨e, files, hdirty, hwrite, hback⟩
  · obtain ⟨table, hremove, -⟩ := h.vacate hi
    refine .inl ⟨files, table, hwritten, hremove, ?_⟩
    rw [run_bind_ok hback, run_bind_ok (onTable_ok hremove)]
    rfl
  · exact .inr ⟨e, files, hdirty, hwrite, run_bind_error hback⟩

/-- The end of `allocBuf`. -/
theorem evict_quiet (h : mgr.Agree hash) {i : FrameId} (hi : i < mgr.numBufs) (hvalid : (mgr.bufDescTable i).valid = true)
    (hpin : (mgr.bufDescTable i).pinCnt = 0) :
    QuietRun L hash (evict L hash i) mgr fun _ mgr' => i < mgr'.numBufs ∧ (mgr'.bufDescTable i).valid = false := by
  obtain ⟨f, hf⟩ := (h.tidy i hi).named hvalid
  have hholds : mgr.Holds i f (mgr.bufDescTable i).pageNo := ⟨hi, hvalid, hf, rfl⟩
  rcases evict_cases (L := L) h hholds with ⟨files, table, hwritten, hremove, hrun⟩ | ⟨e, files, -, hwrite, hrun⟩
  · refine .inr ⟨(), (mgr.withFiles files).vacate i table, hrun, .single (.evicted hholds hpin hwritten hremove), hi, ?_⟩
    have hself : ((mgr.withFiles files).vacate i table).bufDescTable i = .clear := Function.update_self ..
    rw [hself]
    rfl
  · refine .inl ⟨.file e, mgr.withFiles files, hrun, .single (.failed (.writePage f _ e hwrite)), ?_⟩
    intro _ _ _ _ heq
    cases heq

/-- The loop of `allocBuf` gives an invalid frame. -/
theorem clockLoop_quiet (h : mgr.Agree hash) (start : FrameId) (fuel loop : Nat) :
    QuietRun L hash (clockLoop L hash start fuel loop) mgr fun i mgr' =>
      i < mgr'.numBufs ∧ (mgr'.bufDescTable i).valid = false := by
  induction fuel generalizing mgr loop with
  | zero =>
    rw [clockLoop]
    by_cases hloop : loop < 3
    · rw [if_pos hloop]
      exact .inl ⟨.outOfFuel, mgr, rfl, .refl, fun _ _ _ _ heq => by cases heq⟩
    · rw [if_neg hloop]
      exact .inl ⟨.bufferExceeded, mgr, rfl, .refl, fun _ _ _ _ heq => by cases heq⟩
  | succ fuel ih =>
    by_cases hloop : loop < 3
    · rw [clockLoop, if_pos hloop, QuietRun, run_bind_ok (run_get mgr)]
      generalize (if start = mgr.clockHand then loop + 1 else loop) = loop'
      -- A round that goes on moves the hand, and the rest of the loop starts from there.
      have hgo : ∀ mgr₁, mgr.Touched mgr₁ → QuietRun L hash (clockLoop L hash start fuel loop') mgr₁
          (fun i mgr' => i < mgr'.numBufs ∧ (mgr'.bufDescTable i).valid = false) →
          QuietRun L hash (fun _ => clockLoop L hash start fuel loop' mgr₁) mgr
            (fun i mgr' => i < mgr'.numBufs ∧ (mgr'.bufDescTable i).valid = false) := by
        rintro mgr₁ t (⟨e, mgr', hrun, hq, he⟩ | ⟨i, mgr', hrun, hq, hi⟩)
        · exact .inl ⟨e, mgr', hrun, .head (.touched t) hq, he⟩
        · exact .inr ⟨i, mgr', hrun, .head (.touched t) hq, hi⟩
      by_cases hvalid : (mgr.bufDescTable mgr.clockHand).valid = true
      · rw [if_pos hvalid]
        by_cases href : (mgr.bufDescTable mgr.clockHand).refbit = true
        · rw [if_pos href]
          have t := touched_refbit h.pos mgr.clockHand
          exact hgo _ t (ih (h.touched t) loop')
        · rw [if_neg href]
          by_cases hpin : (mgr.bufDescTable mgr.clockHand).pinCnt > 0
          · rw [if_pos hpin]
            have t := touched_advance h.pos
            exact hgo _ t (ih (h.touched t) loop')
          · rw [if_neg hpin]
            rcases evict_quiet (L := L) h h.hand hvalid (Nat.eq_zero_of_not_pos hpin) with
              ⟨e, mgr', hrun, hq, he⟩ | ⟨_, mgr', hrun, hq, hi⟩
            · exact .inl ⟨e, mgr', run_bind_error hrun, hq, he⟩
            · exact .inr ⟨mgr.clockHand, mgr', run_bind_ok hrun, hq, hi⟩
      · rw [if_neg hvalid]
        exact .inr ⟨mgr.clockHand, mgr, rfl, .refl, h.hand, Bool.eq_false_iff.mpr hvalid⟩
    · rw [clockLoop, if_neg hloop]
      exact .inl ⟨.bufferExceeded, mgr, rfl, .refl, fun _ _ _ _ heq => by cases heq⟩

/-- `allocBuf`. -/
theorem allocBuf_quiet (h : mgr.Agree hash) :
    QuietRun L hash (allocBuf L hash) mgr fun i mgr' => i < mgr'.numBufs ∧ (mgr'.bufDescTable i).valid = false := by
  have t := touched_advance h.pos
  rcases clockLoop_quiet (L := L) (h.touched t) ((mgr.clockHand + 1) % mgr.numBufs) (2 * mgr.numBufs + 1) 0 with
    ⟨e, mgr', hrun, hq, he⟩ | ⟨i, mgr', hrun, hq, hi⟩
  · exact .inl ⟨e, mgr', hrun, .head (.touched t) hq, he⟩
  · exact .inr ⟨i, mgr', hrun, .head (.touched t) hq, hi⟩

/-- The descriptor after another pin. -/
def BufDesc.pinned (desc : BufDesc F) : BufDesc F := { desc with refbit := true, pinCnt := desc.pinCnt + 1 }

/-- The descriptor after a pin has been given back. -/
def BufDesc.unpinned (desc : BufDesc F) (dirty : Bool) : BufDesc F :=
  { desc with pinCnt := desc.pinCnt - 1, dirty := if dirty then true else desc.dirty }

/-- A page of a file is put into an invalid frame. -/
structure Loads (hash : F → PageId → Nat) (mgr : BufMgr F P σ) (i : FrameId) (f : F) (p : PageId)
    (table : BufHashTbl F) : Prop where
  lt : i < mgr.numBufs
  invalid : (mgr.bufDescTable i).valid = false
  absent : ∀ j, ¬ mgr.Holds j f p
  inserted : mgr.hashTable.insert hash f p i = .ok table

/-- `readPage` pins the page, or throws after quiet steps, or loads the page after them. -/
theorem readPage_cases (h : mgr.Agree hash) (f : F) (p : PageId) :
    (∃ i, mgr.Holds i f p ∧ readPage L hash f p mgr = .ok i (mgr.withDesc i (mgr.bufDescTable i).pinned)) ∨
    (∀ i, ¬ mgr.Holds i f p) ∧
      ((∃ e mgr₁, readPage L hash f p mgr = .error e mgr₁ ∧ QuietSteps L hash mgr mgr₁) ∨
      ∃ mgr₁ i page files table, QuietSteps L hash mgr mgr₁ ∧ L.readPage f p mgr₁.files = .ok page files ∧
        Loads hash mgr₁ i f p table ∧
        readPage L hash f p mgr = .ok i ((mgr₁.withFiles files).occupy i table f p page)) := by
  by_cases hcached : ∃ i, mgr.Holds i f p
  · obtain ⟨i, hi⟩ := hcached
    refine .inl ⟨i, hi, ?_⟩
    rw [readPage, run_bind_ok (run_get mgr), h.lookup_some hi]
    rfl
  · have hno := not_exists.mp hcached
    have hrun : readPage L hash f p mgr = (do
        let fid ← allocBuf L hash
        let page ← onFiles (L.readPage f p)
        setPage fid page
        onTable fun table => table.insert hash f p fid
        setDesc fid (.Set f p)
        return fid : BufM F P σ FrameId) mgr := by
      rw [readPage, run_bind_ok (run_get mgr), h.lookup_none hno]
    refine .inr ⟨hno, ?_⟩
    rw [hrun]
    rcases allocBuf_quiet (L := L) h with ⟨e, mgr₁, halloc, hq, -⟩ | ⟨i, mgr₁, halloc, hq, hi, hinvalid⟩
    · exact .inl ⟨e, mgr₁, run_bind_error halloc, hq⟩
    · rw [run_bind_ok halloc]
      cases hread : L.readPage f p mgr₁.files with
      | error e files =>
        refine .inl ⟨.file e, mgr₁.withFiles files, run_bind_error (onFiles_error hread), hq.tail (.failed ?_)⟩
        exact .readPage f p e hread
      | ok page files =>
        have hno₁ : ∀ j, ¬ mgr₁.Holds j f p := fun j hj => hno j (hq.holds_of hj)
        have h₁ := hq.agree h
        obtain ⟨table, hinsert, -⟩ := h₁.occupy hi hinvalid hno₁ page
        refine .inr ⟨mgr₁, i, page, files, table, hq, hread, ⟨hi, hinvalid, hno₁, hinsert⟩, ?_⟩
        rw [run_bind_ok (onFiles_ok hread), setPage, run_bind_ok (run_modify _ _), run_bind_ok (onTable_ok hinsert)]
        rfl

/-- `allocPage` throws after quiet steps, or loads a new page after them. -/
theorem allocPage_cases (h : mgr.Agree hash) (f : F) :
    (∃ e mgr₁, allocPage L hash f mgr = .error e mgr₁ ∧ QuietSteps L hash mgr mgr₁) ∨
    ∃ mgr₁ i page files table, QuietSteps L hash mgr mgr₁ ∧ L.allocatePage f mgr₁.files = .ok page files ∧
      Loads hash mgr₁ i f (L.page_number page) table ∧
      allocPage L hash f mgr =
        .ok (L.page_number page, i) ((mgr₁.withFiles files).occupy i table f (L.page_number page) page) := by
  rw [allocPage]
  rcases allocBuf_quiet (L := L) h with ⟨e, mgr₁, halloc, hq, -⟩ | ⟨i, mgr₁, halloc, hq, hi, hinvalid⟩
  · exact .inl ⟨e, mgr₁, run_bind_error halloc, hq⟩
  · rw [run_bind_ok halloc]
    cases hnew : L.allocatePage f mgr₁.files with
    | error e files =>
      refine .inl ⟨.file e, mgr₁.withFiles files, run_bind_error (onFiles_error hnew), hq.tail (.failed ?_)⟩
      exact .allocatePage f e hnew
    | ok page files =>
      have h₁ := hq.agree h
      rw [run_bind_ok (onFiles_ok hnew), setPage, run_bind_ok (run_modify _ _)]
      by_cases hcached : ∃ j, mgr₁.Holds j f (L.page_number page)
      · obtain ⟨j, hj⟩ := hcached
        have hpresent := BufHashTbl.insert_present ((h₁.entry_iff _ _ _).mpr hj) i
        refine .inl ⟨_, _, run_bind_error (onTable_error hpresent), hq.tail ?_⟩
        exact .orphan hinvalid hnew hj
      · have hno := not_exists.mp hcached
        obtain ⟨table, hinsert, -⟩ := h₁.occupy hi hinvalid hno page
        refine .inr ⟨mgr₁, i, page, files, table, hq, hnew, ⟨hi, hinvalid, hno, hinsert⟩, ?_⟩
        rw [run_bind_ok (onTable_ok hinsert)]
        rfl

/-- `unPinPage` of a page that is not in the pool, of one that has no pins, and of one that has. -/
theorem unPinPage_cases (h : mgr.Agree hash) (f : F) (p : PageId) (dirty : Bool) :
    (∀ i, ¬ mgr.Holds i f p) ∧ unPinPage hash f p dirty mgr = .ok () mgr ∨
    (∃ i, mgr.Holds i f p ∧ (mgr.bufDescTable i).pinCnt = 0 ∧
      unPinPage hash f p dirty mgr = .error (.pageNotPinned f p i) mgr) ∨
    ∃ i, mgr.Holds i f p ∧ 0 < (mgr.bufDescTable i).pinCnt ∧
      unPinPage hash f p dirty mgr = .ok () (mgr.withDesc i ((mgr.bufDescTable i).unpinned dirty)) := by
  rw [unPinPage, run_bind_ok (run_get mgr)]
  by_cases hcached : ∃ i, mgr.Holds i f p
  · obtain ⟨i, hi⟩ := hcached
    rw [h.lookup_some hi]
    by_cases hpin : (mgr.bufDescTable i).pinCnt = 0
    · refine .inr (.inl ⟨i, hi, hpin, ?_⟩)
      dsimp only
      rw [if_pos hpin]
      rfl
    · refine .inr (.inr ⟨i, hi, Nat.pos_of_ne_zero hpin, ?_⟩)
      dsimp only
      rw [if_neg hpin]
      rfl
  · rw [h.lookup_none (not_exists.mp hcached)]
    exact .inl ⟨not_exists.mp hcached, rfl⟩

/-- `disposePage` gives up the frame of the page, if it has one, and deletes the page. -/
theorem disposePage_cases (h : mgr.Agree hash) (f : F) (p : PageId) :
    (∀ i, ¬ mgr.Holds i f p) ∧ disposePage L hash f p mgr = (onFiles (L.deletePage f p) : BufM F P σ Unit) mgr ∨
    ∃ i table, mgr.Holds i f p ∧ mgr.hashTable.remove hash f p = .ok table ∧
      disposePage L hash f p mgr = (onFiles (L.deletePage f p) : BufM F P σ Unit) (mgr.vacate i table) := by
  rw [disposePage, run_bind_ok (run_get mgr)]
  by_cases hcached : ∃ i, mgr.Holds i f p
  · obtain ⟨i, hi⟩ := hcached
    obtain ⟨table, hremove, -⟩ := h.vacate hi
    refine .inr ⟨i, table, hi, hremove, ?_⟩
    rw [h.lookup_some hi]
    dsimp only
    rw [setDesc, run_bind_ok (run_modify _ _), run_bind_ok (onTable_ok hremove)]
    rfl
  · rw [h.lookup_none (not_exists.mp hcached)]
    exact .inl ⟨not_exists.mp hcached, rfl⟩

/-- `flushFile` at one frame: it passes over a frame without a page of the file, throws at a pinned one, and otherwise
writes the page if it is dirty and gives up the frame, or the write throws. -/
theorem flushFrame_cases (h : mgr.Agree hash) (f : F) {i : FrameId} (hi : i < mgr.numBufs) :
    ((mgr.bufDescTable i).file ≠ some f ∧ flushFrame L hash f i mgr = .ok () mgr) ∨
    ∃ p, mgr.Holds i f p ∧
      ((0 < (mgr.bufDescTable i).pinCnt ∧ flushFrame L hash f i mgr = .error (.pagePinned f p i) mgr) ∨
      (mgr.bufDescTable i).pinCnt = 0 ∧
        ((∃ files table, mgr.Written L i f files ∧ mgr.hashTable.remove hash f p = .ok table ∧
          flushFrame L hash f i mgr = .ok () ((mgr.withFiles files).vacate i table)) ∨
        ∃ e files, (mgr.bufDescTable i).dirty = true ∧ L.writePage f (mgr.bufPool i) mgr.files = .error e files ∧
          flushFrame L hash f i mgr = .error (.file e) (mgr.withFiles files))) := by
  rw [flushFrame, run_bind_ok (run_get mgr)]
  by_cases hf : (mgr.bufDescTable i).file = some f
  · have hvalid : (mgr.bufDescTable i).valid = true := by
      by_contra hinvalid
      have hnone := ((h.tidy i hi).cleared (Bool.eq_false_iff.mpr hinvalid)).2.2
      rw [hf] at hnone
      cases hnone
    have hholds : mgr.Holds i f (mgr.bufDescTable i).pageNo := ⟨hi, hvalid, hf, rfl⟩
    have hbad : ¬ (!(mgr.bufDescTable i).valid) = true := by simp [hvalid]
    refine .inr ⟨_, hholds, ?_⟩
    rw [if_pos hf, if_neg hbad]
    dsimp only
    by_cases hpin : (mgr.bufDescTable i).pinCnt > 0
    · rw [if_pos hpin]
      exact .inl ⟨hpin, rfl⟩
    · rw [if_neg hpin]
      refine .inr ⟨Nat.eq_zero_of_not_pos hpin, ?_⟩
      rcases writeBack_cases L mgr f i with ⟨files, hwritten, hback⟩ | ⟨e, files, hdirty, hwrite, hback⟩
      · obtain ⟨table, hremove, -⟩ := h.vacate hholds
        refine .inl ⟨files, table, hwritten, hremove, ?_⟩
        rw [run_bind_ok hback, setDesc, run_bind_ok (run_modify _ _), run_bind_ok (onTable_ok hremove), setDesc,
          run_modify]
        dsimp only
        rw [Function.update_idem]
        rfl
      · exact .inr ⟨e, files, hdirty, hwrite, run_bind_error hback⟩
  · rw [if_neg hf]
    exact .inl ⟨hf, rfl⟩

/-- `flushFile` of the file of `File()` goes over the frames up to an invalid one, and changes nothing. -/
theorem flushFrames_none {l : List FrameId} (h : mgr.Agree hash) (hl : ∀ i ∈ l, i < mgr.numBufs) :
    (∀ i ∈ l, (mgr.bufDescTable i).valid = true) ∧ flushFrames L hash none l mgr = .ok () mgr ∨
    ∃ i ∈ l, (mgr.bufDescTable i).valid = false ∧ flushFrames L hash none l mgr =
      .error (.badBuffer i (mgr.bufDescTable i).dirty false (mgr.bufDescTable i).refbit) mgr := by
  induction l with
  | nil => exact .inl ⟨fun i hi => absurd hi List.not_mem_nil, rfl⟩
  | cons i l ih =>
    have htidy := h.tidy i (hl i (List.mem_cons_self ..))
    rw [flushFrames]
    cases hvalid : (mgr.bufDescTable i).valid with
    | false =>
      refine .inr ⟨i, List.mem_cons_self .., hvalid, run_bind_error ?_⟩
      rw [flushFrame, run_bind_ok (run_get mgr), if_pos (htidy.cleared hvalid).2.2, hvalid]
      rfl
    | true =>
      obtain ⟨f, hf⟩ := htidy.named hvalid
      have hne : (mgr.bufDescTable i).file ≠ none := by simp [hf]
      have hframe : flushFrame L hash none i mgr = .ok () mgr := by
        rw [flushFrame, run_bind_ok (run_get mgr), if_neg hne, run_pure]
      rw [run_bind_ok hframe]
      rcases ih fun j hj => hl j (List.mem_cons_of_mem _ hj) with ⟨hall, hrun⟩ | ⟨j, hj, hbad⟩
      · refine .inl ⟨fun j hj => ?_, hrun⟩
        rcases List.mem_cons.mp hj with rfl | hj
        · exact hvalid
        · exact hall j hj
      · exact .inr ⟨j, List.mem_cons_of_mem _ hj, hbad⟩

theorem flushFile_none (h : mgr.Agree hash) :
    (∀ i < mgr.numBufs, (mgr.bufDescTable i).valid = true) ∧ flushFile L hash none mgr = .ok () mgr ∨
    ∃ i < mgr.numBufs, (mgr.bufDescTable i).valid = false ∧ flushFile L hash none mgr =
      .error (.badBuffer i (mgr.bufDescTable i).dirty false (mgr.bufDescTable i).refbit) mgr := by
  rw [flushFile, run_bind_ok (run_get mgr)]
  simpa only [List.mem_range] using flushFrames_none (L := L) h fun i hi => List.mem_range.mp hi

/-- `flushFile` at one frame takes quiet steps. -/
private theorem flushFrame_quiet (h : mgr.Agree hash) (f : F) {i : FrameId} (hi : i < mgr.numBufs) :
    QuietRun L hash (flushFrame L hash f i) mgr fun _ mgr' => mgr'.numBufs = mgr.numBufs ∧
      (mgr'.bufDescTable i).file ≠ some f ∧
      ∀ j, (mgr.bufDescTable j).file ≠ some f → (mgr'.bufDescTable j).file ≠ some f := by
  rcases flushFrame_cases (L := L) h f hi with ⟨hf, hrun⟩ | ⟨p, hholds, ⟨-, hrun⟩ | ⟨hpin, hwrites⟩⟩
  · exact .inr ⟨(), mgr, hrun, .refl, rfl, hf, fun _ hj => hj⟩
  · exact .inl ⟨_, mgr, hrun, .refl, fun _ _ _ _ heq => by cases heq⟩
  · rcases hwrites with ⟨files, table, hwritten, hremove, hrun⟩ | ⟨e, files, -, hwrite, hrun⟩
    · refine .inr ⟨(), (mgr.withFiles files).vacate i table, hrun,
        .single (.evicted hholds hpin hwritten hremove), rfl, ?_, fun j hj => ?_⟩
      · have hself : ((mgr.withFiles files).vacate i table).bufDescTable i = .clear := Function.update_self ..
        rw [hself]
        exact fun hsome => by cases hsome
      · by_cases hji : j = i
        · subst hji
          exact absurd hholds.2.file hj
        · have hother : ((mgr.withFiles files).vacate i table).bufDescTable j = mgr.bufDescTable j :=
            Function.update_of_ne hji ..
          rw [hother]
          exact hj
    · refine .inl ⟨.file e, mgr.withFiles files, hrun, .single (.failed (.writePage f _ e hwrite)), ?_⟩
      intro _ _ _ _ heq
      cases heq

/-- The loop of `flushFile`. -/
private theorem flushFrames_quiet (f : F) {l : List FrameId} (h : mgr.Agree hash) (hl : ∀ i ∈ l, i < mgr.numBufs) :
    QuietRun L hash (flushFrames L hash f l) mgr fun _ mgr' => mgr'.numBufs = mgr.numBufs ∧
      (∀ i ∈ l, (mgr'.bufDescTable i).file ≠ some f) ∧
      ∀ j, (mgr.bufDescTable j).file ≠ some f → (mgr'.bufDescTable j).file ≠ some f := by
  induction l generalizing mgr with
  | nil =>
    refine .inr ⟨(), mgr, rfl, .refl, rfl, ?_, fun _ hj => hj⟩
    intro i hi
    cases hi
  | cons i l ih =>
    rw [QuietRun, flushFrames]
    rcases flushFrame_quiet (L := L) h f (hl i (List.mem_cons_self ..)) with
      ⟨e, mgr₁, hrun, hq, he⟩ | ⟨_, mgr₁, hrun, hq, hnum, hself, hkeep⟩
    · exact .inl ⟨e, mgr₁, run_bind_error hrun, hq, he⟩
    · have hl₁ : ∀ j ∈ l, j < mgr₁.numBufs := fun j hj => hnum ▸ hl j (List.mem_cons_of_mem _ hj)
      rw [run_bind_ok hrun]
      rcases ih (hq.agree h) hl₁ with ⟨e, mgr₂, hrun₂, hq₂, he⟩ | ⟨_, mgr₂, hrun₂, hq₂, hnum₂, hall, hkeep₂⟩
      · exact .inl ⟨e, mgr₂, hrun₂, hq.trans hq₂, he⟩
      · refine .inr ⟨(), mgr₂, hrun₂, hq.trans hq₂, hnum₂.trans hnum, fun j hj => ?_, fun j hj => hkeep₂ j (hkeep j hj)⟩
        rcases List.mem_cons.mp hj with rfl | hj
        · exact hkeep₂ j hself
        · exact hall j hj

/-- `flushFile` takes quiet steps, and if it returns no frame holds a page of the file. -/
theorem flushFile_quiet (h : mgr.Agree hash) (f : F) :
    QuietRun L hash (flushFile L hash f) mgr fun _ mgr' => ∀ i p, ¬ mgr'.Holds i f p := by
  rw [QuietRun, flushFile, run_bind_ok (run_get mgr)]
  rcases flushFrames_quiet (L := L) f h (fun i hi => List.mem_range.mp hi) with hthrows | ⟨_, mgr', hrun, hq, hnum, hall, -⟩
  · exact .inl hthrows
  · refine .inr ⟨(), mgr', hrun, hq, fun i p hi => ?_⟩
    exact hall i (List.mem_range.mpr (hnum ▸ hi.1)) hi.2.file

end Cs564.P2
