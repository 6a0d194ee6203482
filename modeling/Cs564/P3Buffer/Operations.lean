import Cs564.P2Buffer.Pins
import Cs564.P3Buffer.Clock

/-!
# What the operations of `p3` do

`allocBuf` throws exactly when every frame is pinned (`allocBuf_cases`); else it clears reference bits, writes back
and drops at most one unpinned page (`Freed`).  `readPage_spec` and the like say what the other operations add to that.
They hold of every file layer over which the pages in the pool can be written back (`Writable`): `allocBuf` takes a page
out of the hash table before it writes it.
-/

namespace Cs564.P3

open P2 (BufError BufHashTbl BufDesc BufMgr BufM onFiles onTable setDesc setPage advanceClock onFiles_ok onFiles_error
  onTable_ok onTable_error)
open P2.BufMgr

variable {F P σ : Type} [DecidableEq F] {L : FileLayer F P σ} {hash : F → PageId → Nat} {mgr : BufMgr F P σ}

omit [DecidableEq F] in
/-- In a new pool no frame holds a page. -/
theorem not_holds_newBufMgr {bufs : Nat} {page : P} {files : σ} {i : FrameId} {f : F} {p : PageId} :
    ¬ (newBufMgr bufs page files : BufMgr F P σ).Holds i f p := fun hi => BufDesc.not_is_clear hi.2

/-- The hash table and the frames of a new pool agree. -/
theorem agree_newBufMgr {bufs : Nat} (hbufs : 0 < bufs) (page : P) (files : σ) :
    (newBufMgr bufs page files : BufMgr F P σ).Agree hash := by
  refine ⟨hbufs, Nat.sub_lt hbufs Nat.one_pos, BufHashTbl.distinct_new _, fun f p i => ?_, fun _ _ => BufDesc.tidy_clear⟩
  refine iff_of_false (fun hentry => ?_) not_holds_newBufMgr
  rw [newBufMgr, BufHashTbl.entry_new] at hentry
  cases hentry

section AllocBuf

/-- The frame can be taken. -/
def Takeable (mgr : BufMgr F P σ) (i : FrameId) : Prop :=
  (mgr.bufDescTable i).valid = false ∨ (mgr.bufDescTable i).pinCnt = 0

/-- The files after page `p` of `f` in frame `i` has been written if it is dirty. -/
def Written (L : FileLayer F P σ) (mgr : BufMgr F P σ) (i : FrameId) (f : F) (p : PageId) (files : σ) : Prop :=
  if (mgr.bufDescTable i).dirty then L.writePage f p (mgr.bufPool i) mgr.files = .ok () files else files = mgr.files

/-- The pages in the pool can be written back. -/
def Writable (L : FileLayer F P σ) (mgr : BufMgr F P σ) : Prop :=
  ∀ i f p, mgr.Holds i f p → ∃ files, L.writePage f p (mgr.bufPool i) mgr.files = .ok () files

/-- The unpinned page `p` of `f` in frame `i` is written if it is dirty, and leaves the pool. -/
inductive Dropped (L : FileLayer F P σ) (hash : F → PageId → Nat) (mgr : BufMgr F P σ) (i : FrameId) (f : F)
    (p : PageId) : BufMgr F P σ → Prop where
  | drop {files : σ} {table : BufHashTbl F} (holds : mgr.Holds i f p) (unpinned : (mgr.bufDescTable i).pinCnt = 0)
      (written : Written L mgr i f p files) (removed : mgr.hashTable.remove hash f p = .ok table) :
      Dropped L hash mgr i f p ((mgr.withFiles files).vacate i table)

/-- What `allocBuf` does to free frame `i`: some reference bits are cleared, and if the frame holds a page, the page
leaves it. -/
inductive Freed (L : FileLayer F P σ) (hash : F → PageId → Nat) (mgr : BufMgr F P σ) (i : FrameId) :
    BufMgr F P σ → Prop where
  | empty {m : BufMgr F P σ} (t : mgr.Touched m) (lt : i < m.numBufs) (invalid : (m.bufDescTable i).valid = false) :
      Freed L hash mgr i (m.vacate i m.hashTable)
  | evicted {m m' : BufMgr F P σ} {f : F} {p : PageId} (t : mgr.Touched m) (dropped : Dropped L hash m i f p m') :
      Freed L hash mgr i m'

omit [DecidableEq F] in
theorem Takeable.touched_iff {m : BufMgr F P σ} (t : mgr.Touched m) {i : FrameId} : Takeable m i ↔ Takeable mgr i := by
  unfold Takeable
  rw [t.desc i]

omit [DecidableEq F] in
theorem Writable.touched {m : BufMgr F P σ} (hw : Writable L mgr) (t : mgr.Touched m) : Writable L m := by
  intro i f p hi
  rw [t.bufPool, t.files]
  exact hw i f p (t.holds_iff.mp hi)

omit [DecidableEq F] in
/-- A dirty page is written, or the write throws. -/
theorem writeBack_cases {i : FrameId} {f : F} {p : PageId} (hi : mgr.Holds i f p) :
    (∃ files, Written L mgr i f p files ∧ writeBack L i mgr = .ok () (mgr.withFiles files)) ∨
    ∃ e files, (mgr.bufDescTable i).dirty = true ∧ L.writePage f p (mgr.bufPool i) mgr.files = .error e files ∧
      writeBack L i mgr = .error (.file e) (mgr.withFiles files) := by
  have hrun : writeBack L i mgr = (if (mgr.bufDescTable i).dirty then
      onFiles (L.writePage f (mgr.bufDescTable i).pageNo (mgr.bufPool i)) else (pure () : BufM F P σ Unit)) mgr := by
    rw [writeBack, run_bind_ok (run_get mgr), hi.2.file]
  rw [hrun, hi.2.pageNo]
  by_cases hdirty : (mgr.bufDescTable i).dirty = true
  · rw [if_pos hdirty]
    cases hwrite : L.writePage f p (mgr.bufPool i) mgr.files with
    | ok _ files =>
      refine .inl ⟨files, ?_, onFiles_ok hwrite⟩
      rw [Written, if_pos hdirty]
      exact hwrite
    | error e files => exact .inr ⟨e, files, hdirty, rfl, onFiles_error hwrite⟩
  · rw [if_neg hdirty]
    refine .inl ⟨mgr.files, ?_, rfl⟩
    rw [Written, if_neg hdirty]

omit [DecidableEq F] in
/-- A dirty page that can be written is written. -/
theorem writeBack_eq {i : FrameId} {f : F} {p : PageId} (hw : Writable L mgr) (hi : mgr.Holds i f p) :
    ∃ files, Written L mgr i f p files ∧ writeBack L i mgr = .ok () (mgr.withFiles files) := by
  rcases writeBack_cases (L := L) hi with hwritten | ⟨e, files, -, hthrows, -⟩
  · exact hwritten
  · obtain ⟨files', hwrite⟩ := hw i f p hi
    rw [hthrows] at hwrite
    cases hwrite

/-- `allocBuf` throws when every frame is pinned, and else frees a frame. -/
theorem allocBuf_cases (h : mgr.Agree hash) (hw : Writable L mgr) :
    (∃ m, allocBuf L hash mgr = .error .bufferExceeded m ∧ mgr.Touched m ∧ ∀ i, i < mgr.numBufs → ¬ Takeable mgr i) ∨
    ∃ i m, allocBuf L hash mgr = .ok i m ∧ Freed L hash mgr i m := by
  rcases first_or_none mgr.Stops (2 * mgr.numBufs) with hnone | ⟨k, hk, hstops, hnot⟩
  · refine .inl ⟨_, allocBuf_none h hnone, touched_scanned h.pos _, fun i hi htake => ?_⟩
    obtain ⟨hvalid, hpin⟩ := (not_stops_iff h.pos).mp hnone i hi
    rcases htake with hinvalid | hzero
    · exact Bool.false_ne_true (hinvalid.symm.trans hvalid)
    · omega
  · have t : mgr.Touched (mgr.swept k) := P2.touched_swept h.pos k
    have hlt : turn mgr.numBufs mgr.clockHand k < mgr.numBufs := turn_lt h.pos k
    refine .inr ⟨turn mgr.numBufs mgr.clockHand k, ?_⟩
    by_cases hinvalid : (mgr.bufDescTable (turn mgr.numBufs mgr.clockHand k)).valid = false
    · have hswept : ((mgr.swept k).bufDescTable (turn mgr.numBufs mgr.clockHand k)).valid = false := by
        rw [swept_valid, hinvalid]
      exact ⟨_, allocBuf_invalid h hk hnot hinvalid, .empty t hlt hswept⟩
    · have hvalid := eq_true_of_ne_false hinvalid
      obtain ⟨f, hf⟩ := (h.tidy _ hlt).named hvalid
      have hholds : mgr.Holds (turn mgr.numBufs mgr.clockHand k) f _ := ⟨hlt, hvalid, hf, rfl⟩
      obtain ⟨table, hremove, -⟩ := h.vacate hholds
      have hpin : ((mgr.swept k).bufDescTable (turn mgr.numBufs mgr.clockHand k)).pinCnt = 0 := by
        rcases hstops with hfree | ⟨-, hzero⟩
        · rw [swept_valid] at hfree
          exact absurd hfree hinvalid
        · exact hzero
      have hswept := t.holds_iff.mpr hholds
      have hwritable : Writable L (mgr.swept k) := hw.touched t
      have hwritable' : Writable L { mgr.swept k with hashTable := table } := hwritable
      obtain ⟨files, hwritten, hback⟩ := writeBack_eq hwritable' hswept
      refine ⟨((mgr.swept k).withFiles files).vacate _ table, ?_, .evicted t (.drop hswept hpin hwritten hremove)⟩
      rw [allocBuf_valid h hk hnot hstops hholds hremove, run_bind_ok hback]
      rfl

theorem Dropped.agree {m : BufMgr F P σ} {i : FrameId} {f : F} {p : PageId} (d : Dropped L hash mgr i f p m)
    (h : mgr.Agree hash) : m.Agree hash := by
  cases d with
  | drop holds _ _ removed =>
    obtain ⟨table, hremove, hagree⟩ := h.vacate holds
    rw [Except.ok.inj (removed.symm.trans hremove)]
    exact hagree.withFiles _

theorem Dropped.holds_iff {m : BufMgr F P σ} {i j : FrameId} {f g : F} {p q : PageId} (d : Dropped L hash mgr i f p m) :
    m.Holds j g q ↔ j ≠ i ∧ mgr.Holds j g q := by
  cases d with
  | drop => exact holds_vacate

theorem Dropped.same {m : BufMgr F P σ} {i j : FrameId} {f : F} {p : PageId} (d : Dropped L hash mgr i f p m)
    (hj : j ≠ i) : mgr.SameFrame m j := by
  cases d with
  | drop => exact ⟨by rw [vacate_desc _ hj]; rfl, by rw [vacate_desc _ hj]; rfl, rfl⟩

namespace Freed

variable {m : BufMgr F P σ} {i j : FrameId} {f g : F} {p q : PageId} (hfreed : Freed L hash mgr i m)
include hfreed

theorem agree (h : mgr.Agree hash) : m.Agree hash := by
  cases hfreed with
  | @empty m t lt invalid =>
    have hm := h.touched t
    refine ⟨hm.pos, hm.hand, hm.distinct, fun g q j => ?_, fun j hj => ?_⟩
    · rw [holds_vacate]
      refine (hm.entry_iff g q j).trans (and_iff_right_of_imp ?_).symm
      rintro hj rfl
      exact Bool.false_ne_true (invalid.symm.trans hj.2.valid)
    · by_cases hji : j = i
      · have hdesc : (m.vacate i m.hashTable).bufDescTable j = .clear := by
          subst hji
          exact Function.update_self ..
        rw [hdesc]
        exact BufDesc.tidy_clear
      · rw [vacate_desc _ hji]
        exact hm.tidy j hj
  | evicted t dropped => exact dropped.agree (h.touched t)

theorem lt : i < m.numBufs := by
  cases hfreed with
  | empty _ lt => exact lt
  | evicted _ dropped =>
    cases dropped with
    | drop holds => exact holds.1

theorem invalid : (m.bufDescTable i).valid = false := by
  have hclear : m.bufDescTable i = .clear := by
    cases hfreed with
    | empty => exact Function.update_self ..
    | evicted _ dropped =>
      cases dropped with
      | drop => exact Function.update_self ..
  rw [hclear]
  rfl

theorem numBufs : m.numBufs = mgr.numBufs := by
  cases hfreed with
  | empty t => exact t.numBufs
  | evicted t dropped =>
    cases dropped with
    | drop => exact t.numBufs

theorem holds_iff : m.Holds j g q ↔ j ≠ i ∧ mgr.Holds j g q := by
  cases hfreed with
  | empty t => exact holds_vacate.trans (and_congr Iff.rfl t.holds_iff)
  | evicted t dropped => exact dropped.holds_iff.trans (and_congr Iff.rfl t.holds_iff)

theorem same (hj : j ≠ i) : mgr.SameFrame m j := by
  cases hfreed with
  | @empty m t =>
    have hsame : mgr.SameFrame m j := ⟨by rw [t.desc j], by rw [t.desc j], by rw [t.bufPool]⟩
    exact hsame.trans ⟨by rw [vacate_desc _ hj], by rw [vacate_desc _ hj], rfl⟩
  | @evicted m₁ _ _ _ t dropped =>
    have hsame : mgr.SameFrame m₁ j := ⟨by rw [t.desc j], by rw [t.desc j], by rw [t.bufPool]⟩
    exact hsame.trans (dropped.same hj)

theorem takeable : Takeable mgr i := by
  cases hfreed with
  | empty t _ invalid => exact (Takeable.touched_iff t).mp (.inl invalid)
  | evicted t dropped =>
    cases dropped with
    | drop _ unpinned => exact (Takeable.touched_iff t).mp (.inr unpinned)

/-- A pinned page stays in its frame. -/
theorem protects (hj : mgr.Holds j g q) (hpin : 0 < (mgr.bufDescTable j).pinCnt) : j ≠ i ∧ m.Holds j g q := by
  have hne : j ≠ i := by
    rintro rfl
    rcases hfreed.takeable with hinvalid | hzero
    · exact Bool.false_ne_true (hinvalid.symm.trans hj.2.valid)
    · exact Nat.ne_of_gt hpin hzero
  exact ⟨hne, hfreed.holds_iff.mpr ⟨hne, hj⟩⟩

end Freed

end AllocBuf

open P2 (Loads)

/-- How `readPage` ends. -/
inductive ReadPage (L : FileLayer F P σ) (hash : F → PageId → Nat) (f : F) (p : PageId) (mgr : BufMgr F P σ) :
    EStateM.Result (BufError F) (BufMgr F P σ) FrameId → Prop where
  | hit {i : FrameId} (holds : mgr.Holds i f p) :
      ReadPage L hash f p mgr (.ok i (mgr.withDesc i (mgr.bufDescTable i).pinned))
  | exceeded {m : BufMgr F P σ} (absent : ∀ i, ¬ mgr.Holds i f p) (t : mgr.Touched m)
      (full : ∀ i, i < mgr.numBufs → ¬ Takeable mgr i) : ReadPage L hash f p mgr (.error .bufferExceeded m)
  | failed {i : FrameId} {m : BufMgr F P σ} {e : FileError} {files : σ} (absent : ∀ i, ¬ mgr.Holds i f p)
      (freed : Freed L hash mgr i m) (run : L.readPage f p m.files = .error e files) :
      ReadPage L hash f p mgr (.error (.file e) (m.withFiles files))
  | loaded {i : FrameId} {m : BufMgr F P σ} {page : P} {files : σ} {table : BufHashTbl F}
      (absent : ∀ i, ¬ mgr.Holds i f p) (freed : Freed L hash mgr i m) (run : L.readPage f p m.files = .ok page files)
      (loads : Loads hash m i f p table) : ReadPage L hash f p mgr (.ok i ((m.withFiles files).occupy i table f p page))

theorem readPage_spec (h : mgr.Agree hash) (hw : Writable L mgr) (f : F) (p : PageId) :
    ReadPage L hash f p mgr (readPage L hash f p mgr) := by
  by_cases hcached : ∃ i, mgr.Holds i f p
  · obtain ⟨i, hi⟩ := hcached
    have hrun : readPage L hash f p mgr = .ok i (mgr.withDesc i (mgr.bufDescTable i).pinned) := by
      rw [readPage, run_bind_ok (run_get mgr), h.lookup_some hi]
      rfl
    rw [hrun]
    exact .hit hi
  · have hno := not_exists.mp hcached
    have hrun : readPage L hash f p mgr = (do
        let fid ← allocBuf L hash
        let page ← onFiles (L.readPage f p)
        setPage fid page
        setDesc fid (.Set f p)
        onTable fun table => table.insert hash f p fid
        return fid : BufM F P σ FrameId) mgr := by
      rw [readPage, run_bind_ok (run_get mgr), h.lookup_none hno]
    rw [hrun]
    rcases allocBuf_cases h hw with ⟨m, halloc, t, hfull⟩ | ⟨i, m, halloc, hfreed⟩
    · rw [run_bind_error halloc]
      exact .exceeded hno t hfull
    · rw [run_bind_ok halloc]
      cases hread : L.readPage f p m.files with
      | error e files =>
        rw [run_bind_error (onFiles_error hread)]
        exact .failed hno hfreed hread
      | ok page files =>
        have hno' : ∀ j, ¬ m.Holds j f p := fun j hj => hno j (hfreed.holds_iff.mp hj).2
        obtain ⟨table, hinsert, -⟩ := (hfreed.agree h).occupy hfreed.lt hfreed.invalid hno' page
        rw [run_bind_ok (onFiles_ok hread), setPage, run_bind_ok (run_modify _ _), setDesc, run_bind_ok (run_modify _ _),
          run_bind_ok (onTable_ok hinsert)]
        exact .loaded hno hfreed hread ⟨hfreed.lt, hfreed.invalid, hno', hinsert⟩

/-- How `allocPage` ends. -/
inductive AllocPage (L : FileLayer F P σ) (hash : F → PageId → Nat) (f : F) (mgr : BufMgr F P σ) :
    EStateM.Result (BufError F) (BufMgr F P σ) (PageId × FrameId) → Prop where
  | exceeded {m : BufMgr F P σ} (t : mgr.Touched m) (full : ∀ i, i < mgr.numBufs → ¬ Takeable mgr i) :
      AllocPage L hash f mgr (.error .bufferExceeded m)
  | failed {i : FrameId} {m : BufMgr F P σ} {e : FileError} {files : σ} (freed : Freed L hash mgr i m)
      (run : L.allocatePage f m.files = .error e files) : AllocPage L hash f mgr (.error (.file e) (m.withFiles files))
  | present {i j : FrameId} {m m' : BufMgr F P σ} {new : PageId × P} {files : σ} (freed : Freed L hash mgr i m)
      (run : L.allocatePage f m.files = .ok new files) (holds : m.Holds j f new.1) :
      AllocPage L hash f mgr (.error (.hashAlreadyPresent f new.1 j) m')
  | allocated {i : FrameId} {m : BufMgr F P σ} {new : PageId × P} {files : σ} {table : BufHashTbl F}
      (freed : Freed L hash mgr i m) (run : L.allocatePage f m.files = .ok new files)
      (loads : Loads hash m i f new.1 table) :
      AllocPage L hash f mgr (.ok (new.1, i) ((m.withFiles files).occupy i table f new.1 new.2))

theorem allocPage_spec (h : mgr.Agree hash) (hw : Writable L mgr) (f : F) :
    AllocPage L hash f mgr (allocPage L hash f mgr) := by
  rw [allocPage]
  rcases allocBuf_cases h hw with ⟨m, halloc, t, hfull⟩ | ⟨i, m, halloc, hfreed⟩
  · rw [run_bind_error halloc]
    exact .exceeded t hfull
  · rw [run_bind_ok halloc]
    cases hnew : L.allocatePage f m.files with
    | error e files =>
      rw [run_bind_error (onFiles_error hnew)]
      exact .failed hfreed hnew
    | ok new files =>
      have hm := hfreed.agree h
      rw [run_bind_ok (onFiles_ok hnew), setPage, run_bind_ok (run_modify _ _), setDesc, run_bind_ok (run_modify _ _)]
      by_cases hcached : ∃ j, m.Holds j f new.1
      · obtain ⟨j, hj⟩ := hcached
        have hpresent := BufHashTbl.insert_present ((hm.entry_iff _ _ _).mpr hj) i
        rw [run_bind_error (onTable_error hpresent)]
        exact .present hfreed hnew hj
      · have hno := not_exists.mp hcached
        obtain ⟨table, hinsert, -⟩ := hm.occupy hfreed.lt hfreed.invalid hno new.2
        rw [run_bind_ok (onTable_ok hinsert)]
        exact .allocated hfreed hnew ⟨hfreed.lt, hfreed.invalid, hno, hinsert⟩

/-- How `unPinPage` ends. -/
inductive UnPinPage (f : F) (p : PageId) (dirty : Bool) (mgr : BufMgr F P σ) :
    EStateM.Result (BufError F) (BufMgr F P σ) Unit → Prop where
  | absent (absent : ∀ i, ¬ mgr.Holds i f p) : UnPinPage f p dirty mgr (.error (.hashNotFound f p) mgr)
  | notPinned {i : FrameId} (holds : mgr.Holds i f p) (zero : (mgr.bufDescTable i).pinCnt = 0) :
      UnPinPage f p dirty mgr (.error (.pageNotPinned f p i) (mgr.withDesc i ((mgr.bufDescTable i).unpinned dirty)))
  | unpinned {i : FrameId} (holds : mgr.Holds i f p) (pins : 0 < (mgr.bufDescTable i).pinCnt) :
      UnPinPage f p dirty mgr (.ok () (mgr.withDesc i ((mgr.bufDescTable i).unpinned dirty)))

theorem unPinPage_spec (h : mgr.Agree hash) (f : F) (p : PageId) (dirty : Bool) :
    UnPinPage f p dirty mgr (unPinPage hash f p dirty mgr) := by
  rw [unPinPage, run_bind_ok (run_get mgr)]
  by_cases hcached : ∃ i, mgr.Holds i f p
  · obtain ⟨i, hi⟩ := hcached
    rw [h.lookup_some hi]
    dsimp only
    rw [setDesc, run_bind_ok (run_modify _ _)]
    by_cases hpin : (mgr.bufDescTable i).pinCnt = 0
    · rw [if_pos hpin]
      have hdesc : (mgr.bufDescTable i).unpinned dirty =
          { mgr.bufDescTable i with dirty := if dirty then true else (mgr.bufDescTable i).dirty } := by
        simp only [BufDesc.unpinned, hpin]
      have hlast : UnPinPage f p dirty mgr (.error _ _) := .notPinned hi hpin
      rw [hdesc] at hlast
      exact hlast
    · rw [if_neg hpin, setDesc, run_modify]
      dsimp only
      rw [Function.update_idem]
      exact .unpinned hi (Nat.pos_of_ne_zero hpin)
  · rw [h.lookup_none (not_exists.mp hcached)]
    exact .absent (not_exists.mp hcached)

/-- How `disposePage` ends. -/
inductive DisposePage (L : FileLayer F P σ) (hash : F → PageId → Nat) (f : F) (p : PageId) (mgr : BufMgr F P σ) :
    EStateM.Result (BufError F) (BufMgr F P σ) Unit → Prop where
  | absent (absent : ∀ i, ¬ mgr.Holds i f p) : DisposePage L hash f p mgr (.error (.hashNotFound f p) mgr)
  | disposed {i : FrameId} {table : BufHashTbl F} {files : σ} (holds : mgr.Holds i f p)
      (removed : mgr.hashTable.remove hash f p = .ok table) (run : L.deletePage f p mgr.files = .ok () files) :
      DisposePage L hash f p mgr (.ok () ((mgr.vacate i table).withFiles files))
  | failed {i : FrameId} {table : BufHashTbl F} {e : FileError} {files : σ} (holds : mgr.Holds i f p)
      (removed : mgr.hashTable.remove hash f p = .ok table) (run : L.deletePage f p mgr.files = .error e files) :
      DisposePage L hash f p mgr (.error (.file e) ((mgr.vacate i table).withFiles files))

theorem disposePage_spec (h : mgr.Agree hash) (f : F) (p : PageId) :
    DisposePage L hash f p mgr (disposePage L hash f p mgr) := by
  rw [disposePage, run_bind_ok (run_get mgr)]
  by_cases hcached : ∃ i, mgr.Holds i f p
  · obtain ⟨i, hi⟩ := hcached
    obtain ⟨table, hremove, -⟩ := h.vacate hi
    rw [h.lookup_some hi]
    dsimp only
    rw [setDesc, run_bind_ok (run_modify _ _), run_bind_ok (onTable_ok hremove)]
    have hvacate : onFiles (L.deletePage f p) (mgr.vacate i table) = (onFiles (L.deletePage f p) : BufM F P σ Unit)
        { mgr with hashTable := table, bufDescTable := Function.update mgr.bufDescTable i .clear } := rfl
    rw [← hvacate]
    have hfiles : (mgr.vacate i table).files = mgr.files := rfl
    cases hdelete : L.deletePage f p mgr.files with
    | ok _ files =>
      rw [← hfiles] at hdelete
      rw [onFiles_ok hdelete]
      exact .disposed hi hremove hdelete
    | error e files =>
      rw [← hfiles] at hdelete
      rw [onFiles_error hdelete]
      exact .failed hi hremove hdelete
  · rw [h.lookup_none (not_exists.mp hcached)]
    exact .absent (not_exists.mp hcached)

section FlushFile

/-- A page of the file is dropped. -/
def Drops (L : FileLayer F P σ) (hash : F → PageId → Nat) (f : F) (mgr m : BufMgr F P σ) : Prop :=
  ∃ i p, Dropped L hash mgr i f p m

/-- `flushFile` at one frame: it holds a pinned page of the file, or an unpinned one, or none. -/
theorem flushFrame_cases (h : mgr.Agree hash) (hw : Writable L mgr) (f : F) {i : FrameId} (hi : i < mgr.numBufs) :
    (∃ p, mgr.Holds i f p ∧ 0 < (mgr.bufDescTable i).pinCnt ∧
      flushFrame L hash f i mgr = .error (.pagePinned f p i) mgr) ∨
    (∃ p m, Dropped L hash mgr i f p m ∧ flushFrame L hash f i mgr = .ok () m) ∨
    (∀ p, ¬ mgr.Holds i f p) ∧ flushFrame L hash f i mgr = .ok () mgr := by
  rw [flushFrame, run_bind_ok (run_get mgr)]
  by_cases hf : (mgr.bufDescTable i).file = some f ∧ (mgr.bufDescTable i).valid = true
  · have hholds : mgr.Holds i f (mgr.bufDescTable i).pageNo := ⟨hi, hf.2, hf.1, rfl⟩
    rw [if_pos hf]
    by_cases hpin : (mgr.bufDescTable i).pinCnt > 0
    · rw [if_pos hpin]
      exact .inl ⟨_, hholds, hpin, rfl⟩
    · rw [if_neg hpin]
      obtain ⟨files, hwritten, hback⟩ := writeBack_eq hw hholds
      obtain ⟨table, hremove, -⟩ := h.vacate hholds
      refine .inr (.inl ⟨_, _, .drop hholds (Nat.eq_zero_of_not_pos hpin) hwritten hremove, ?_⟩)
      rw [run_bind_ok hback, setDesc, run_bind_ok (run_modify _ _), run_bind_ok (onTable_ok hremove), setDesc, run_modify]
      dsimp only
      rw [Function.update_idem]
      rfl
  · have hbad : ¬ ((mgr.bufDescTable i).valid = false ∧ (mgr.bufDescTable i).file = some f) := by
      rintro ⟨hinvalid, hsome⟩
      rw [((h.tidy i hi).cleared hinvalid).2.2] at hsome
      cases hsome
    rw [if_neg hf, if_neg hbad]
    exact .inr (.inr ⟨fun p hp => hf ⟨hp.2.file, hp.2.valid⟩, rfl⟩)

variable {W : BufMgr F P σ → Prop} (hwritable : ∀ {m}, W m → Writable L m)
  (hdrops : ∀ {f m m'}, W m → m.Agree hash → Drops L hash f m m' → W m')
include hwritable hdrops

/-- The loop of `flushFile`; by induction on the frames to come. -/
private theorem flushFrames_cases (f : F) {l : List FrameId} (h : mgr.Agree hash) (hW : W mgr)
    (hl : ∀ i ∈ l, i < mgr.numBufs) :
    ∃ m, Relation.ReflTransGen (Drops L hash f) mgr m ∧ m.Agree hash ∧ W m ∧
      ((∃ i p, m.Holds i f p ∧ 0 < (m.bufDescTable i).pinCnt ∧
          flushFrames L hash f l mgr = .error (.pagePinned f p i) m) ∨
        (flushFrames L hash f l mgr = .ok () m ∧ m.numBufs = mgr.numBufs ∧ (∀ i ∈ l, ∀ p, ¬ m.Holds i f p) ∧
          ∀ i p, m.Holds i f p → mgr.Holds i f p)) := by
  induction l generalizing mgr with
  | nil =>
    refine ⟨mgr, .refl, h, hW, .inr ⟨rfl, rfl, ?_, fun _ _ hi => hi⟩⟩
    exact fun i hi => absurd hi List.not_mem_nil
  | cons i l ih =>
    have hi := hl i List.mem_cons_self
    have hl' : ∀ j ∈ l, j < mgr.numBufs := fun j hj => hl j (List.mem_cons_of_mem _ hj)
    rcases flushFrame_cases h (hwritable hW) f hi with ⟨p, hp, hpin, hrun⟩ | ⟨p, m, hdropped, hrun⟩ | ⟨hno, hrun⟩
    · exact ⟨mgr, .refl, h, hW, .inl ⟨i, p, hp, hpin, by rw [flushFrames, run_bind_error hrun]⟩⟩
    · have hnum : m.numBufs = mgr.numBufs := by
        cases hdropped
        rfl
      have hdrop : Drops L hash f mgr m := ⟨i, p, hdropped⟩
      obtain ⟨m', hsteps, h', hW', hend⟩ := ih (hdropped.agree h) (hdrops hW h hdrop) (fun j hj => hnum ▸ hl' j hj)
      refine ⟨m', .head hdrop hsteps, h', hW', ?_⟩
      rw [flushFrames, run_bind_ok hrun]
      rcases hend with hpinned | ⟨hdone, hnum', hclear, hsub⟩
      · exact .inl hpinned
      · refine .inr ⟨hdone, hnum'.trans hnum, fun j hj q hq => ?_, fun j q hq => (hdropped.holds_iff.mp (hsub j q hq)).2⟩
        rcases List.mem_cons.mp hj with rfl | hj
        · exact (hdropped.holds_iff.mp (hsub j q hq)).1 rfl
        · exact hclear j hj q hq
    · obtain ⟨m', hsteps, h', hW', hend⟩ := ih h hW hl'
      refine ⟨m', hsteps, h', hW', ?_⟩
      rw [flushFrames, run_bind_ok hrun]
      rcases hend with hpinned | ⟨hdone, hnum', hclear, hsub⟩
      · exact .inl hpinned
      · refine .inr ⟨hdone, hnum', fun j hj q hq => ?_, hsub⟩
        rcases List.mem_cons.mp hj with rfl | hj
        · exact hno q (hsub j q hq)
        · exact hclear j hj q hq

/-- `flushFile` drops pages of the file, until it meets a pinned one or none is left. -/
theorem flushFile_cases (h : mgr.Agree hash) (hW : W mgr) (f : F) :
    ∃ m, Relation.ReflTransGen (Drops L hash f) mgr m ∧ m.Agree hash ∧ W m ∧
      ((∃ i p, m.Holds i f p ∧ 0 < (m.bufDescTable i).pinCnt ∧ flushFile L hash f mgr = .error (.pagePinned f p i) m) ∨
        (flushFile L hash f mgr = .ok () m ∧ ∀ i p, ¬ m.Holds i f p)) := by
  obtain ⟨m, hsteps, h', hW', hend⟩ := flushFrames_cases hwritable hdrops f h hW fun i hi => List.mem_range.mp hi
  refine ⟨m, hsteps, h', hW', ?_⟩
  rw [flushFile, run_bind_ok (run_get mgr)]
  rcases hend with hpinned | ⟨hdone, hnum, hclear, -⟩
  · exact .inl hpinned
  · exact .inr ⟨hdone, fun i p hi => hclear i (List.mem_range.mpr (hnum ▸ hi.1)) p hi⟩

end FlushFile

end Cs564.P3
