import Cs564.P3Buffer.Operations

/-!
# Two file layers under one manager

An operation does the same over two file layers if they do the same with the calls that it makes: `allocBuf` writes one
page of the pool at most (`SameWrites`), `readPage` and `allocPage` make one call behind it, and `flushFile` writes one
page of the pool after the other.
-/

namespace Cs564.P3

open P2 (BufError BufHashTbl BufDesc BufMgr BufM onFiles onTable setDesc setPage advanceClock onFiles_ok)
open P2.BufMgr

variable {F P σ : Type} [DecidableEq F] {L L' : FileLayer F P σ} {hash : F → PageId → Nat} {mgr : BufMgr F P σ} {f : F}
  {p : PageId}

/-- The layers do the same when a page of the pool is written. -/
def SameWrites (L L' : FileLayer F P σ) (mgr : BufMgr F P σ) : Prop :=
  ∀ i f p, mgr.Holds i f p → L.writePage f p (mgr.bufPool i) mgr.files = L'.writePage f p (mgr.bufPool i) mgr.files

omit [DecidableEq F] in
/-- The call of a file. -/
private theorem onFiles_congr {α : Type} {call call' : EStateM FileError σ α} (h : call mgr.files = call' mgr.files) :
    (onFiles call : BufM F P σ α) mgr = onFiles call' mgr := by
  unfold onFiles
  rw [h]

omit [DecidableEq F] in
theorem SameWrites.writeBack (h : SameWrites L L' mgr) {i : FrameId} (hi : mgr.Holds i f p) :
    P3.writeBack L i mgr = P3.writeBack L' i mgr := by
  rw [P3.writeBack, P3.writeBack, run_bind_ok (run_get mgr), run_bind_ok (run_get mgr), hi.2.file]
  by_cases hdirty : (mgr.bufDescTable i).dirty = true
  · rw [if_pos hdirty, if_pos hdirty, hi.2.pageNo]
    exact onFiles_congr (h i f p hi)
  · rw [if_neg hdirty, if_neg hdirty]

theorem SameWrites.allocBuf (h : SameWrites L L' mgr) (hagree : mgr.Agree hash) :
    P3.allocBuf L hash mgr = P3.allocBuf L' hash mgr := by
  rcases first_or_none mgr.Stops (2 * mgr.numBufs) with hnone | ⟨k, hk, hstops, hnot⟩
  · rw [allocBuf_none hagree hnone, allocBuf_none hagree hnone]
  · by_cases hinvalid : (mgr.bufDescTable (turn mgr.numBufs mgr.clockHand k)).valid = false
    · rw [allocBuf_invalid hagree hk hnot hinvalid, allocBuf_invalid hagree hk hnot hinvalid]
    · have t : mgr.Touched (mgr.swept k) := P2.touched_swept hagree.pos k
      have hlt : turn mgr.numBufs mgr.clockHand k < mgr.numBufs := turn_lt hagree.pos k
      have hvalid := eq_true_of_ne_false hinvalid
      obtain ⟨f, hf⟩ := (hagree.tidy _ hlt).named hvalid
      have hholds : mgr.Holds (turn mgr.numBufs mgr.clockHand k) f _ := ⟨hlt, hvalid, hf, rfl⟩
      obtain ⟨table, hremove, -⟩ := hagree.vacate hholds
      -- the page is written from the pool as it was
      have hsame : SameWrites L L' { mgr.swept k with hashTable := table } := by
        intro i g q hi
        have hi' : (mgr.swept k).Holds i g q := hi
        change L.writePage g q ((mgr.swept k).bufPool i) (mgr.swept k).files = L'.writePage g q _ _
        rw [t.bufPool, t.files]
        exact h i g q (t.holds_iff.mp hi')
      have hback := hsame.writeBack (t.holds_iff.mpr hholds)
      rw [allocBuf_valid hagree hk hnot hstops hholds hremove, allocBuf_valid hagree hk hnot hstops hholds hremove,
        run_bind, run_bind, hback]

/-- A call of the file behind `allocBuf`. -/
private theorem SameWrites.behind {α β : Type} {call call' : EStateM FileError σ α} {rest : FrameId → α → BufM F P σ β}
    (h : SameWrites L L' mgr) (hagree : mgr.Agree hash) (hw : Writable L mgr)
    (hcall : ∀ i m, Freed L hash mgr i m → call m.files = call' m.files) :
    (do let fid ← P3.allocBuf L hash
        let a ← onFiles call
        rest fid a : BufM F P σ β) mgr =
      (do let fid ← P3.allocBuf L' hash
          let a ← onFiles call'
          rest fid a : BufM F P σ β) mgr := by
  rw [run_bind, run_bind, ← h.allocBuf hagree]
  rcases allocBuf_cases hagree hw with ⟨m, halloc, -, -⟩ | ⟨i, m, halloc, hfreed⟩
  · rw [halloc]
  · rw [halloc]
    dsimp only
    rw [run_bind, run_bind, onFiles_congr (hcall i m hfreed)]

theorem SameWrites.readPage (h : SameWrites L L' mgr) (hagree : mgr.Agree hash) (hw : Writable L mgr)
    (hreads : ∀ i m, Freed L hash mgr i m → L.readPage f p m.files = L'.readPage f p m.files) :
    P3.readPage L hash f p mgr = P3.readPage L' hash f p mgr := by
  rw [P3.readPage, P3.readPage, run_bind_ok (run_get mgr), run_bind_ok (run_get mgr)]
  cases mgr.hashTable.lookup hash f p with
  | ok fid => rfl
  | error e => exact h.behind hagree hw hreads

theorem SameWrites.allocPage (h : SameWrites L L' mgr) (hagree : mgr.Agree hash) (hw : Writable L mgr)
    (hallocates : ∀ i m, Freed L hash mgr i m → L.allocatePage f m.files = L'.allocatePage f m.files) :
    P3.allocPage L hash f mgr = P3.allocPage L' hash f mgr :=
  h.behind hagree hw hallocates

theorem disposePage_congr (hagree : mgr.Agree hash)
    (hdeletes : ∀ i, mgr.Holds i f p → L.deletePage f p mgr.files = L'.deletePage f p mgr.files) :
    P3.disposePage L hash f p mgr = P3.disposePage L' hash f p mgr := by
  rw [P3.disposePage, P3.disposePage, run_bind_ok (run_get mgr), run_bind_ok (run_get mgr)]
  by_cases hcached : ∃ i, mgr.Holds i f p
  · obtain ⟨i, hi⟩ := hcached
    obtain ⟨table, hremove, -⟩ := hagree.vacate hi
    rw [hagree.lookup_some hi]
    dsimp only
    rw [setDesc, run_bind_ok (run_modify _ _), run_bind_ok (run_modify _ _), run_bind_ok (P2.onTable_ok hremove),
      run_bind_ok (P2.onTable_ok hremove)]
    refine onFiles_congr ?_
    exact hdeletes i hi
  · rw [hagree.lookup_none (not_exists.mp hcached)]

section FlushFile

variable {W : BufMgr F P σ → Prop} (hsame : ∀ {m}, W m → SameWrites L L' m)

include hsame in
private theorem flushFrame_congr (hW : W mgr) {i : FrameId} (hi : i < mgr.numBufs) :
    P3.flushFrame L hash f i mgr = P3.flushFrame L' hash f i mgr := by
  rw [P3.flushFrame, P3.flushFrame, run_bind_ok (run_get mgr), run_bind_ok (run_get mgr)]
  by_cases hf : (mgr.bufDescTable i).file = some f ∧ (mgr.bufDescTable i).valid = true
  · have hholds : mgr.Holds i f (mgr.bufDescTable i).pageNo := ⟨hi, hf.2, hf.1, rfl⟩
    rw [if_pos hf, if_pos hf]
    by_cases hpin : (mgr.bufDescTable i).pinCnt > 0
    · rw [if_pos hpin, if_pos hpin]
    · rw [if_neg hpin, if_neg hpin, run_bind, run_bind, (hsame hW).writeBack hholds]
  · rw [if_neg hf, if_neg hf]

variable (hwritable : ∀ {m}, W m → Writable L m)
  (hdrops : ∀ {f m m'}, W m → m.Agree hash → Drops L hash f m m' → W m')
include hsame hwritable hdrops

/-- The loop of `flushFile`; by induction on the frames to come. -/
private theorem flushFrames_congr {l : List FrameId} (hagree : mgr.Agree hash) (hW : W mgr)
    (hl : ∀ i ∈ l, i < mgr.numBufs) : P3.flushFrames L hash f l mgr = P3.flushFrames L' hash f l mgr := by
  induction l generalizing mgr with
  | nil => rfl
  | cons i l ih =>
    have hi := hl i List.mem_cons_self
    have hl' : ∀ j ∈ l, j < mgr.numBufs := fun j hj => hl j (List.mem_cons_of_mem _ hj)
    rw [P3.flushFrames, P3.flushFrames, run_bind, run_bind, ← flushFrame_congr hsame hW hi]
    rcases flushFrame_cases hagree (hwritable hW) f hi with ⟨p, -, -, hrun⟩ | ⟨p, m, hdropped, hrun⟩ | ⟨-, hrun⟩
    · rw [hrun]
    · have hnum : m.numBufs = mgr.numBufs := by
        cases hdropped
        rfl
      rw [hrun]
      exact ih (hdropped.agree hagree) (hdrops hW hagree ⟨i, p, hdropped⟩) fun j hj => hnum ▸ hl' j hj
    · rw [hrun]
      exact ih hagree hW hl'

theorem flushFile_congr (hagree : mgr.Agree hash) (hW : W mgr) :
    P3.flushFile L hash f mgr = P3.flushFile L' hash f mgr := by
  rw [P3.flushFile, P3.flushFile, run_bind_ok (run_get mgr), run_bind_ok (run_get mgr)]
  exact flushFrames_congr hsame hwritable hdrops hagree hW fun i hi => List.mem_range.mp hi

end FlushFile

end Cs564.P3
