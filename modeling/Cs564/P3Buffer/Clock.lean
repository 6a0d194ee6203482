import Cs564.P2Buffer.Clock
import Cs564.P3Buffer.Manager

/-!
# The clock of `p3`

The loop of `allocBuf` moves the hand before it looks at a frame and counts the frames, but it looks at the frames in the
same order as `p2`'s and passes over the same ones, so that its states are `BufMgr.swept`, too.
-/

namespace Cs564.P3

open P2 (BufError BufHashTbl BufDesc BufMgr BufM onFiles onTable setDesc advanceClock onTable_ok)
open P2.BufMgr

variable {F P σ : Type}

/-- The manager after `k` rounds of the loop, with the hand at the last frame. -/
def scanned (mgr : BufMgr F P σ) (k : Nat) : BufMgr F P σ :=
  { mgr.swept k with clockHand := (mgr.clockHand + k) % mgr.numBufs }

variable {mgr : BufMgr F P σ}

theorem scanned_zero (hhand : mgr.clockHand < mgr.numBufs) : scanned mgr 0 = mgr := by
  have hsame : (mgr.clockHand + 0) % mgr.numBufs = mgr.clockHand := Nat.mod_eq_of_lt hhand
  unfold scanned
  rw [swept_zero, hsame]

theorem touched_scanned (hpos : 0 < mgr.numBufs) (k : Nat) : mgr.Touched (scanned mgr k) :=
  { P2.touched_swept hpos k with hand := Nat.mod_lt _ hpos }

/-- The hand moves on to the next frame. -/
private theorem advance_scanned (mgr : BufMgr F P σ) (k : Nat) :
    (advanceClock : BufM F P σ Unit) (scanned mgr k) = .ok () (mgr.swept k) := by
  have hhand : ((mgr.clockHand + k) % mgr.numBufs + 1) % mgr.numBufs = turn mgr.numBufs mgr.clockHand k := by
    unfold turn
    rw [Nat.mod_add_mod, Nat.add_right_comm]
  have hswept : { scanned mgr k with clockHand := ((mgr.clockHand + k) % mgr.numBufs + 1) % mgr.numBufs } =
      mgr.swept k := by
    rw [hhand]
    rfl
  exact congrArg (EStateM.Result.ok ()) hswept

/-- The frame at the hand has been passed over. -/
private theorem passed_eq (mgr : BufMgr F P σ) (k : Nat) : { mgr.swept k with
    bufDescTable := Function.update (mgr.swept k).bufDescTable (mgr.swept k).clockHand
      { (mgr.swept k).bufDescTable (mgr.swept k).clockHand with refbit := false } } = scanned mgr (k + 1) := by
  have hhand : (mgr.clockHand + (k + 1)) % mgr.numBufs = (mgr.swept k).clockHand := by
    rw [← Nat.add_assoc, Nat.add_right_comm]
    rfl
  unfold scanned
  rw [← swept_succ, hhand]

section Loop

variable [DecidableEq F] {L : FileLayer F P σ} {hash : F → PageId → Nat}

/-- One look that does not end the loop. -/
private theorem clockLoop_pass {k rounds : Nat} (hnot : ¬ mgr.Stops k) :
    clockLoop hash (rounds + 1) k (scanned mgr k) = clockLoop hash rounds (k + 1) (scanned mgr (k + 1)) := by
  have hpass := passed_eq mgr k
  unfold P2.BufMgr.Stops P2.BufMgr.Ready at hnot
  push Not at hnot
  have hvalid : ¬ ((mgr.swept k).bufDescTable (mgr.swept k).clockHand).valid = false := hnot.1
  rw [clockLoop, run_bind_ok (advance_scanned mgr k), run_bind_ok (run_get _), if_neg hvalid]
  by_cases href : ((mgr.swept k).bufDescTable (mgr.swept k).clockHand).refbit = false
  · have hpin : ¬ ((mgr.swept k).bufDescTable (mgr.swept k).clockHand).pinCnt = 0 := hnot.2 href
    have hsame : { (mgr.swept k).bufDescTable (mgr.swept k).clockHand with refbit := false } =
        (mgr.swept k).bufDescTable (mgr.swept k).clockHand := by rw [← href]
    rw [hsame, Function.update_eq_self] at hpass
    rw [if_pos href, if_neg hpin, ← hpass]
  · rw [if_neg href, setDesc, run_bind_ok (run_modify _ _), ← hpass]

/-- The loop passes over the frames at which it does not end; by induction on their number. -/
private theorem clockLoop_passes (hhand : mgr.clockHand < mgr.numBufs) {k : Nat} (hk : k ≤ 2 * mgr.numBufs)
    (hnot : ∀ j < k, ¬ mgr.Stops j) :
    clockLoop hash (2 * mgr.numBufs) 0 mgr = clockLoop hash (2 * mgr.numBufs - k) k (scanned mgr k) := by
  induction k with
  | zero => rw [scanned_zero hhand, Nat.sub_zero]
  | succ k ih =>
    have hrounds : 2 * mgr.numBufs - k = 2 * mgr.numBufs - (k + 1) + 1 := by omega
    rw [ih (Nat.le_of_succ_le hk) fun j hj => hnot j (Nat.lt_succ_of_lt hj), hrounds]
    exact clockLoop_pass (hnot k (Nat.lt_succ_self k))

/-- The loop ends without a frame. -/
theorem allocBuf_none (h : mgr.Agree hash) (hnot : ∀ k < 2 * mgr.numBufs, ¬ mgr.Stops k) :
    allocBuf L hash mgr = .error .bufferExceeded (scanned mgr (2 * mgr.numBufs)) := by
  have hloop : clockLoop hash (2 * mgr.numBufs) 0 mgr = _ := clockLoop_passes h.hand (Nat.le_refl _) hnot
  rw [Nat.sub_self] at hloop
  rw [allocBuf, run_bind_ok (run_get mgr), run_bind_ok hloop]
  exact congrFun (if_pos ⟨rfl, Nat.le_refl _⟩) _

/-- The loop ends at an invalid frame, which is in the first round. -/
theorem allocBuf_invalid (h : mgr.Agree hash) {k : Nat} (hk : k < 2 * mgr.numBufs) (hnot : ∀ j < k, ¬ mgr.Stops j)
    (hinvalid : (mgr.bufDescTable (turn mgr.numBufs mgr.clockHand k)).valid = false) :
    allocBuf L hash mgr = .ok (turn mgr.numBufs mgr.clockHand k)
      ((mgr.swept k).vacate (turn mgr.numBufs mgr.clockHand k) mgr.hashTable) := by
  have hfirst : k < mgr.numBufs := invalid_first h.pos hnot hinvalid
  have hrounds : 2 * mgr.numBufs - k = 2 * mgr.numBufs - (k + 1) + 1 := by omega
  have hdesc : ((mgr.swept k).bufDescTable (mgr.swept k).clockHand).valid = false := by
    rw [swept_valid]
    exact hinvalid
  have hloop : clockLoop hash (2 * mgr.numBufs) 0 mgr = .ok (false, k + 1) (mgr.swept k) := by
    rw [clockLoop_passes h.hand (Nat.le_of_lt hk) hnot, hrounds, clockLoop, run_bind_ok (advance_scanned mgr k),
      run_bind_ok (run_get _), if_pos hdesc]
    rfl
  have hfound : ¬ ((false : Bool) = false ∧ 2 * mgr.numBufs ≤ k + 1) := by
    rintro ⟨-, hlate⟩
    have hpos := h.pos
    omega
  have hclean : ((mgr.swept k).bufDescTable (mgr.swept k).clockHand).dirty = false := by
    have htouched := h.touched (P2.touched_swept h.pos k)
    exact ((htouched.tidy _ htouched.hand).cleared hdesc).2.1
  have hback : writeBack L (mgr.swept k).clockHand (mgr.swept k) = .ok () (mgr.swept k) := by
    rw [writeBack, run_bind_ok (run_get _), hclean]
    rfl
  rw [allocBuf, run_bind_ok (run_get mgr), run_bind_ok hloop, if_neg hfound, run_bind_ok (run_get _),
    run_bind_ok hback]
  rfl

/-- The loop ends at a valid frame: its page leaves the hash table and is written if it is dirty. -/
theorem allocBuf_valid (h : mgr.Agree hash) {k : Nat} (hk : k < 2 * mgr.numBufs) (hnot : ∀ j < k, ¬ mgr.Stops j)
    (hstops : mgr.Stops k) {f : F} {p : PageId} (hholds : mgr.Holds (turn mgr.numBufs mgr.clockHand k) f p)
    {table : BufHashTbl F} (hremove : mgr.hashTable.remove hash f p = .ok table) :
    allocBuf L hash mgr = (do
      writeBack L (turn mgr.numBufs mgr.clockHand k)
      setDesc (turn mgr.numBufs mgr.clockHand k) .clear
      return turn mgr.numBufs mgr.clockHand k : BufM F P σ FrameId) { mgr.swept k with hashTable := table } := by
  have hrounds : 2 * mgr.numBufs - k = 2 * mgr.numBufs - (k + 1) + 1 := by omega
  have hswept : (mgr.swept k).Holds (mgr.swept k).clockHand f p := (P2.touched_swept h.pos k).holds_iff.mpr hholds
  have hvalid : ¬ ((mgr.swept k).bufDescTable (mgr.swept k).clockHand).valid = false :=
    fun hinvalid => Bool.false_ne_true (hinvalid.symm.trans hswept.2.valid)
  have hfree : ((mgr.swept k).bufDescTable (mgr.swept k).clockHand).refbit = false ∧
      ((mgr.swept k).bufDescTable (mgr.swept k).clockHand).pinCnt = 0 := hstops.resolve_left hvalid
  have hloop : clockLoop hash (2 * mgr.numBufs) 0 mgr = .ok (true, k + 1) { mgr.swept k with hashTable := table } := by
    rw [clockLoop_passes h.hand (Nat.le_of_lt hk) hnot, hrounds, clockLoop, run_bind_ok (advance_scanned mgr k),
      run_bind_ok (run_get _), if_neg hvalid, if_pos hfree.1, if_pos hfree.2, hswept.2.file, hswept.2.pageNo]
    exact run_bind_ok (onTable_ok hremove)
  rw [allocBuf, run_bind_ok (run_get mgr), run_bind_ok hloop, if_neg fun hfound => Bool.noConfusion hfound.1,
    run_bind_ok (run_get _)]
  rfl

end Loop

end Cs564.P3
