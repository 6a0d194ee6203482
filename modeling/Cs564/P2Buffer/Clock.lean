import Cs564.Lib.Cycle
import Cs564.P2Buffer.Updates

/-!
# The victim of the clock

The loop of `allocBuf` looks at the frames in the order of the clock and passes over those it cannot take
(`BufMgr.swept`): in the first round it takes the first frame that is invalid or has no reference bit and no pins, in
the second one the first frame without pins, and the third look at the first frame finds it pinned.  So it takes what
the clock algorithm takes, for every hand, every number of frames and all descriptors (`allocBuf_victim`).
-/

namespace Cs564.P2

variable {F P σ : Type}

namespace BufMgr

/-- The manager after the first `k` frames behind the hand have been passed over. -/
def swept (mgr : BufMgr F P σ) (k : Nat) : BufMgr F P σ :=
  { mgr with
    clockHand := turn mgr.numBufs mgr.clockHand k
    bufDescTable := fun i =>
      if i ∈ turns mgr.numBufs mgr.clockHand k then { mgr.bufDescTable i with refbit := false } else mgr.bufDescTable i }

/-- The frame can be taken at once. -/
def Ready (mgr : BufMgr F P σ) (i : FrameId) : Prop :=
  (mgr.bufDescTable i).valid = false ∨ (mgr.bufDescTable i).refbit = false ∧ (mgr.bufDescTable i).pinCnt = 0

instance (mgr : BufMgr F P σ) : DecidablePred mgr.Ready := fun _ => inferInstanceAs (Decidable (_ ∨ _ ∧ _))

/-- The loop ends at the frame it looks at after `k` others. -/
def Stops (mgr : BufMgr F P σ) (k : Nat) : Prop := (mgr.swept k).Ready (turn mgr.numBufs mgr.clockHand k)

instance (mgr : BufMgr F P σ) : DecidablePred mgr.Stops := fun k => inferInstanceAs (Decidable ((mgr.swept k).Ready _))

section Swept

variable {mgr : BufMgr F P σ} {i k : Nat}

theorem swept_zero (mgr : BufMgr F P σ) :
    mgr.swept 0 = { mgr with clockHand := (mgr.clockHand + 1) % mgr.numBufs } := by
  unfold swept
  simp only [turns_zero, List.not_mem_nil, if_false]
  rfl

theorem swept_desc (mgr : BufMgr F P σ) (k i : Nat) : (mgr.swept k).bufDescTable i =
    if i ∈ turns mgr.numBufs mgr.clockHand k then { mgr.bufDescTable i with refbit := false }
    else mgr.bufDescTable i := rfl

@[simp] theorem swept_valid : ((mgr.swept k).bufDescTable i).valid = (mgr.bufDescTable i).valid := by
  rw [swept_desc]
  split <;> rfl

@[simp] theorem swept_pinCnt : ((mgr.swept k).bufDescTable i).pinCnt = (mgr.bufDescTable i).pinCnt := by
  rw [swept_desc]
  split <;> rfl

/-- A frame is passed over with its reference bit cleared. -/
theorem swept_succ (mgr : BufMgr F P σ) (k : Nat) : { mgr.swept k with
    clockHand := ((mgr.swept k).clockHand + 1) % mgr.numBufs
    bufDescTable := Function.update (mgr.swept k).bufDescTable (mgr.swept k).clockHand
      { (mgr.swept k).bufDescTable (mgr.swept k).clockHand with refbit := false } } = mgr.swept (k + 1) := by
  have hhand : ((mgr.swept k).clockHand + 1) % mgr.numBufs = (mgr.swept (k + 1)).clockHand := turn_succ k
  have hdesc : Function.update (mgr.swept k).bufDescTable (mgr.swept k).clockHand
      { (mgr.swept k).bufDescTable (mgr.swept k).clockHand with refbit := false } =
        (mgr.swept (k + 1)).bufDescTable := by
    funext i
    have hmem : i ∈ turns mgr.numBufs mgr.clockHand (k + 1) ↔
        i ∈ turns mgr.numBufs mgr.clockHand k ∨ i = (mgr.swept k).clockHand := by
      rw [turns_succ, List.mem_append, List.mem_singleton]
      rfl
    by_cases hi : i = (mgr.swept k).clockHand
    · have hnew := swept_desc mgr (k + 1) i
      rw [if_pos (hmem.mpr (.inr hi)), hi] at hnew
      rw [hi, Function.update_self, hnew, swept_desc]
      split <;> rfl
    · rw [Function.update_of_ne hi, swept_desc, swept_desc]
      by_cases hold : i ∈ turns mgr.numBufs mgr.clockHand k
      · rw [if_pos hold, if_pos (hmem.mpr (.inl hold))]
      · rw [if_neg hold, if_neg fun hnew => (hmem.mp hnew).elim hold hi]
  rw [hhand, hdesc]
  rfl

/-- In the first round the frames are as they were. -/
theorem stops_first (hk : k < mgr.numBufs) : mgr.Stops k ↔ mgr.Ready (turn mgr.numBufs mgr.clockHand k) := by
  have hnot : turn mgr.numBufs mgr.clockHand k ∉ turns mgr.numBufs mgr.clockHand k := turn_notMem_turns hk
  unfold Stops Ready
  rw [swept_desc, if_neg hnot]

/-- After it, the reference bits are cleared. -/
theorem stops_later (hn : 0 < mgr.numBufs) (hk : mgr.numBufs ≤ k) :
    mgr.Stops k ↔ (mgr.bufDescTable (turn mgr.numBufs mgr.clockHand k)).valid = false ∨
      (mgr.bufDescTable (turn mgr.numBufs mgr.clockHand k)).pinCnt = 0 := by
  have hmem : turn mgr.numBufs mgr.clockHand k ∈ turns mgr.numBufs mgr.clockHand k := mem_turns_of_le hk (turn_lt hn k)
  unfold Stops Ready
  rw [swept_desc, if_pos hmem]
  simp

/-- An invalid frame ends the loop in the first round. -/
theorem invalid_first (hn : 0 < mgr.numBufs) (hnot : ∀ j < k, ¬ mgr.Stops j)
    (hinvalid : (mgr.bufDescTable (turn mgr.numBufs mgr.clockHand k)).valid = false) : k < mgr.numBufs := by
  by_contra hlater
  obtain ⟨j, rfl⟩ : ∃ j, k = j + mgr.numBufs := ⟨k - mgr.numBufs, by omega⟩
  rw [turn_add] at hinvalid
  exact hnot j (Nat.lt_add_of_pos_right hn) (.inl (by rwa [swept_valid]))

/-- Where the loop does not end in its first two rounds, all frames are valid and pinned. -/
theorem not_stops_iff (hn : 0 < mgr.numBufs) : (∀ k < 2 * mgr.numBufs, ¬ mgr.Stops k) ↔
    ∀ i, i < mgr.numBufs → (mgr.bufDescTable i).valid = true ∧ 0 < (mgr.bufDescTable i).pinCnt := by
  constructor
  · intro hnot i hi
    have hturn : ∃ k < mgr.numBufs, turn mgr.numBufs mgr.clockHand k = i := exists_turn hi
    obtain ⟨k, hk, rfl⟩ := hturn
    have hlater := hnot (k + mgr.numBufs) (by omega)
    rw [stops_later hn (Nat.le_add_left _ _), turn_add] at hlater
    push Not at hlater
    exact ⟨by simpa using hlater.1, Nat.pos_of_ne_zero hlater.2⟩
  · intro hall k hk
    obtain ⟨hvalid, hpin⟩ := hall (turn mgr.numBufs mgr.clockHand k) (turn_lt hn k)
    rintro (hinvalid | ⟨-, hzero⟩)
    · rw [swept_valid, hvalid] at hinvalid
      cases hinvalid
    · rw [swept_pinCnt] at hzero
      omega

/-- Nor does it end with the third look at the first frame. -/
theorem not_stops_last (hn : 0 < mgr.numBufs) (hnot : ∀ k < 2 * mgr.numBufs, ¬ mgr.Stops k) :
    ¬ mgr.Stops (2 * mgr.numBufs) := by
  rw [stops_later hn (by omega)]
  obtain ⟨hvalid, hpin⟩ := (not_stops_iff hn).mp hnot _ (turn_lt hn (2 * mgr.numBufs))
  rintro (hinvalid | hzero)
  · rw [hvalid] at hinvalid
    cases hinvalid
  · omega

end Swept

end BufMgr

open BufMgr

variable [DecidableEq F] {L : FileLayer F P σ} {hash : F → PageId → Nat} {mgr : BufMgr F P σ}

omit [DecidableEq F] in
/-- Only the hand and reference bits have moved. -/
theorem touched_swept (hn : 0 < mgr.numBufs) (k : Nat) : mgr.Touched (mgr.swept k) := by
  refine ⟨rfl, rfl, rfl, rfl, turn_lt hn k, fun i => ?_⟩
  rw [swept_desc]
  split <;> rfl

section Loop

/-- One look that does not end the loop. -/
private theorem clockLoop_pass (hn : 0 < mgr.numBufs) {k fuel : Nat} (hk : k ≤ 2 * mgr.numBufs) (hnot : ¬ mgr.Stops k) :
    clockLoop L hash ((mgr.clockHand + 1) % mgr.numBufs) (fuel + 1) ((k + (mgr.numBufs - 1)) / mgr.numBufs)
        (mgr.swept k) =
      clockLoop L hash ((mgr.clockHand + 1) % mgr.numBufs) fuel ((k + 1 + (mgr.numBufs - 1)) / mgr.numBufs)
        (mgr.swept (k + 1)) := by
  have hloop : (if (mgr.clockHand + 1) % mgr.numBufs = (mgr.swept k).clockHand then
      (k + (mgr.numBufs - 1)) / mgr.numBufs + 1 else (k + (mgr.numBufs - 1)) / mgr.numBufs) =
        (k + 1 + (mgr.numBufs - 1)) / mgr.numBufs := by
    rw [← rounds_begun hn k]
    exact if_congr turn_eq_first_iff rfl rfl
  rw [clockLoop, if_pos (rounds_begun_lt hn hk), run_bind_ok (run_get _), hloop]
  have hpass := swept_succ mgr k
  unfold Stops Ready at hnot
  push Not at hnot
  have hvalid : ((mgr.swept k).bufDescTable (mgr.swept k).clockHand).valid = true := Bool.of_not_eq_false hnot.1
  rw [if_pos hvalid]
  by_cases href : ((mgr.swept k).bufDescTable (mgr.swept k).clockHand).refbit = true
  · rw [if_pos href, setDesc, advanceClock, run_bind_ok (run_modify _ _), run_bind_ok (run_modify _ _), ← hpass]
    rfl
  · have hfalse : ((mgr.swept k).bufDescTable (mgr.swept k).clockHand).refbit = false := Bool.eq_false_iff.mpr href
    have hpin : ((mgr.swept k).bufDescTable (mgr.swept k).clockHand).pinCnt > 0 := Nat.pos_of_ne_zero (hnot.2 hfalse)
    have hsame : { (mgr.swept k).bufDescTable (mgr.swept k).clockHand with refbit := false } =
        (mgr.swept k).bufDescTable (mgr.swept k).clockHand := by rw [← hfalse]
    rw [hsame, Function.update_eq_self] at hpass
    rw [if_neg href, if_pos hpin, advanceClock, run_bind_ok (run_modify _ _), ← hpass]
    rfl

/-- The loop passes over the frames at which it does not end; by induction on their number. -/
private theorem clockLoop_passes (hn : 0 < mgr.numBufs) {k : Nat} (hk : k ≤ 2 * mgr.numBufs + 1)
    (hnot : ∀ j < k, ¬ mgr.Stops j) : allocBuf L hash mgr =
      clockLoop L hash ((mgr.clockHand + 1) % mgr.numBufs) (2 * mgr.numBufs + 1 - k)
        ((k + (mgr.numBufs - 1)) / mgr.numBufs) (mgr.swept k) := by
  induction k with
  | zero =>
    have hzero : (0 + (mgr.numBufs - 1)) / mgr.numBufs = 0 := Nat.div_eq_of_lt (by omega)
    rw [hzero, swept_zero, allocBuf, advanceClock, run_bind_ok (run_modify _ _), run_bind_ok (run_get _)]
    rfl
  | succ k ih =>
    have hfuel : 2 * mgr.numBufs + 1 - k = 2 * mgr.numBufs + 1 - (k + 1) + 1 := by omega
    rw [ih (Nat.le_of_succ_le hk) fun j hj => hnot j (Nat.lt_succ_of_lt hj), hfuel]
    exact clockLoop_pass hn (Nat.le_of_lt_succ hk) (hnot k (Nat.lt_succ_self k))

/-- The loop ends without a frame. -/
theorem allocBuf_none (hn : 0 < mgr.numBufs) (hnot : ∀ k < 2 * mgr.numBufs, ¬ mgr.Stops k) :
    allocBuf L hash mgr = .error .bufferExceeded (mgr.swept (2 * mgr.numBufs + 1)) := by
  have hall : ∀ k < 2 * mgr.numBufs + 1, ¬ mgr.Stops k := by
    intro k hk
    rcases Nat.lt_or_eq_of_le (Nat.le_of_lt_succ hk) with hlt | rfl
    · exact hnot k hlt
    · exact not_stops_last hn hnot
  rw [clockLoop_passes hn (Nat.le_refl _) hall, Nat.sub_self, rounds_begun_eq hn]
  rfl

/-- The loop ends at a frame. -/
theorem allocBuf_at (hn : 0 < mgr.numBufs) {k : Nat} (hk : k < 2 * mgr.numBufs) (hnot : ∀ j < k, ¬ mgr.Stops j)
    (hstops : mgr.Stops k) : allocBuf L hash mgr =
      if (mgr.bufDescTable (turn mgr.numBufs mgr.clockHand k)).valid then
        (do evict L hash (turn mgr.numBufs mgr.clockHand k); return turn mgr.numBufs mgr.clockHand k :
          BufM F P σ FrameId) (mgr.swept k)
      else .ok (turn mgr.numBufs mgr.clockHand k) (mgr.swept k) := by
  have hfuel : 2 * mgr.numBufs + 1 - k = 2 * mgr.numBufs - k + 1 := by omega
  rw [clockLoop_passes hn (by omega) hnot, hfuel, clockLoop, if_pos (rounds_begun_lt hn (Nat.le_of_lt hk)),
    run_bind_ok (run_get _)]
  have hvalid : ((mgr.swept k).bufDescTable (mgr.swept k).clockHand).valid =
      (mgr.bufDescTable (turn mgr.numBufs mgr.clockHand k)).valid := swept_valid
  rw [hvalid]
  rcases hstops with hinvalid | ⟨href, hpin⟩
  · rw [swept_valid] at hinvalid
    rw [hinvalid]
    rfl
  · have href' : ¬ ((mgr.swept k).bufDescTable (mgr.swept k).clockHand).refbit = true := Bool.eq_false_iff.mp href
    have hpin' : ¬ ((mgr.swept k).bufDescTable (mgr.swept k).clockHand).pinCnt > 0 := Nat.not_lt.mpr (Nat.le_of_eq hpin)
    rw [if_neg href', if_neg hpin']
    split <;> rfl

end Loop

/-- How `allocBuf` ends with the frame behind `k` others: they have lost their reference bits.  An invalid frame is
returned as it is; the page of a valid one is written if it is dirty, and then the page, but no other, is dropped; if the
write throws, this is what `allocBuf` throws, and no page is dropped. -/
inductive Takes (L : FileLayer F P σ) (hash : F → PageId → Nat) (mgr : BufMgr F P σ) (k : Nat) :
    EStateM.Result (BufError F) (BufMgr F P σ) FrameId → Prop where
  | invalid (invalid : (mgr.bufDescTable (turn mgr.numBufs mgr.clockHand k)).valid = false) :
      Takes L hash mgr k (.ok (turn mgr.numBufs mgr.clockHand k) (mgr.swept k))
  | evicted {f : F} {p : PageId} {files : σ} {table : BufHashTbl F}
      (holds : mgr.Holds (turn mgr.numBufs mgr.clockHand k) f p)
      (unpinned : (mgr.bufDescTable (turn mgr.numBufs mgr.clockHand k)).pinCnt = 0)
      (written : mgr.Written L (turn mgr.numBufs mgr.clockHand k) f files)
      (removed : mgr.hashTable.remove hash f p = .ok table)
      (others : ∀ g q, (g, q) ≠ (f, p) → table.entry hash g q = mgr.hashTable.entry hash g q) :
      Takes L hash mgr k (.ok (turn mgr.numBufs mgr.clockHand k)
        (((mgr.swept k).withFiles files).vacate (turn mgr.numBufs mgr.clockHand k) table))
  | failed {f : F} {p : PageId} {e : FileError} {files : σ}
      (holds : mgr.Holds (turn mgr.numBufs mgr.clockHand k) f p)
      (unpinned : (mgr.bufDescTable (turn mgr.numBufs mgr.clockHand k)).pinCnt = 0)
      (dirty : (mgr.bufDescTable (turn mgr.numBufs mgr.clockHand k)).dirty = true)
      (throws : L.writePage f (mgr.bufPool (turn mgr.numBufs mgr.clockHand k)) mgr.files = .error e files) :
      Takes L hash mgr k (.error (.file e) ((mgr.swept k).withFiles files))

omit [DecidableEq F] in
/-- A page is written after the hand and reference bits have moved. -/
theorem BufMgr.Touched.written_iff {m : BufMgr F P σ} (t : mgr.Touched m) {i : FrameId} {f : F} {files : σ} :
    m.Written L i f files ↔ mgr.Written L i f files := by
  have hdirty : (m.bufDescTable i).dirty = (mgr.bufDescTable i).dirty := by rw [t.desc i]
  unfold BufMgr.Written
  rw [hdirty, t.bufPool, t.files]

/-- The frame at which the loop ends. -/
private theorem takes_at (h : mgr.Agree hash) {k : Nat} (hk : k < 2 * mgr.numBufs) (hnot : ∀ j < k, ¬ mgr.Stops j)
    (hstops : mgr.Stops k) : Takes L hash mgr k (allocBuf L hash mgr) := by
  have t : mgr.Touched (mgr.swept k) := touched_swept h.pos k
  rw [allocBuf_at h.pos hk hnot hstops]
  by_cases hvalid : (mgr.bufDescTable (turn mgr.numBufs mgr.clockHand k)).valid = true
  · have hpin : (mgr.bufDescTable (turn mgr.numBufs mgr.clockHand k)).pinCnt = 0 := by
      rcases hstops with hinvalid | ⟨-, hpin⟩
      · rw [swept_valid, hvalid] at hinvalid
        cases hinvalid
      · rwa [swept_pinCnt] at hpin
    have hlt : turn mgr.numBufs mgr.clockHand k < mgr.numBufs := turn_lt h.pos k
    obtain ⟨f, hf⟩ := (h.tidy _ hlt).named hvalid
    have hholds : mgr.Holds (turn mgr.numBufs mgr.clockHand k) f _ := ⟨hlt, hvalid, hf, rfl⟩
    have hdirty : ((mgr.swept k).bufDescTable (turn mgr.numBufs mgr.clockHand k)).dirty =
        (mgr.bufDescTable (turn mgr.numBufs mgr.clockHand k)).dirty := by rw [t.desc]
    rw [if_pos hvalid]
    rcases evict_cases (L := L) (h.touched t) (t.holds_iff.mpr hholds) with
      ⟨files, table, hwritten, hremove, hrun⟩ | ⟨e, files, hmark, hwrite, hrun⟩
    · obtain ⟨table', hremove', -, hentry⟩ := BufHashTbl.remove_ok h.distinct ((h.entry_iff _ _ _).mpr hholds)
      obtain rfl := Except.ok.inj (hremove'.symm.trans hremove)
      rw [run_bind_ok hrun]
      refine .evicted hholds hpin (t.written_iff.mp hwritten) hremove fun g q hne => ?_
      rw [hentry, if_neg fun heq => hne (Prod.ext heq.1 heq.2)]
    · rw [run_bind_error hrun]
      exact .failed hholds hpin (hdirty ▸ hmark) hwrite
  · rw [if_neg hvalid]
    exact .invalid (Bool.eq_false_iff.mpr hvalid)

omit [DecidableEq F] in
private theorem Takes.ne_bufferExceeded [DecidableEq F] {k : Nat} {mgr' : BufMgr F P σ}
    (t : Takes L hash mgr k (.error .bufferExceeded mgr')) : False := by
  cases t

/-- `allocBuf` throws `BufferExceededException` if and only if all frames are valid and pinned.  Otherwise, from the
frame behind the hand on, it takes the first frame that is invalid or has no reference bit and no pins, and if there is
none, the first frame without pins. -/
theorem allocBuf_victim (L : FileLayer F P σ) (h : mgr.Agree hash) :
    ((∃ mgr', allocBuf L hash mgr = .error .bufferExceeded mgr') ↔
      ∀ i, i < mgr.numBufs → (mgr.bufDescTable i).valid = true ∧ 0 < (mgr.bufDescTable i).pinCnt) ∧
    (∀ k < mgr.numBufs, mgr.Ready (turn mgr.numBufs mgr.clockHand k) →
      (∀ j < k, ¬ mgr.Ready (turn mgr.numBufs mgr.clockHand j)) → Takes L hash mgr k (allocBuf L hash mgr)) ∧
    ((∀ i, i < mgr.numBufs → ¬ mgr.Ready i) → ∀ k < mgr.numBufs,
      (mgr.bufDescTable (turn mgr.numBufs mgr.clockHand k)).pinCnt = 0 →
      (∀ j < k, (mgr.bufDescTable (turn mgr.numBufs mgr.clockHand j)).pinCnt ≠ 0) →
        Takes L hash mgr (k + mgr.numBufs) (allocBuf L hash mgr)) := by
  refine ⟨⟨?_, fun hall => ⟨_, allocBuf_none h.pos ((not_stops_iff h.pos).mpr hall)⟩⟩, ?_, ?_⟩
  · rintro ⟨mgr', hthrows⟩
    rw [← not_stops_iff h.pos]
    rcases first_or_none mgr.Stops (2 * mgr.numBufs) with hnone | ⟨k, hk, hstops, hnot⟩
    · exact hnone
    · have t := takes_at (L := L) h hk hnot hstops
      rw [hthrows] at t
      exact t.ne_bufferExceeded.elim
  · intro k hk hready hnot
    refine takes_at h (by omega) (fun j hj => ?_) ((stops_first hk).mpr hready)
    rw [stops_first (Nat.lt_trans hj hk)]
    exact hnot j hj
  · intro hnone k hk hpin hnot
    have hvalid : ∀ j, (mgr.bufDescTable (turn mgr.numBufs mgr.clockHand j)).valid = true := by
      intro j
      have hnotReady := hnone (turn mgr.numBufs mgr.clockHand j) (turn_lt h.pos j)
      unfold BufMgr.Ready at hnotReady
      push Not at hnotReady
      exact Bool.of_not_eq_false hnotReady.1
    refine takes_at h (by omega) (fun j hj => ?_) ?_
    · by_cases hround : j < mgr.numBufs
      · rw [stops_first hround]
        exact hnone _ (turn_lt h.pos j)
      · obtain ⟨i, rfl⟩ : ∃ i, j = i + mgr.numBufs := ⟨j - mgr.numBufs, by omega⟩
        rw [stops_later h.pos (Nat.le_add_left _ _), hvalid, turn_add]
        simpa using hnot i (by omega)
    · rw [stops_later h.pos (Nat.le_add_left _ _), turn_add]
      exact .inr hpin

/-- Calls with three frames over an empty disk. -/
def threeFrames (calls : List (BufCall Nat (PageId × Nat))) : BufMgr Nat (PageId × Nat) (Disk Nat Nat) :=
  (runCalls (diskFiles Nat Nat 0) (fun f p => f + p) (.new 3 (0, 0) ⟨fun _ => none, 1⟩) (fun _ => none) calls).1

private theorem agree_threeFrames (calls : List (BufCall Nat (PageId × Nat))) :
    (threeFrames calls).Agree fun f p => f + p :=
  BufRun.agree (BufMgr.agree_new (by decide) (0, 0) ⟨fun _ => none, 1⟩) (bufRun_runCalls _ _ _ _ _)

/-- All three frames have their reference bits, the first is pinned and the second is dirty. -/
def referenced : List (BufCall Nat (PageId × Nat)) :=
  [.allocPage 0, .allocPage 0, .edit 0 2 (2, 42), .unPinPage 0 2 true, .allocPage 0, .unPinPage 0 3 false]

/-- In the second round the second frame is taken from them.  Its next page gets a reference bit, the other two frames have
lost theirs, and so the third frame is the next one, in the first round. -/
theorem allocBuf_victim_new :
    Takes (diskFiles Nat Nat 0) (fun f p => f + p) (threeFrames referenced) 4
        (allocBuf (diskFiles Nat Nat 0) (fun f p => f + p) (threeFrames referenced)) ∧
      Takes (diskFiles Nat Nat 0) (fun f p => f + p) (threeFrames (referenced ++ [.allocPage 0])) 0
        (allocBuf (diskFiles Nat Nat 0) (fun f p => f + p) (threeFrames (referenced ++ [.allocPage 0]))) ∧
      ∃ mgr', allocBuf (diskFiles Nat Nat 0) (fun f p => f + p)
        (threeFrames (referenced ++ [.allocPage 0, .allocPage 0])) = .error .bufferExceeded mgr' := by
  refine ⟨?_, ?_, ?_⟩
  · exact (allocBuf_victim _ (agree_threeFrames referenced)).2.2 (by decide +kernel) 1 (by decide +kernel)
      (by decide +kernel) (by decide +kernel)
  · exact (allocBuf_victim _ (agree_threeFrames _)).2.1 0 (by decide +kernel) (by decide +kernel) (by decide +kernel)
  · exact (allocBuf_victim _ (agree_threeFrames _)).1.mpr (by decide +kernel)

end Cs564.P2
