import Cs564.P3Buffer.BlobFile
import Cs564.P3Buffer.Clock
import Cs564.P3Buffer.Operations

/-!
# The two clocks agree

Both versions of `allocBuf` on the same frames and the same hand: they look at the same frames and take the same one, or
both find all frames pinned (`clocks_agree`).  An invalid frame is cleared by `p3` and returned as it is by `p2`, which
makes a difference if its reference bit is set (`clocks_differ`).
-/

namespace Cs564.P3

open P2 (BufError BufHashTbl BufDesc BufMgr Disk diskFiles)
open P2.BufMgr

variable {F P σ₂ σ₃ : Type}

/-- Two managers with the same hand, descriptors and pages. -/
structure SameFrames (mgr₂ : BufMgr F P σ₂) (mgr₃ : BufMgr F P σ₃) : Prop where
  clockHand : mgr₃.clockHand = mgr₂.clockHand
  numBufs : mgr₃.numBufs = mgr₂.numBufs
  bufDescTable : mgr₃.bufDescTable = mgr₂.bufDescTable
  bufPool : mgr₃.bufPool = mgr₂.bufPool

/-- How the two end.  In `failed` the page to be written is the same, and one of the files does not take it. -/
inductive ClocksAgree (L₂ : P2.FileLayer F P σ₂) (L₃ : FileLayer F P σ₃) (mgr₂ : BufMgr F P σ₂) (mgr₃ : BufMgr F P σ₃) :
    EStateM.Result (BufError F) (BufMgr F P σ₂) FrameId → EStateM.Result (BufError F) (BufMgr F P σ₃) FrameId →
      Prop where
  | exceeded {m₂ : BufMgr F P σ₂} {m₃ : BufMgr F P σ₃} (descs : m₃.bufDescTable = m₂.bufDescTable)
      (files₂ : m₂.files = mgr₂.files) (files₃ : m₃.files = mgr₃.files) :
      ClocksAgree L₂ L₃ mgr₂ mgr₃ (.error .bufferExceeded m₂) (.error .bufferExceeded m₃)
  | invalid {v : FrameId} {m₂ : BufMgr F P σ₂} {m₃ : BufMgr F P σ₃} (free : (mgr₂.bufDescTable v).valid = false)
      (hand₂ : m₂.clockHand = v) (hand₃ : m₃.clockHand = v) (kept : m₂.bufDescTable v = mgr₂.bufDescTable v)
      (descs : m₃.bufDescTable = Function.update m₂.bufDescTable v .clear)
      (same : mgr₂.bufDescTable v = .clear → m₃.bufDescTable = m₂.bufDescTable)
      (files₂ : m₂.files = mgr₂.files) (files₃ : m₃.files = mgr₃.files) :
      ClocksAgree L₂ L₃ mgr₂ mgr₃ (.ok v m₂) (.ok v m₃)
  | evicted {v : FrameId} {f : F} {p : PageId} {m₂ : BufMgr F P σ₂} {m₃ : BufMgr F P σ₃} (holds : mgr₂.Holds v f p)
      (hand₂ : m₂.clockHand = v) (hand₃ : m₃.clockHand = v) (descs : m₃.bufDescTable = m₂.bufDescTable)
      (written₂ : mgr₂.Written L₂ v f m₂.files) (written₃ : Written L₃ mgr₃ v f p m₃.files) :
      ClocksAgree L₂ L₃ mgr₂ mgr₃ (.ok v m₂) (.ok v m₃)
  | failed {v : FrameId} {f : F} {p : PageId} {r₂ : EStateM.Result (BufError F) (BufMgr F P σ₂) FrameId}
      {r₃ : EStateM.Result (BufError F) (BufMgr F P σ₃) FrameId} (holds : mgr₂.Holds v f p)
      (dirty : (mgr₂.bufDescTable v).dirty = true)
      (throws : (∃ e files m, L₂.writePage f (mgr₂.bufPool v) mgr₂.files = .error e files ∧ r₂ = .error (.file e) m) ∨
        ∃ e files m, L₃.writePage f p (mgr₃.bufPool v) mgr₃.files = .error e files ∧ r₃ = .error (.file e) m) :
      ClocksAgree L₂ L₃ mgr₂ mgr₃ r₂ r₃

section SameFrames

variable {mgr₂ : BufMgr F P σ₂} {mgr₃ : BufMgr F P σ₃} {k : Nat} {v : FrameId}

/-- The same frames are passed over. -/
theorem SameFrames.swept (s : SameFrames mgr₂ mgr₃) (k : Nat) : SameFrames (mgr₂.swept k) (mgr₃.swept k) := by
  refine ⟨?_, s.numBufs, ?_, s.bufPool⟩
  · unfold P2.BufMgr.swept
    rw [s.clockHand, s.numBufs]
  · unfold P2.BufMgr.swept
    rw [s.clockHand, s.numBufs, s.bufDescTable]

theorem SameFrames.stops_iff (s : SameFrames mgr₂ mgr₃) : mgr₃.Stops k ↔ mgr₂.Stops k := by
  unfold P2.BufMgr.Stops P2.BufMgr.Ready
  rw [(s.swept k).bufDescTable, s.clockHand, s.numBufs]

theorem SameFrames.holds_iff (s : SameFrames mgr₂ mgr₃) {f : F} {p : PageId} : mgr₃.Holds v f p ↔ mgr₂.Holds v f p := by
  unfold P2.BufMgr.Holds
  rw [s.bufDescTable, s.numBufs]

/-- After all frames have been passed over, it does not matter how often. -/
theorem swept_all {mgr : BufMgr F P σ₂} (hn : 0 < mgr.numBufs) {j : Nat} (hj : mgr.numBufs ≤ j) (hk : mgr.numBufs ≤ k) :
    (mgr.swept j).bufDescTable = (mgr.swept k).bufDescTable := by
  have hmem : ∀ m, mgr.numBufs ≤ m → ∀ i, i ∈ turns mgr.numBufs mgr.clockHand m ↔ i < mgr.numBufs := by
    intro m hm i
    constructor
    · intro hi
      obtain ⟨l, -, rfl⟩ := mem_turns.mp hi
      exact turn_lt hn l
    · exact mem_turns_of_le hm
  funext i
  rw [swept_desc, swept_desc]
  exact if_congr ((hmem j hj i).trans (hmem k hk i).symm) rfl rfl

end SameFrames

variable [DecidableEq F] {hash₂ hash₃ : F → PageId → Nat} {mgr₂ : BufMgr F P σ₂} {mgr₃ : BufMgr F P σ₃}

omit [DecidableEq F] in
/-- A page is written after the hand and reference bits have moved. -/
private theorem written_of_touched {L₃ : FileLayer F P σ₃} {m : BufMgr F P σ₃} (t : mgr₃.Touched m) {v : FrameId} {f : F}
    {p : PageId} {files : σ₃} (hwritten : Written L₃ m v f p files) : Written L₃ mgr₃ v f p files := by
  have hdirty : (m.bufDescTable v).dirty = (mgr₃.bufDescTable v).dirty := by rw [t.desc v]
  unfold Written at hwritten ⊢
  rwa [hdirty, t.bufPool, t.files] at hwritten

/-- On the same frames the two versions of `allocBuf` both throw `BufferExceededException` and leave the same
descriptors, or both return the same frame with the same hand and descriptors and have written the same page or none; an
invalid frame is cleared in `p3` and kept in `p2`. -/
theorem clocks_agree (L₂ : P2.FileLayer F P σ₂) (L₃ : FileLayer F P σ₃) (h₂ : mgr₂.Agree hash₂) (h₃ : mgr₃.Agree hash₃)
    (hsame : SameFrames mgr₂ mgr₃) :
    ClocksAgree L₂ L₃ mgr₂ mgr₃ (P2.allocBuf L₂ hash₂ mgr₂) (allocBuf L₃ hash₃ mgr₃) := by
  rcases first_or_none mgr₂.Stops (2 * mgr₂.numBufs) with hnone | ⟨k, hk, hstops, hnot⟩
  · have hnone₃ : ∀ k < 2 * mgr₃.numBufs, ¬ mgr₃.Stops k := by
      intro k hk
      rw [hsame.stops_iff]
      exact hnone k (hsame.numBufs ▸ hk)
    rw [P2.allocBuf_none h₂.pos hnone, allocBuf_none h₃ hnone₃]
    refine .exceeded ?_ rfl rfl
    have hall : (mgr₂.swept (2 * mgr₃.numBufs)).bufDescTable = (mgr₂.swept (2 * mgr₂.numBufs + 1)).bufDescTable :=
      swept_all h₂.pos (by rw [hsame.numBufs]; omega) (by omega)
    exact ((hsame.swept (2 * mgr₃.numBufs)).bufDescTable).trans hall
  · obtain ⟨v, hv⟩ : ∃ v, v = turn mgr₂.numBufs mgr₂.clockHand k := ⟨_, rfl⟩
    have hv₃ : turn mgr₃.numBufs mgr₃.clockHand k = v := by rw [hsame.numBufs, hsame.clockHand, hv]
    have hk₃ : k < 2 * mgr₃.numBufs := hsame.numBufs.symm ▸ hk
    have hnot₃ : ∀ j < k, ¬ mgr₃.Stops j := fun j hj hstop => hnot j hj (hsame.stops_iff.mp hstop)
    have hstops₃ := hsame.stops_iff.mpr hstops
    have hdescs : (mgr₃.swept k).bufDescTable = (mgr₂.swept k).bufDescTable := (hsame.swept k).bufDescTable
    have hrun₂ : P2.allocBuf L₂ hash₂ mgr₂ = _ := P2.allocBuf_at h₂.pos hk hnot hstops
    rw [← hv] at hrun₂
    by_cases hvalid : (mgr₂.bufDescTable v).valid = true
    · have t₂ : mgr₂.Touched (mgr₂.swept k) := P2.touched_swept h₂.pos k
      have t₃ : mgr₃.Touched (mgr₃.swept k) := P2.touched_swept h₃.pos k
      have hlt : v < mgr₂.numBufs := hv ▸ turn_lt h₂.pos k
      obtain ⟨f, hf⟩ := (h₂.tidy v hlt).named hvalid
      have hholds : mgr₂.Holds v f (mgr₂.bufDescTable v).pageNo := ⟨hlt, hvalid, hf, rfl⟩
      have hholds₃ := hsame.holds_iff.mpr hholds
      obtain ⟨table, hremove, -⟩ := h₃.vacate hholds₃
      have hrun₃ := allocBuf_valid (L := L₃) h₃ hk₃ hnot₃ hstops₃ (hv₃.symm ▸ hholds₃) hremove
      rw [hv₃] at hrun₃
      rw [if_pos hvalid] at hrun₂
      have hdirty₂ : ((mgr₂.swept k).bufDescTable v).dirty = (mgr₂.bufDescTable v).dirty := by rw [t₂.desc]
      have hdirty₃ : ((mgr₃.swept k).bufDescTable v).dirty = (mgr₂.bufDescTable v).dirty := by
        rw [t₃.desc, hsame.bufDescTable]
      have hevict := P2.evict_cases (L := L₂) (h₂.touched t₂) (t₂.holds_iff.mpr hholds)
      have hdropped : ({ mgr₃.swept k with hashTable := table } : BufMgr F P σ₃).Holds v f _ := t₃.holds_iff.mpr hholds₃
      have hback := writeBack_cases (L := L₃) hdropped
      rcases hevict with ⟨files₂, table₂, hwritten₂, -, hok₂⟩ | ⟨e, files₂, hmark, hwrite, herror₂⟩
      · rcases hback with ⟨files₃, hwritten₃, hok₃⟩ | ⟨e, files₃, hmark, hwrite, herror₃⟩
        · rw [hrun₂, hrun₃, run_bind_ok hok₂, run_bind_ok hok₃]
          refine .evicted hholds hv.symm hv₃ ?_ (t₂.written_iff.mp hwritten₂) (written_of_touched t₃ hwritten₃)
          exact congrArg (fun descs => Function.update descs v BufDesc.clear) hdescs
        · have hthrows := hrun₃.trans (run_bind_error herror₃)
          exact .failed hholds (hdirty₃.symm.trans hmark) (.inr ⟨e, files₃, _, hwrite, hthrows⟩)
      · have hthrows := hrun₂.trans (run_bind_error herror₂)
        exact .failed hholds (hdirty₂.symm.trans hmark) (.inl ⟨e, files₂, _, hwrite, hthrows⟩)
    · have hfree : (mgr₂.bufDescTable v).valid = false := Bool.eq_false_iff.mpr hvalid
      have hrun₃ := allocBuf_invalid (L := L₃) h₃ hk₃ hnot₃ (by rw [hv₃, hsame.bufDescTable]; exact hfree)
      have hfirst : k < mgr₂.numBufs := invalid_first h₂.pos hnot (hv ▸ hfree)
      have hkept : (mgr₂.swept k).bufDescTable v = mgr₂.bufDescTable v := by
        rw [swept_desc, if_neg (hv ▸ turn_notMem_turns hfirst)]
      rw [if_neg hvalid] at hrun₂
      rw [hv₃] at hrun₃
      rw [hrun₂, hrun₃]
      have hcleared : Function.update (mgr₃.swept k).bufDescTable v BufDesc.clear =
          Function.update (mgr₂.swept k).bufDescTable v BufDesc.clear := by rw [hdescs]
      refine .invalid hfree hv.symm hv₃ hkept hcleared (fun hclear => hcleared.trans ?_) rfl rfl
      rw [← hclear, ← hkept, Function.update_eq_self]

/-- One frame with a dirty page that nobody has pinned. -/
theorem clocks_agree_evicted : ClocksAgree (diskFiles Nat Nat 0) (blobFiles id (0, 0))
    (P2.diskRun [.allocPage 0, .edit 0 1 (1, 42), .unPinPage 0 1 true]).1
    { (P2.diskRun [.allocPage 0, .edit 0 1 (1, 42), .unPinPage 0 1 true]).1 with
      files := fun _ => BlobFile.create (PageId × Nat) }
    (P2.allocBuf (diskFiles Nat Nat 0) (fun f p => f + p)
      (P2.diskRun [.allocPage 0, .edit 0 1 (1, 42), .unPinPage 0 1 true]).1)
    (allocBuf (blobFiles id (0, 0)) (fun f p => f + p)
      { (P2.diskRun [.allocPage 0, .edit 0 1 (1, 42), .unPinPage 0 1 true]).1 with
        files := fun _ => BlobFile.create (PageId × Nat) }) := by
  have h : (P2.diskRun [.allocPage 0, .edit 0 1 (1, 42), .unPinPage 0 1 true]).1.Agree fun f p => f + p :=
    P2.BufRun.agree (P2.BufMgr.agree_new (by decide) (0, 0) ⟨fun _ => none, 1⟩) (P2.bufRun_runCalls _ _ _ _ _)
  exact clocks_agree (diskFiles Nat Nat 0) (blobFiles id (0, 0)) h ⟨h.pos, h.hand, h.distinct, h.entry_iff, h.tidy⟩
    ⟨rfl, rfl, rfl, rfl⟩

/-- One invalid frame whose reference bit is set. -/
private def markedFrame {σ : Type} (files : σ) : BufMgr Nat (PageId × Nat) σ :=
  { BufMgr.new 1 (0, 0) files with bufDescTable := fun _ => { BufDesc.clear with refbit := true } }

private theorem agree_markedFrame {σ : Type} (files : σ) : (markedFrame files).Agree fun f p => f + p := by
  have hnot : ∀ f p i, ¬ (markedFrame files).Holds i f p := fun f p i hi => Bool.false_ne_true hi.2.valid
  refine ⟨Nat.one_pos, Nat.one_pos, BufHashTbl.distinct_new _, fun f p i => ?_, fun i _ => ?_⟩
  · refine iff_of_false (fun hentry => ?_) (hnot f p i)
    cases hentry
  · exact ⟨fun hvalid => absurd hvalid Bool.false_ne_true, fun _ => ⟨rfl, rfl, rfl⟩⟩

/-- `p2` leaves the bit, `p3` clears it. -/
theorem clocks_differ : ¬ ∀ mgr : BufMgr Nat (PageId × Nat) (Disk Nat Nat), mgr.Agree (fun f p => f + p) →
    ∀ (mgr₃ : BufMgr Nat (PageId × Nat) (Nat → BlobFile (PageId × Nat))), SameFrames mgr mgr₃ →
      mgr₃.Agree (fun f p => f + p) → ∀ v m₂ m₃, P2.allocBuf (diskFiles Nat Nat 0) (fun f p => f + p) mgr = .ok v m₂ →
        allocBuf (blobFiles id (0, 0)) (fun f p => f + p) mgr₃ = .ok v m₃ →
          ∀ i, (m₃.bufDescTable i).refbit = (m₂.bufDescTable i).refbit := by
  intro hall
  have hbits := hall (markedFrame ⟨fun _ => none, 1⟩) (agree_markedFrame _)
    (markedFrame fun _ => BlobFile.create (PageId × Nat)) ⟨rfl, rfl, rfl, rfl⟩ (agree_markedFrame _) 0 _ _ rfl rfl 0
  exact absurd hbits (by decide)

end Cs564.P3
