import Cs564.BTree.PoolRuns

/-!
# Insertions that run out of frames

`insertEntry` throws `BufferExceededException` when one of its calls finds every frame pinned.  It does not release the
pages that it has pinned by then, the header page before all others, and takes back nothing that it has written.  So the
index is as it was before only if the very first call has thrown.
-/

namespace Cs564.BTree

open P2 (BufMgr)
open P3 (FileLayer BlobFile)

variable {F σ : Type} [DecidableEq F] {L : FileLayer F Page σ} {hash : F → PageId → Nat} {on : F → Prop}
  {blob : σ → BlobFile Page} {file : F} {ok : Call → Prop} {w w' start opened : World (BufMgr F Page σ) FrameId}

/-- The index is as it was: its data members, the bytes of all its nodes, and so its entries and the ends of its arrays,
and the pins on its pages. -/
structure Intact (hash : F → PageId → Nat) (blob : σ → BlobFile Page) (file : F) (w w' : World (BufMgr F Page σ) FrameId) :
    Prop where
  index : w'.index = w.index
  nodes : ∀ p, seen hash blob file w'.pages p = seen hash blob file w.pages p
  pins : ∀ p, pinsOn w'.pages file p = pinsOn w.pages file p

/-- The header page is not in the pool, and every frame has a pinned page. -/
structure FullWithoutHeader (file : F) (w : World (BufMgr F Page σ) FrameId) : Prop where
  header : ∀ i, ¬ w.pages.Holds i file w.index.headerPageNum
  full : ∀ i, i < w.pages.numBufs → ¬ P3.Takeable w.pages i

/-- `readPage` throws exactly when the page is not in the pool and every frame has a pinned page. -/
theorem readPage_exceeded_iff {mgr : BufMgr F Page σ} (h : mgr.Agree hash) (hw : P3.Writable L mgr) (p : PageId) :
    (∃ m, P3.readPage L hash file p mgr = .error .bufferExceeded m) ↔
      (∀ i, ¬ mgr.Holds i file p) ∧ ∀ i, i < mgr.numBufs → ¬ P3.Takeable mgr i := by
  have hspec := P3.readPage_spec h hw file p
  constructor
  · rintro ⟨m, hrun⟩
    rw [hrun] at hspec
    cases hspec with
    | exceeded absent t full => exact ⟨absent, full⟩
  · rintro ⟨habsent, hfull⟩
    have hno : ∀ {i m}, ¬ P3.Freed L hash mgr i m := fun hfreed =>
      hfull _ (hfreed.numBufs ▸ hfreed.lt) hfreed.takeable
    cases hrun : P3.readPage L hash file p mgr with
    | ok i m =>
      rw [hrun] at hspec
      cases hspec with
      | hit holds => exact absurd holds (habsent _)
      | loaded absent freed => exact absurd freed hno
    | error e m =>
      rw [hrun] at hspec
      cases hspec with
      | exceeded => exact ⟨m, rfl⟩
      | failed absent freed => exact absurd freed hno

section InsertFails

variable (hL : Hosts L on blob) (hfile : on file)
include hL hfile

/-- When `insertEntry` throws `BufferExceededException`, the index is as it was exactly when the header page was not in the
pool and every frame had a pinned page. -/
theorem Run.intact_iff (hopens : Opens L hash on blob file start opened) (h : Run L hash on file ok opened w)
    (depth : IndexMetaInfo → Nat) (key : Int) (rid : RecordId)
    (run : insertEntryWithin (poolLayer L hash file) depth key rid w = .error .bufferExceeded w') :
    Intact hash blob file w w' ↔ FullWithoutHeader file w := by
  have hsound := h.sound hL hfile hopens
  have hthrows := insertEntryWithin_pins hL hfile depth key rid hsound
  rw [run] at hthrows
  cases hthrows with
  | @atHeader mgr hrun =>
    obtain ⟨e, hcall, he⟩ := onPool_error hrun
    obtain rfl := Exc.ofBufError_exceeded he.symm
    have hspec := P3.readPage_spec (Steady.agree hsound) (Steady.writable hsound) file w.index.headerPageNum
    rw [hcall] at hspec
    cases hspec with
    | exceeded absent t full =>
      refine ⟨fun _ => ⟨absent, full⟩, fun _ => ⟨rfl, fun p => seen_touched (Steady.agree hsound) t, fun p => ?_⟩⟩
      have hpins := Steady.pinsOn (Steady.touched hsound t) p
      rw [hpins, Steady.pinsOn hsound p]
  | @later _ i mgr hrun hhalts =>
    refine ⟨fun hintact => ?_, fun hfull => ?_⟩
    · -- the pin on the header page is left
      obtain ⟨more, unsaved, hsteady⟩ := hhalts.keeps rfl
      have hpins := hintact.pins w.index.headerPageNum
      rw [hsteady.pinsOn, Steady.pinsOn hsound] at hpins
      simp only [pages, List.map_append, List.map_cons, List.count_append, List.count_cons_self] at hpins
      omega
    · obtain ⟨m, hcall⟩ := (readPage_exceeded_iff (Steady.agree hsound) (Steady.writable hsound)
        w.index.headerPageNum).mpr ⟨hfull.header, hfull.full⟩
      have herror : (poolLayer L hash file).readPage w.index.headerPageNum w.pages = .error .bufferExceeded m := by
        show onPool (P3.readPage L hash file w.index.headerPageNum) w.pages = _
        rw [onPool, hcall]
        rfl
      rw [herror] at hrun
      cases hrun

end InsertFails

/-- An index of one pair over three frames, all of which another client has pinned. -/
theorem insert_intact : ∃ w₁ w w', SmallOpens 3 w₁ ∧ SmallRun w₁ w ∧
    insertEntryWithin twoFilesPool (fun _ => 1) 6 ⟨7, 2, 0⟩ w = .error .bufferExceeded w' ∧
    Intact (P3.hash Bool.toNat) (fun files => files true) true w w' := by
  have hreturned : returned (fun _ w => threw (fun e _ => decide (e = .bufferExceeded) &&
        decide (∀ i, i < (readOther 3 (readOther 2 (readOther 1 w))).pages.numBufs →
          ((readOther 3 (readOther 2 (readOther 1 w))).pages.bufDescTable i).valid = true ∧
          ((readOther 3 (readOther 2 (readOther 1 w))).pages.bufDescTable i).file = some false ∧
          ((readOther 3 (readOther 2 (readOther 1 w))).pages.bufDescTable i).pinCnt ≠ 0))
      (insertEntryWithin twoFilesPool (fun _ => 1) 6 ⟨7, 2, 0⟩ (readOther 3 (readOther 2 (readOther 1 w)))))
      (construct twoFilesPool (fun _ => 0) 0 0 .INTEGER [(5, ⟨7, 1, 0⟩)] (newWorld 3)) = true := by decide +kernel
  obtain ⟨u, w, hconstruct, hthrew⟩ := exists_ok hreturned
  obtain ⟨e, w', hinsert, hboth⟩ := exists_error hthrew
  obtain ⟨he, hframes⟩ := Bool.and_eq_true_iff.mp hboth
  have hframe := of_decide_eq_true hframes
  rw [of_decide_eq_true he] at hinsert
  have hopens : SmallOpens 3 w := .constructed (by decide) hconstruct
  have hreached : SmallRun w (readOther 3 (readOther 2 (readOther 1 w))) :=
    ((SmallRun.readOther .start 1).readOther 2).readOther 3
  have hfull : FullWithoutHeader true (readOther 3 (readOther 2 (readOther 1 w))) := by
    refine ⟨fun i hi => ?_, fun i hi htake => ?_⟩
    · have hother := (hframe i hi.1).2.1
      rw [hi.2.file] at hother
      cases hother
    · rcases htake with hinvalid | hzero
      · exact Bool.false_ne_true (hinvalid.symm.trans (hframe i hi).1)
      · exact (hframe i hi).2.2 hzero
  exact ⟨w, _, w', hopens, hreached, hinsert,
    (Run.intact_iff (blobFiles_hosts id true) rfl hopens hreached (fun _ => 1) 6 ⟨7, 2, 0⟩ hinsert).mpr hfull⟩

/-- An index of one pair over three frames, two of which another client has pinned: the pin on the header page is left. -/
theorem insert_leaks : ∃ w₁ w w', SmallOpens 3 w₁ ∧ SmallRun w₁ w ∧
    insertEntryWithin twoFilesPool (fun _ => 1) 6 ⟨7, 2, 0⟩ w = .error .bufferExceeded w' ∧
    pinsOn w.pages true w.index.headerPageNum = 0 ∧ pinsOn w'.pages true w.index.headerPageNum = 1 := by
  have hreturned : returned (fun _ w => threw (fun e w' => decide (e = .bufferExceeded) &&
        decide (pinsOn (readOther 2 (readOther 1 w)).pages true (readOther 2 (readOther 1 w)).index.headerPageNum = 0 ∧
          pinsOn w'.pages true (readOther 2 (readOther 1 w)).index.headerPageNum = 1))
      (insertEntryWithin twoFilesPool (fun _ => 1) 6 ⟨7, 2, 0⟩ (readOther 2 (readOther 1 w))))
      (construct twoFilesPool (fun _ => 0) 0 0 .INTEGER [(5, ⟨7, 1, 0⟩)] (newWorld 3)) = true := by decide +kernel
  obtain ⟨u, w, hconstruct, hthrew⟩ := exists_ok hreturned
  obtain ⟨e, w', hinsert, hboth⟩ := exists_error hthrew
  obtain ⟨he, hpins⟩ := Bool.and_eq_true_iff.mp hboth
  rw [of_decide_eq_true he] at hinsert
  exact ⟨w, _, w', .constructed (by decide) hconstruct, (SmallRun.readOther .start 1).readOther 2, hinsert,
    of_decide_eq_true hpins⟩

end Cs564.BTree
