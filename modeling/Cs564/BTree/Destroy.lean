import Cs564.BTree.PoolRuns

/-!
# The destructor

`btree.h` says that the destructor ends any scan and flushes the index file.  It flushes the file only, which throws when
the scan still has its page pinned; and a scan that went astray has broken the stream of the file, so that nothing is
written any more.  Apart from that the destructor leaves no page in the pool, and all changes in the file.
-/

namespace Cs564.BTree

open P2 (BufMgr)
open P3 (FileLayer BlobFile)

variable {F σ : Type} [DecidableEq F] {L : FileLayer F Page σ} {hash : F → PageId → Nat} {on : F → Prop}
  {blob : σ → BlobFile Page} {file : F} {ok : Call → Prop} {w w' start opened : World (BufMgr F Page σ) FrameId}

/-- What the destructor is to leave: no scan, no page of the index file in the pool, and every page with changes in the
file.  As long as the stream works, the file has every page as the index saw it. -/
structure Destroyed (hash : F → PageId → Nat) (on : F → Prop) (blob : σ → BlobFile Page) (file : F)
    (w w' : World (BufMgr F Page σ) FrameId) : Prop where
  ended : w'.index.scanExecuting = false
  gone : ∀ i g p, on g → ¬ w'.pages.Holds i g p
  saved : ∀ i p, w.pages.Holds i file p → (w.pages.bufDescTable i).dirty = true →
    (blob w'.pages.files).pages p = some (w.pages.bufPool i)
  kept : ∀ p, (∀ i, w.pages.Holds i file p → (w.pages.bufDescTable i).dirty = false) →
    (blob w'.pages.files).pages p = (blob w.pages.files).pages p
  all : (blob w.pages.files).failed = false → ∀ p,
    (blob w'.pages.files).pages p = seen hash blob file w.pages p

/-- No scan is executing, and the stream works or there is nothing to write. -/
structure CanDestroy (blob : σ → BlobFile Page) (file : F) (w : World (BufMgr F Page σ) FrameId) : Prop where
  ended : w.index.scanExecuting = false
  writes : (blob w.pages.files).failed = false ∨
    ∀ i p, w.pages.Holds i file p → (w.pages.bufDescTable i).dirty = true →
      (blob w.pages.files).pages p = some (w.pages.bufPool i)

section Destroy

variable (hL : Hosts L on blob) (hfile : on file)
include hL hfile

/-- The destructor throws `PagePinnedException` exactly when a scan is executing. -/
theorem destroy_cases (h : Sound L hash on blob file w) :
    ∃ m, Sound L hash on blob file { w with pages := m } ∧ SameFile hash blob file w.pages m ∧
      ((blob w.pages.files).failed = true → (blob m.files).pages = (blob w.pages.files).pages) ∧
      ((w.index.scanExecuting = true ∧ destroy (poolLayer L hash file) w = .error .pagePinned { w with pages := m }) ∨
        (w.index.scanExecuting = false ∧ (∀ i p, ¬ m.Holds i file p) ∧
          destroy (poolLayer L hash file) w = .ok () ⟨{ w.index with scanExecuting := false }, m⟩)) := by
  obtain ⟨m, hm, hsame, hfailed, hend⟩ := Steady.flushFile hL hfile h file
  refine ⟨m, hm, hsame, hfailed, ?_⟩
  have hflush : (poolLayer L hash file).flushFile w.pages = onPool (P3.flushFile L hash file) w.pages := rfl
  have hm' : Sound L hash on blob file { w with pages := m } := hm
  rcases hend with ⟨i, p, hi, hpos, hrun⟩ | ⟨hrun, hclear⟩
  · have hexec : w.index.scanExecuting = true := by
      by_contra hidle
      have hsteady := hm'.idle (Bool.eq_false_iff.mpr hidle)
      exact absurd (hsteady.mem_of_pos hi hpos) List.not_mem_nil
    refine .inl ⟨hexec, ?_⟩
    rw [onPool, hrun] at hflush
    rw [destroy, run_bind_error (onPages_error hflush)]
    rfl
  · have hidle : w.index.scanExecuting = false := by
      by_contra hexec
      have hscan := (hm'.scanning (Bool.eq_true_of_not_eq_false hexec)).2
      exact hclear _ _ (hscan.pinned _ List.mem_cons_self)
    refine .inr ⟨hidle, hclear, ?_⟩
    rw [onPool, hrun] at hflush
    rw [destroy, run_bind_ok (onPages_ok hflush)]
    rfl

/-- In every state of a run the destructor does what it should exactly when no scan is executing, and the stream of the
file works or there is nothing to write. -/
theorem Run.destroyed_iff (hopens : Opens L hash on blob file start opened) (h : Run L hash on file ok opened w) :
    (∃ w', destroy (poolLayer L hash file) w = .ok () w' ∧ Destroyed hash on blob file w w') ↔
      CanDestroy blob file w := by
  have hsound := h.sound hL hfile hopens
  obtain ⟨m, hm, hsame, hfailed, hend⟩ := destroy_cases hL hfile hsound
  constructor
  · rintro ⟨w', hrun, hdestroyed⟩
    rcases hend with ⟨-, herror⟩ | ⟨hidle, -, hok⟩
    · rw [herror] at hrun
      cases hrun
    · rw [hok] at hrun
      obtain ⟨-, rfl⟩ := EStateM.Result.ok.inj hrun
      refine ⟨hidle, ?_⟩
      by_cases hlive : (blob w.pages.files).failed = false
      · exact .inl hlive
      · refine .inr fun i p hi hdirty => ?_
        rw [← hfailed (Bool.eq_true_of_not_eq_false hlive)]
        exact hdestroyed.saved i p hi hdirty
  · intro hcan
    rcases hend with ⟨hexec, -⟩ | ⟨-, hclear, hok⟩
    · exact absurd hcan.ended (ne_false_of_eq_true hexec)
    · have hall : (blob w.pages.files).failed = false → ∀ p,
          (blob m.files).pages p = seen hash blob file w.pages p := by
        intro hlive p
        rw [← hsame.seen hlive p]
        exact (seen_absent (Steady.agree hm) fun i => hclear i p).symm
      refine ⟨_, hok, rfl, fun i g p hg hi => ?_, fun i p hi hdirty => ?_, fun p hclean => ?_, hall⟩
      · have heq := Steady.alone hm i g p hi hg
        rw [heq] at hi
        exact hclear i p hi
      · rcases hcan.writes with hlive | hwritten
        · exact (hall hlive p).trans (seen_held hsound.agree hi)
        · by_cases hlive : (blob w.pages.files).failed = false
          · exact (hall hlive p).trans (seen_held hsound.agree hi)
          · show (blob m.files).pages p = _
            rw [hfailed (Bool.eq_true_of_not_eq_false hlive)]
            exact hwritten i p hi hdirty
      · show (blob m.files).pages p = _
        by_cases hlive : (blob w.pages.files).failed = false
        · rw [hall hlive p]
          by_cases hheld : ∃ i, w.pages.Holds i file p
          · obtain ⟨i, hi⟩ := hheld
            rw [seen_held hsound.agree hi]
            exact (Steady.saved hsound i p hi (hclean i hi) List.not_mem_nil hlive).symm
          · exact seen_absent hsound.agree (not_exists.mp hheld)
        · rw [hfailed (Bool.eq_true_of_not_eq_false hlive)]

end Destroy

/-- An index of one pair whose scan is ended. -/
theorem destroyed_ended : ∃ w₁ w w', SmallOpens 3 w₁ ∧ SmallRun w₁ w ∧ destroy twoFilesPool w = .ok () w' ∧
    Destroyed (P3.hash Bool.toNat) (fun f => id f = true) (fun files => files true) true w w' := by
  have hreturned : returned (fun _ w => !w.index.scanExecuting && !(w.pages.files true).failed)
      ((construct twoFilesPool (fun _ => 0) 0 0 .INTEGER [(5, ⟨7, 1, 0⟩)] >>= fun _ =>
        (Call.startScan 0 .GTE 9 .LTE).run twoFilesPool (fun _ => 0) 0 >>= fun _ =>
        Call.endScan.run twoFilesPool (fun _ => 0) 0) (newWorld 3)) = true := by decide +kernel
  obtain ⟨rid, w, hrun, hends⟩ := exists_ok hreturned
  obtain ⟨u, w₁, hconstruct, hrest⟩ := bind_ok_cases hrun
  obtain ⟨rid', w₂, hscan, hend⟩ := bind_ok_cases hrest
  have hopens : SmallOpens 3 w₁ := .constructed (by decide) hconstruct
  have hreached : SmallRun w₁ w := (Run.start.returned trivial hscan).returned trivial hend
  obtain ⟨hidle, hlive⟩ := Bool.and_eq_true_iff.mp hends
  obtain ⟨w', hok, hdestroyed⟩ := (Run.destroyed_iff (blobFiles_hosts id true) rfl hopens hreached).mpr
    ⟨by simpa using hidle, .inl (by simpa using hlive)⟩
  exact ⟨w₁, w, w', hopens, hreached, hok, hdestroyed⟩

/-- The same index while its scan is executing. -/
theorem destroy_throws : ∃ w₁ w w', SmallOpens 3 w₁ ∧ SmallRun w₁ w ∧ destroy twoFilesPool w = .error .pagePinned w' := by
  have hreturned : returned (fun _ w => threw (fun e _ => decide (e = .pagePinned)) (destroy twoFilesPool w))
      ((construct twoFilesPool (fun _ => 0) 0 0 .INTEGER [(5, ⟨7, 1, 0⟩)] >>= fun _ =>
        (Call.startScan 0 .GTE 9 .LTE).run twoFilesPool (fun _ => 0) 0) (newWorld 3)) = true := by decide +kernel
  obtain ⟨rid, w, hrun, hthrew⟩ := exists_ok hreturned
  obtain ⟨u, w₁, hconstruct, hscan⟩ := bind_ok_cases hrun
  obtain ⟨e, w', hdestroy, he⟩ := exists_error hthrew
  rw [of_decide_eq_true he] at hdestroy
  exact ⟨w₁, w, w', .constructed (by decide) hconstruct, Run.start.returned trivial hscan, hdestroy⟩

end Cs564.BTree
