import Cs564.P3Buffer.NeatFiles

/-!
# Pinned pages stay

In a run of proper calls a pinned page stays in its frame until it is disposed of (`Stocked.pinned_stays`), and so a page
with a change that was not marked is in the pool (`Run.unsaved_held`).
-/

namespace Cs564.P3

open P2 (BufError BufDesc BufMgr)
open P2.BufMgr PageFile

variable {F N : Type} [DecidableEq F] [DecidableEq N] {hash : F → PageId → Nat} {filename : F → N}
  {mgr m : BufMgr F Page (N → PageFile)} {edits : Edits N Page} {i : FrameId} {f g : F} {p q : PageId}

section Stays

variable (hi : mgr.Holds i f p) (hpin : 0 < (mgr.bufDescTable i).pinCnt)
include hi hpin

omit [DecidableEq N] in
private theorem stays_readPage {L : FileLayer F Page (N → PageFile)}
    {r : EStateM.Result (BufError F) (BufMgr F Page (N → PageFile)) FrameId} (hspec : ReadPage L hash g q mgr r) :
    (stateAfter r).Holds i f p := by
  cases hspec with
  | @hit j holds =>
    have hsame : (mgr.withDesc j (mgr.bufDescTable j).pinned).Holds i f p ↔ mgr.Holds i f p := holds_withDesc rfl rfl rfl
    exact hsame.mpr hi
  | exceeded absent t full => exact t.holds_iff.mpr hi
  | failed absent freed run => exact (freed.protects hi hpin).2
  | @loaded j m page files table absent freed run loads =>
    obtain ⟨hne, hstays⟩ := freed.protects hi hpin
    have hloaded : (m.occupy j table g q page).Holds i f p := (holds_occupy freed.lt).mpr (.inr ⟨hne, hstays⟩)
    exact hloaded

private theorem stays_allocPage (h : Stocked hash filename mgr)
    (hsafe : FileCall.allocatePage.Safe (mgr.files (filename g)))
    {r : EStateM.Result (BufError F) (BufMgr F Page (N → PageFile)) (PageId × FrameId)}
    (hspec : AllocPage (pageFiles filename) hash g mgr r) : (stateAfter r).Holds i f p := by
  cases hspec with
  | exceeded t full => exact t.holds_iff.mpr hi
  | failed freed run => exact (freed.protects hi hpin).2
  | @present j k m _ new files freed run holds =>
    obtain ⟨page, file, hreturns, -, -, hunused⟩ := h.allocates hsafe freed
    obtain ⟨rfl, -⟩ := EStateM.Result.ok.inj (hreturns.symm.trans run)
    exact absurd hunused ((h.freed freed).backed.live k g _ holds)
  | @allocated j m new files table freed run loads =>
    obtain ⟨hne, hstays⟩ := freed.protects hi hpin
    have hloaded : (m.occupy j table g new.1 new.2).Holds i f p := (holds_occupy freed.lt).mpr (.inr ⟨hne, hstays⟩)
    exact hloaded

private theorem stays_flushFile (h : Stocked hash filename mgr) :
    (stateAfter (flushFile (pageFiles filename) hash g mgr)).Holds i f p := by
  have hdrops : ∀ {g m m'}, (Backed filename m ∧ m.Holds i f p ∧ 0 < (m.bufDescTable i).pinCnt) →
      Drops (pageFiles filename) hash g m m' →
      Backed filename m' ∧ m'.Holds i f p ∧ 0 < (m'.bufDescTable i).pinCnt := by
    rintro g m m' ⟨hm, hold, hpos⟩ ⟨j, q, d⟩
    have hne : i ≠ j := by
      rintro rfl
      cases d with
      | drop holds unpinned => exact Nat.ne_of_gt hpos unpinned
    refine ⟨(hm.dropped d).1, d.holds_iff.mpr ⟨hne, hold⟩, ?_⟩
    rw [(d.same hne).pinCnt]
    exact hpos
  obtain ⟨m, -, -, ⟨-, hstays, -⟩, ⟨j, q, -, -, hrun⟩ | ⟨hrun, -⟩⟩ :=
    flushFile_cases (W := fun m => Backed filename m ∧ m.Holds i f p ∧ 0 < (m.bufDescTable i).pinCnt)
      (fun hm => hm.1.writable) (fun hm _ hdrop => hdrops hm hdrop) h.agree ⟨h.backed, hi, hpin⟩ g
  · rw [hrun]
    exact hstays
  · rw [hrun]
    exact hstays

omit hpin [DecidableEq N] in
private theorem stays_disposePage {L : FileLayer F Page (N → PageFile)} (hother : ¬ (g = f ∧ q = p))
    {r : EStateM.Result (BufError F) (BufMgr F Page (N → PageFile)) Unit} (hspec : DisposePage L hash g q mgr r) :
    (stateAfter r).Holds i f p := by
  have hvacated : ∀ {j} table, mgr.Holds j g q → (mgr.vacate j table).Holds i f p := by
    intro j table hj
    refine holds_vacate.mpr ⟨?_, hi⟩
    rintro rfl
    exact hother ⟨Option.some.inj (hj.2.file.symm.trans hi.2.file), hj.2.pageNo.symm.trans hi.2.pageNo⟩
  cases hspec with
  | absent => exact hi
  | @failed _ table _ _ holds removed run => exact hvacated table holds
  | @disposed _ table _ holds removed run => exact hvacated table holds

/-- A pinned page stays in its frame, whatever is called but `disposePage` of it. -/
theorem Stocked.pinned_stays (h : Stocked hash filename mgr) {call : Call F Page} (horderly : call.Orderly filename mgr)
    (hother : call ≠ .disposePage f p) :
    (call.run (pageFiles filename) hash filename Page.bare mgr edits).1.Holds i f p := by
  cases call with
  | readPage g q =>
    have hstays := stays_readPage hi hpin (readPage_spec h.agree h.backed.writable g q)
    rw [Call.run]
    cases hrun : P3.readPage (pageFiles filename) hash g q mgr <;> rw [hrun] at hstays <;> exact hstays
  | allocPage g =>
    have hstays := stays_allocPage hi hpin h horderly (allocPage_spec h.agree h.backed.writable g)
    rw [Call.run]
    cases hrun : P3.allocPage (pageFiles filename) hash g mgr <;> rw [hrun] at hstays <;> exact hstays
  | unPinPage g q dirty =>
    have hunpinned : ∀ j, (mgr.withDesc j ((mgr.bufDescTable j).unpinned dirty)).Holds i f p ↔ mgr.Holds i f p :=
      fun j => holds_withDesc rfl rfl rfl
    have hspec := unPinPage_spec h.agree g q dirty
    rw [Call.run]
    cases hrun : P3.unPinPage hash g q dirty mgr <;> rw [hrun] at hspec <;> cases hspec
    · exact (hunpinned _).mpr hi
    · exact hi
    · exact (hunpinned _).mpr hi
  | flushFile g =>
    have hstays : (stateAfter (P3.flushFile (pageFiles filename) hash g mgr)).Holds i f p := stays_flushFile hi hpin h
    rw [Call.run]
    cases hrun : P3.flushFile (pageFiles filename) hash g mgr <;> rw [hrun] at hstays <;> exact hstays
  | disposePage g q =>
    have hother' : ¬ (g = f ∧ q = p) := by
      rintro ⟨rfl, rfl⟩
      exact hother rfl
    have hstays : (stateAfter (P3.disposePage (pageFiles filename) hash g q mgr)).Holds i f p :=
      stays_disposePage hi hother' (disposePage_spec h.agree g q)
    rw [Call.run]
    cases hrun : P3.disposePage (pageFiles filename) hash g q mgr <;> rw [hrun] at hstays <;> exact hstays
  | edit g q fid page => exact hi

end Stays

/-- The changes that are not marked are in the pool. -/
def Held (filename : F → N) (mgr : BufMgr F Page (N → PageFile)) (edits : Edits N Page) : Prop :=
  ∀ n p, edits.unsaved (n, p) = true → ∃ i f, mgr.Holds i f p ∧ filename f = n

omit [DecidableEq F] in
/-- A change that is not marked after one that was. -/
private theorem unsaved_of_update {unsaved : N × PageId → Bool} {key key' : N × PageId}
    (h : Function.update unsaved key' false key = true) : key ≠ key' ∧ unsaved key = true := by
  by_cases heq : key = key'
  · rw [heq, Function.update_self] at h
    cases h
  · rw [Function.update_of_ne heq] at h
    exact ⟨heq, h⟩

/-- One call. -/
private theorem Held.call (hheld : Held filename mgr edits) (h : Stocked hash filename mgr)
    (hk : Kept filename Page.bare neatPages mgr edits) {call : Call F Page} (hproper : call.Proper filename mgr edits) :
    Held filename (call.run (pageFiles filename) hash filename Page.bare mgr edits).1
      (call.run (pageFiles filename) hash filename Page.bare mgr edits).2 := by
  -- a change that was not marked before
  have hold : ∀ {n p}, edits.unsaved (n, p) = true →
      (∀ i f, mgr.Holds i f p → filename f = n → call ≠ .disposePage f p) →
      ∃ i f, (call.run (pageFiles filename) hash filename Page.bare mgr edits).1.Holds i f p ∧ filename f = n := by
    intro n p hunsaved hother
    obtain ⟨i, f, hi, hf⟩ := hheld n p hunsaved
    have hpin := (hk n p).pinned i f hi hf hunsaved
    exact ⟨i, f, Stocked.pinned_stays hi hpin h hproper.orderly (hother i f hi hf), hf⟩
  intro n p hunsaved
  cases call with
  | readPage f q =>
    refine hold ?_ (by simp)
    rw [Call.run] at hunsaved
    cases hrun : P3.readPage (pageFiles filename) hash f q mgr <;> rw [hrun] at hunsaved <;> exact hunsaved
  | allocPage f =>
    refine hold ?_ (by simp)
    rw [Call.run] at hunsaved
    cases hrun : P3.allocPage (pageFiles filename) hash f mgr with
    | error e m =>
      rw [hrun] at hunsaved
      exact hunsaved
    | ok new m =>
      rw [hrun] at hunsaved
      exact (unsaved_of_update hunsaved).2
  | unPinPage f q dirty =>
    refine hold ?_ (by simp)
    rw [Call.run] at hunsaved
    cases hrun : P3.unPinPage hash f q dirty mgr with
    | error e m =>
      rw [hrun] at hunsaved
      exact hunsaved
    | ok _ m =>
      rw [hrun] at hunsaved
      cases dirty with
      | false => exact hunsaved
      | true => exact (unsaved_of_update hunsaved).2
  | flushFile f =>
    refine hold ?_ (by simp)
    rw [Call.run] at hunsaved
    cases hrun : P3.flushFile (pageFiles filename) hash f mgr <;> rw [hrun] at hunsaved <;> exact hunsaved
  | disposePage f q =>
    have hspec := disposePage_spec (L := pageFiles filename) h.agree f q
    rw [Call.run] at hunsaved
    cases hrun : P3.disposePage (pageFiles filename) hash f q mgr with
    | error e m =>
      rw [hrun] at hunsaved hspec
      refine hold hunsaved fun i g hi hg heq => ?_
      obtain ⟨rfl, rfl⟩ := Call.disposePage.inj heq
      cases hspec with
      | absent absent => exact absent i hi
      | failed holds removed run =>
        obtain ⟨file, _, _, _, hdelete, -⟩ := h.backed.deletes holds
        rw [hdelete] at run
        cases run
    | ok _ m =>
      rw [hrun] at hunsaved
      obtain ⟨hne, hunsaved⟩ := unsaved_of_update hunsaved
      refine hold hunsaved fun i g hi hg heq => ?_
      obtain ⟨rfl, rfl⟩ := Call.disposePage.inj heq
      exact hne (hg ▸ rfl)
  | edit f q fid page =>
    by_cases heq : (n, p) = (filename f, q)
    · obtain ⟨rfl, rfl⟩ := Prod.mk.inj heq
      exact ⟨fid, f, hproper.marks.1, rfl⟩
    · refine hold ?_ (by simp)
      rw [Call.run] at hunsaved
      exact (Function.update_of_ne heq ..).symm.trans hunsaved

/-- In every state of a run of proper calls over neat files. -/
theorem Run.unsaved_held {bufs : Nat} {page : Page} {files : N → PageFile} (hfiles : ∀ n, (files n).Neat)
    (hrun : Run (pageFiles filename) hash filename Page.bare bufs page files (pagesOf files)
      (fun mgr edits call => call.Proper filename mgr edits) mgr edits) : Held filename mgr edits := by
  induction hrun with
  | start => exact fun n p hunsaved => absurd hunsaved Bool.false_ne_true
  | @call mgr edits call before meets ih =>
    rcases before.stocked hfiles with ⟨h, hk⟩ | ⟨hzero, hnone, -, -⟩
    · exact ih.call h hk meets
    · have hedit : ∀ f p fid page, call = .edit f p fid page → mgr.Holds fid f p := by
        rintro f p fid page rfl
        exact meets.orderly.1
      rw [empty_call hzero hnone call hedit]
      exact ih

end Cs564.P3
