import Cs564.BTree.Together

/-!
# Sessions

An index is built, its methods are called while other clients use the pool, and it is closed and opened again, through
the same pool or another one (`Session`).  `PlainSession` does the same over the plain store.  If all searches are clear,
the calls of a session have the same outcomes over the plain store, and lead to the same pages (`Session.same_as_plain`).
-/

namespace Cs564.BTree

open P2 (BufMgr)
open P3 (FileLayer BlobFile)
open PageStore

variable {F σ : Type} [DecidableEq F] {L : FileLayer F Page σ} {hash : F → PageId → Nat} {on : F → Prop}
  {blob : σ → BlobFile Page} {file : F} {w w' : World (BufMgr F Page σ) FrameId} {u u' : World PageStore PageId} {h : Nat}
  {t : Branch}

/-! ### Sessions -/

/-- What is done with an index: it is built, a method is called, or it is destroyed and constructed again on its file. -/
inductive Step
  | construct (relationName : Nat → Nat) (nameLength : Nat) (attrByteOffset : Int) (attrType : Datatype)
      (entries : List (Int × RecordId))
  | call (method : Call) (depth : IndexMetaInfo → Nat) (fuel : Nat)
  | reopen (attrByteOffset : Int) (attrType : Datatype)

/-- A step over the plain store. -/
def Step.plain : Step → EStateM Exc (World PageStore PageId) (Option RecordId)
  | .construct relationName nameLength attrByteOffset attrType entries => do
    BTree.construct layer relationName nameLength attrByteOffset attrType entries
    return none
  | .call method depth fuel => method.run layer depth fuel
  | .reopen attrByteOffset attrType => do
    destroy layer
    BTree.reopen layer PageStore.getFirstPageNo attrByteOffset attrType
    return none

/-- The steps of a session and how they ended. -/
abbrev Log := List (Step × Except Exc (Option RecordId))

/-- Steps over the plain store. -/
inductive PlainSession (start : World PageStore PageId) : Log → World PageStore PageId → Prop
  | start : PlainSession start [] start
  | step {log : Log} {u : World PageStore PageId} (before : PlainSession start log u) (step : Step) :
      PlainSession start (log ++ [(step, outcome (step.plain u))]) (stateAfter (step.plain u))

theorem PlainSession.returned {start u u' : World PageStore PageId} {log : Log} (before : PlainSession start log u)
    {step : Step} {rid : Option RecordId} (run : step.plain u = .ok rid u') :
    PlainSession start (log ++ [(step, .ok rid)]) u' := by
  have hstep := before.step step
  rw [run] at hstep
  exact hstep

private theorem PlainSession.threw {start u u' : World PageStore PageId} {log : Log} (before : PlainSession start log u)
    {step : Step} {e : Exc} (run : step.plain u = .error e u') : PlainSession start (log ++ [(step, .error e)]) u' := by
  have hstep := before.step step
  rw [run] at hstep
  exact hstep

private theorem PlainSession.append {start u u' : World PageStore PageId} {log more : Log}
    (before : PlainSession start log u) (after : PlainSession u more u') : PlainSession start (log ++ more) u' := by
  induction after with
  | start =>
    rw [List.append_nil]
    exact before
  | step _ step ih =>
    rw [← List.append_assoc]
    exact ih.step step

/-- The same steps over the plain store end alike. -/
theorem PlainSession.unique {start u u' : World PageStore PageId} {log log' : Log} (session : PlainSession start log u)
    (session' : PlainSession start log' u') (hsteps : log'.map Prod.fst = log.map Prod.fst) : log' = log ∧ u' = u := by
  induction session generalizing log' u' with
  | start =>
    cases session' with
    | start => exact ⟨rfl, rfl⟩
    | step before step => simp at hsteps
  | step before step ih =>
    cases session' with
    | start => simp at hsteps
    | step before' step' =>
      simp only [List.map_append, List.map_cons, List.map_nil] at hsteps
      obtain ⟨hlog, hlast⟩ := List.append_inj' hsteps rfl
      obtain ⟨rfl, rfl⟩ := ih before' hlog
      obtain rfl := List.singleton_inj.mp hlast
      exact ⟨rfl, rfl⟩

/-- Calls as `meets` says, while other clients use the pool. -/
inductive Uses (L : FileLayer F Page σ) (hash : F → PageId → Nat) (on : F → Prop) (file : F)
    (meets : Nat → World (BufMgr F Page σ) FrameId → Call → Prop) (start : World (BufMgr F Page σ) FrameId) :
    Log → World (BufMgr F Page σ) FrameId → Prop
  | start : Uses L hash on file meets start [] start
  | returned {log : Log} {w w' : World (BufMgr F Page σ) FrameId} (before : Uses L hash on file meets start log w)
      {call : Call} {depth : IndexMetaInfo → Nat} {fuel : Nat} (ok : meets fuel w call) {rid : Option RecordId}
      (run : call.run (poolLayer L hash file) depth fuel w = .ok rid w') :
      Uses L hash on file meets start (log ++ [(.call call depth fuel, .ok rid)]) w'
  | threw {log : Log} {w w' : World (BufMgr F Page σ) FrameId} (before : Uses L hash on file meets start log w)
      {call : Call} {depth : IndexMetaInfo → Nat} {fuel : Nat} (ok : meets fuel w call) {e : Exc}
      (run : call.run (poolLayer L hash file) depth fuel w = .error e w') (documented : e.Documented) :
      Uses L hash on file meets start (log ++ [(.call call depth fuel, .error e)]) w'
  | other {log : Log} {w : World (BufMgr F Page σ) FrameId} (before : Uses L hash on file meets start log w)
      {mgr : BufMgr F Page σ} (step : Other L hash on w.pages mgr) :
        Uses L hash on file meets start log { w with pages := mgr }

/-- The sessions of an index over a pool: it is built over a pool that has no page of its file, it is used, and it is closed
and opened again over such a pool, with another object of the file. -/
inductive Session (L : FileLayer F Page σ) (hash : F → PageId → Nat) (on : F → Prop) (blob : σ → BlobFile Page)
    (meets : F → Nat → World (BufMgr F Page σ) FrameId → Call → Prop) : F → Log → World (BufMgr F Page σ) FrameId → Prop
  | constructed {file : F} (hosted : on file) {start w : World (BufMgr F Page σ) FrameId} {relationName : Nat → Nat}
      {nameLength : Nat} {attrByteOffset : Int} {attrType : Datatype} {entries : List (Int × RecordId)}
      (idle : Idle L hash on start.pages) (created : blob start.pages.files = .create Page)
      (valid : ∀ e ∈ entries, e.2.page_number ≠ INVALID_NUMBER)
      (run : Constructs L hash on file relationName nameLength attrByteOffset attrType entries start w) :
      Session L hash on blob meets file [(.construct relationName nameLength attrByteOffset attrType entries, .ok none)] w
  | used {file : F} {log more : Log} {w w' : World (BufMgr F Page σ) FrameId}
      (before : Session L hash on blob meets file log w)
      (uses : Uses L hash on file (meets file) w more w') : Session L hash on blob meets file (log ++ more) w'
  | reopened {file : F} {log : Log} {w closed : World (BufMgr F Page σ) FrameId}
      (before : Session L hash on blob meets file log w)
      (closes : destroy (poolLayer L hash file) w = .ok () closed) {file' : F} (hosted : on file')
      {start w' : World (BufMgr F Page σ) FrameId} (idle : Idle L hash on start.pages)
      (kept : blob start.pages.files = blob closed.pages.files) {attrByteOffset : Int} {attrType : Datatype}
      (run : BTree.reopen (poolLayer L hash file') (getFirstPageNo blob) attrByteOffset attrType start = .ok () w') :
      Session L hash on blob meets file' (log ++ [(.reopen attrByteOffset attrType, .ok none)]) w'

/-- The data members that say where the tree is, and all its pages. -/
structure SameIndex (hash : F → PageId → Nat) (blob : σ → BlobFile Page) (file : F) (w : World (BufMgr F Page σ) FrameId)
    (u : World PageStore PageId) : Prop where
  header : w.index.headerPageNum = u.index.headerPageNum
  root : w.index.rootPageNum = u.index.rootPageNum
  numPages : (blob w.pages.files).num_pages = u.pages.numPages
  pages : ∀ p, seen hash blob file w.pages p = u.pages.page? p

theorem Follows.sameIndex (hf : Follows hash blob file h t u w) : SameIndex hash blob file w u :=
  ⟨hf.header, hf.root, hf.mirrors.numPages, hf.mirrors.seen⟩

theorem Exc.Documented.ne {e : Exc} (h : e.Documented) : e ≠ .bufferExceeded ∧ e ≠ .outOfFuel := by
  rcases h with rfl | rfl | rfl | rfl | rfl <;> decide

section Sessions

variable (hL : Hosts L on blob)
include hL

/-- The calls of the callers whose searches are clear. -/
abbrev Call.Meets (L : FileLayer F Page σ) (hash : F → PageId → Nat) (blob : σ → BlobFile Page) (file : F) (fuel : Nat)
    (w : World (BufMgr F Page σ) FrameId) (call : Call) : Prop := call.Valid ∧ call.Clear L hash blob file fuel w

/-- Call by call over the plain store, by induction on the calls. -/
theorem Uses.together (hfile : on file) {log : Log} (uses : Uses L hash on file (Call.Meets L hash blob file) w log w')
    (htogether : Together L hash on blob file h t u w) :
    ∃ u' h' t', PlainSession u log u' ∧ Together L hash on blob file h' t' u' w' := by
  induction uses with
  | start => exact ⟨u, h, t, .start, htogether⟩
  | @returned log w w' before call depth fuel ok rid run ih =>
    obtain ⟨u₁, h₁, t₁, hplain, htogether₁⟩ := ih
    have hcall := htogether₁.call hL hfile ok.1 ok.2 depth
    rw [run] at hcall
    obtain ⟨_, u₂, hrun, rfl, h₂, t₂, htogether₂⟩ := hcall.returned
    exact ⟨u₂, h₂, t₂, hplain.returned hrun, htogether₂⟩
  | @threw log w w' before call depth fuel ok e run documented ih =>
    obtain ⟨u₁, h₁, t₁, hplain, htogether₁⟩ := ih
    have hcall := htogether₁.call hL hfile ok.1 ok.2 depth
    rw [run] at hcall
    rcases hcall with hexceeded | ⟨u₂, hrun, hfuel | ⟨h₂, t₂, htogether₂⟩⟩
    · exact absurd hexceeded documented.ne.1
    · exact absurd hfuel documented.ne.2
    · exact ⟨u₂, h₂, t₂, hplain.threw hrun, htogether₂⟩
  | other before step ih =>
    obtain ⟨u₁, h₁, t₁, hplain, htogether₁⟩ := ih
    obtain ⟨hsound, hsame⟩ := Steady.other hL hfile htogether₁.sound step
    exact ⟨u₁, h₁, t₁, hplain, { htogether₁.follows with mirrors := htogether₁.follows.mirrors.same hsame }, hsound,
      htogether₁.alike⟩

/-- Step by step over the plain store, by induction on the session. -/
private theorem Session.together {log : Log} (session : Session L hash on blob (Call.Meets L hash blob) file log w)
    (index : BTreeIndex PageId) :
    on file ∧ ∃ u h t, PlainSession ⟨index, created⟩ log u ∧ Together L hash on blob file h t u w := by
  induction session with
  | constructed hosted idle hcreated valid run =>
    obtain ⟨u, h, t, hrun, htogether⟩ := run.together hL hosted idle hcreated valid index
    refine ⟨hosted, u, h, t, PlainSession.start.returned ?_, htogether⟩
    rw [Step.plain, run_bind_ok hrun]
    rfl
  | used before uses ih =>
    obtain ⟨hfile, u, h, t, hplain, htogether⟩ := ih
    obtain ⟨u', h', t', hplain', htogether'⟩ := uses.together hL hfile htogether
    exact ⟨hfile, u', h', t', hplain.append hplain', htogether'⟩
  | @reopened file log w closed before closes file' hosted start w' idle kept offset type run ih =>
    obtain ⟨hfile, u, h, t, hplain, htogether⟩ := ih
    have hopen := htogether.follows.reopened hL hfile htogether.sound closes hosted idle kept
      { u.index with scanExecuting := false } offset type
    rw [run] at hopen
    obtain ⟨_, u', hrun, htogether', -⟩ := hopen.returned
    refine ⟨hosted, u', h, t, hplain.returned ?_, htogether'⟩
    have hdestroy : destroy layer u = .ok () ⟨{ u.index with scanExecuting := false }, u.pages⟩ := rfl
    rw [Step.plain, run_bind_ok hdestroy, run_bind_ok hrun]
    rfl

/-- In every session whose searches are clear, the calls have the outcomes that they have over the plain store, and the
index has the same pages; and so does every further call, unless the pool is full. -/
theorem Session.same_as_plain {log : Log} (session : Session L hash on blob (Call.Meets L hash blob) file log w)
    (index : BTreeIndex PageId) :
    ∃ u, PlainSession ⟨index, created⟩ log u ∧ SameIndex hash blob file w u ∧
      ∀ (call : Call) (depth : IndexMetaInfo → Nat) (fuel : Nat), call.Meets L hash blob file fuel w →
        outcome (call.run (poolLayer L hash file) depth fuel w) = outcome (call.run layer depth fuel u) ∨
        outcome (call.run (poolLayer L hash file) depth fuel w) = .error .bufferExceeded := by
  obtain ⟨hfile, u, h, t, hplain, htogether⟩ := session.together hL index
  refine ⟨u, hplain, htogether.follows.sameIndex, fun call depth fuel hmeets => ?_⟩
  refine (htogether.call hL hfile hmeets.1 hmeets.2 depth).outcome_eq.imp id fun hexcused => ?_
  obtain ⟨e, rfl, hthrew⟩ := hexcused
  exact hthrew

end Sessions

/-- An index of one pair over three frames, two of which another client has pinned before the search: the header page and
the root page come into the third one. -/
theorem same_as_plain_one : ∃ w₁ w u,
    construct twoFilesPool (fun _ => 0) 0 0 .INTEGER [(5, ⟨7, 1, 0⟩)] (newWorld 3) = .ok () w₁ ∧
      (Call.startScan 0 .GTE 9 .LTE).run twoFilesPool (fun _ => 0) 0 (readOther 2 (readOther 1 w₁)) = .ok none w ∧
      PlainSession ⟨uninitialized, created⟩ [(.construct (fun _ => 0) 0 0 .INTEGER [(5, ⟨7, 1, 0⟩)], .ok none),
        (.call (.startScan 0 .GTE 9 .LTE) (fun _ => 0) 0, .ok none)] u ∧
      SameIndex (P3.hash Bool.toNat) (fun files => files true) true w u ∧
      (outcome (Call.scanNext.run twoFilesPool (fun _ => 0) 0 w) = outcome (Call.scanNext.run layer (fun _ => 0) 0 u) ∨
        outcome (Call.scanNext.run twoFilesPool (fun _ => 0) 0 w) = .error .bufferExceeded) := by
  have hreturned : returned (fun _ w₁ => returned (fun rid _ => decide (rid = none) &&
        decide (¬ StrayRoot (shown (P3.hash Bool.toNat) (fun files => files true) true (readOther 2 (readOther 1 w₁))) 0) &&
        decide (searchPath (shown (P3.hash Bool.toNat) (fun files => files true) true (readOther 2 (readOther 1 w₁))).pages
          (readOther 2 (readOther 1 w₁)).index.headerPageNum (readOther 2 (readOther 1 w₁)).index.rootPageNum 0 0 = []))
      ((Call.startScan 0 .GTE 9 .LTE).run twoFilesPool (fun _ => 0) 0 (readOther 2 (readOther 1 w₁))))
      (construct twoFilesPool (fun _ => 0) 0 0 .INTEGER [(5, ⟨7, 1, 0⟩)] (newWorld 3)) = true := by decide +kernel
  obtain ⟨_, w₁, hconstruct, hsearched⟩ := exists_ok hreturned
  obtain ⟨rid, w, hscan, hall⟩ := exists_ok hsearched
  simp only [Bool.and_eq_true, decide_eq_true_eq] at hall
  obtain ⟨⟨rfl, hstray⟩, hpath⟩ := hall
  have hbuilt : Session twoFiles (P3.hash Bool.toNat) (fun f => id f = true) (fun files => files true)
      (Call.Meets twoFiles (P3.hash Bool.toNat) fun files => files true) true
      [(.construct (fun _ => 0) 0 0 .INTEGER [(5, ⟨7, 1, 0⟩)], .ok none)] w₁ := by
    refine .constructed ?_ (newWorld_idle (by decide : 0 < 3)) ?_ (by decide) (.of_run hconstruct) <;> rfl
  have hclear : SearchClear twoFiles (P3.hash Bool.toNat) (fun files => files true) true 0 0
      (readOther 2 (readOther 1 w₁)) := by
    refine ⟨hstray, fun i m _ j m' _ => ?_⟩
    rw [hpath]
    trivial
  have huses : Uses twoFiles (P3.hash Bool.toNat) (fun f => id f = true) true
      (Call.Meets twoFiles (P3.hash Bool.toNat) (fun files => files true) true) w₁
      [(.call (.startScan 0 .GTE 9 .LTE) (fun _ => 0) 0, .ok none)] w :=
    ((Uses.start.other (other_readOther 1 w₁)).other (other_readOther 2 (readOther 1 w₁))).returned
      ⟨⟨by decide, by decide⟩, fun _ => hclear⟩ hscan
  obtain ⟨u, hplain, hsame, hcalls⟩ := Session.same_as_plain (blobFiles_hosts id true) (hbuilt.used huses) uninitialized
  exact ⟨w₁, w, u, hconstruct, hscan, hplain, hsame, hcalls .scanNext (fun _ => 0) 0 ⟨trivial, trivial⟩⟩

end Cs564.BTree
