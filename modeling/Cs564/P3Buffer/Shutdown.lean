import Cs564.P3Buffer.NeatFiles

/-!
# The end of the manager

`~BufMgr` of `p3` writes the dirty pages of the pool to their files.  Over a page store it returns, and the store has each
page after all changes, if its last change was marked (`Kept.destroyed`); over page files it leaves the files neat
(`destroyBufMgr_keeps`), so that the next manager starts where this one ended.
-/

namespace Cs564.P3

open P2 (BufError BufDesc BufMgr BufM onFiles onFiles_ok)
open P2.BufMgr PageFile

variable {F N P C σ : Type} [DecidableEq F] [DecidableEq N]

section Code

variable (L : FileLayer F P σ)

/-- `~BufMgr`, for one frame. -/
def writeFrame (fid : FrameId) : BufM F P σ Unit := do
  let mgr ← get
  let tmpbuf := mgr.bufDescTable fid
  if tmpbuf.valid = true ∧ tmpbuf.dirty = true then
    match tmpbuf.file with
    | none => throw .noFile
    | some file => onFiles (L.writePage file tmpbuf.pageNo (mgr.bufPool fid))
  else return ()

/-- The loop of `~BufMgr`. -/
def writeFrames : List FrameId → BufM F P σ Unit
  | [] => return ()
  | fid :: fids => do
    writeFrame L fid
    writeFrames fids

/-- `~BufMgr`. -/
def destroyBufMgr : BufM F P σ Unit := do
  let mgr ← get
  writeFrames L (List.range mgr.numBufs)

end Code

variable {L : FileLayer F P σ} {hash : F → PageId → Nat} {filename : F → N} {body : P → C}
  {store : σ → N × PageId → Option C} {mgr : BufMgr F P σ} {edits : Edits N C} {f : F} {p : PageId} {i : FrameId}

omit [DecidableEq F] in
/-- A frame with a dirty page. -/
theorem writeFrame_dirty (hi : mgr.Holds i f p) (hdirty : (mgr.bufDescTable i).dirty = true) :
    writeFrame L i mgr = onFiles (L.writePage f p (mgr.bufPool i)) mgr := by
  rw [writeFrame, run_bind_ok (run_get mgr), if_pos ⟨hi.2.valid, hdirty⟩, hi.2.file, hi.2.pageNo]

omit [DecidableEq F] in
/-- Any other frame. -/
theorem writeFrame_clean (hclean : ¬ ((mgr.bufDescTable i).valid = true ∧ (mgr.bufDescTable i).dirty = true)) :
    writeFrame L i mgr = .ok () mgr := by
  rw [writeFrame, run_bind_ok (run_get mgr), if_neg hclean]
  rfl

/-! ### Over a page store -/

omit [DecidableEq F] in
/-- A page of the pool is written, and stays in the pool. -/
private theorem Kept.copied (hk : Kept filename body store mgr edits) (hi : mgr.Holds i f p) {files : σ}
    (hstore : store files = Function.update (store mgr.files) (filename f, p) (some (body (mgr.bufPool i)))) :
    Kept filename body store (mgr.withFiles files) edits := by
  intro n q
  have hkey := hk (filename f) p
  by_cases heq : (n, q) = (filename f, p)
  · obtain ⟨rfl, rfl⟩ := Prod.mk.inj heq
    have hself : store files (filename f, q) = edits.contents (filename f, q) := by
      rw [hstore, Function.update_self]
      exact (hkey.current i f hi rfl).symm
    have hi' : (mgr.withFiles files).Holds i f q := hi
    refine .of_frame hi' rfl (fun j g hj hg => hkey.distinct j i g f hj hi hg rfl) (hkey.current i f hi rfl) ?_
      (hkey.pinned i f hi rfl) fun _ _ => hself
    change store files (filename f, q) ≠ none
    rw [hself, hkey.current i f hi rfl]
    exact Option.some_ne_none _
  · refine (hk n q).congr (fun _ _ _ => Iff.rfl) (fun _ _ _ _ => ⟨rfl, rfl, rfl⟩) ?_ rfl rfl
    exact (congrFun hstore _).trans (Function.update_of_ne heq ..)

/-- What is right in the store stays right, and the dirty pages of frames in `l` get right. -/
private def Corrects (filename : F → N) (store : σ → N × PageId → Option C) (mgr : BufMgr F P σ) (edits : Edits N C)
    (l : List FrameId) (files : σ) : Prop :=
  ∀ n p, (store mgr.files (n, p) = edits.contents (n, p) ∨
      ∃ i f, i ∈ l ∧ filename f = n ∧ mgr.Holds i f p ∧ (mgr.bufDescTable i).dirty = true) →
    store files (n, p) = edits.contents (n, p)

/-- The loop of `~BufMgr`; by induction on the frames to come. -/
private theorem Kept.writeFrames (hL : L.Faithful filename body store) (h : mgr.Agree hash)
    (hk : Kept filename body store mgr edits) (l : List FrameId) (hl : ∀ i ∈ l, i < mgr.numBufs) :
    ∃ files, P3.writeFrames L l mgr = .ok () (mgr.withFiles files) ∧ Corrects filename store mgr edits l files := by
  induction l generalizing mgr with
  | nil =>
    refine ⟨mgr.files, rfl, ?_⟩
    rintro n p (hstored | ⟨i, -, hi, -⟩)
    · exact hstored
    · exact absurd hi List.not_mem_nil
  | cons i l ih =>
    have hi := hl i List.mem_cons_self
    have hl' : ∀ j ∈ l, j < mgr.numBufs := fun j hj => hl j (List.mem_cons_of_mem _ hj)
    by_cases hdirty : (mgr.bufDescTable i).valid = true ∧ (mgr.bufDescTable i).dirty = true
    · obtain ⟨f, hf⟩ := (h.tidy i hi).named hdirty.1
      have hholds : mgr.Holds i f (mgr.bufDescTable i).pageNo := ⟨hi, hdirty.1, hf, rfl⟩
      have hkey := hk (filename f) (mgr.bufDescTable i).pageNo
      obtain ⟨files, hwrite, hstore⟩ := hL.writePage (mgr.bufPool i) (hkey.live i f hholds rfl)
      have hrun : writeFrame L i mgr = .ok () (mgr.withFiles files) :=
        (writeFrame_dirty hholds hdirty.2).trans (onFiles_ok hwrite)
      obtain ⟨files', hrest, hcorrects⟩ := ih (h.withFiles files) (hk.copied hholds hstore) hl'
      refine ⟨files', (run_bind_ok hrun).trans hrest, fun n p hright => hcorrects n p ?_⟩
      -- the page of this frame is right now
      by_cases heq : (n, p) = (filename f, (mgr.bufDescTable i).pageNo)
      · rw [heq]
        refine .inl ((congrFun hstore _).trans ?_)
        rw [Function.update_self]
        exact (hkey.current i f hholds rfl).symm
      · rcases hright with hstored | ⟨j, g, hj, hg, hholds', hdirty'⟩
        · exact .inl ((congrFun hstore _).trans ((Function.update_of_ne heq ..).trans hstored))
        · refine .inr ⟨j, g, (List.mem_cons.mp hj).resolve_left ?_, hg, hholds', hdirty'⟩
          rintro rfl
          refine heq ?_
          rw [← hg, Option.some.inj (hholds'.2.file.symm.trans hf), hholds'.2.pageNo]
    · obtain ⟨files, hrest, hcorrects⟩ := ih h hk hl'
      refine ⟨files, (run_bind_ok (writeFrame_clean hdirty)).trans hrest, fun n p hright => hcorrects n p ?_⟩
      refine hright.imp_right ?_
      rintro ⟨j, g, hj, hg, hholds, hdirty'⟩
      refine ⟨j, g, (List.mem_cons.mp hj).resolve_left ?_, hg, hholds, hdirty'⟩
      rintro rfl
      exact hdirty ⟨hholds.2.valid, hdirty'⟩

/-- The pool has no change of page `p` of file `n` that was not marked. -/
def Marked (filename : F → N) (mgr : BufMgr F P σ) (edits : Edits N C) (n : N) (p : PageId) : Prop :=
  ∀ i f, mgr.Holds i f p → filename f = n → edits.unsaved (n, p) = false

/-- `~BufMgr` returns, and the store has every page whose changes were marked, after all changes. -/
theorem Kept.destroyed (hL : L.Faithful filename body store) (h : mgr.Agree hash)
    (hk : Kept filename body store mgr edits) :
    ∃ files, destroyBufMgr L mgr = .ok () (mgr.withFiles files) ∧
      ∀ n p, Marked filename mgr edits n p → store files (n, p) = edits.contents (n, p) := by
  obtain ⟨files, hrun, hcorrects⟩ := hk.writeFrames hL h (List.range mgr.numBufs) fun i hi => List.mem_range.mp hi
  refine ⟨files, (run_bind_ok (run_get mgr)).trans hrun, fun n p hmarked => hcorrects n p ?_⟩
  by_cases hcached : ∃ i f, mgr.Holds i f p ∧ filename f = n
  · obtain ⟨i, f, hi, hf⟩ := hcached
    by_cases hdirty : (mgr.bufDescTable i).dirty = true
    · exact .inr ⟨i, f, List.mem_range.mpr hi.1, hf, hi, hdirty⟩
    · exact .inl ((hk n p).clean i f hi hf (eq_false_of_ne_true hdirty) (hmarked i f hi hf))
  · exact .inl ((hk n p).stored fun i f hi hf => hcached ⟨i, f, hi, hf⟩)

/-! ### Over page files -/

section PageFiles

variable {filename : F → N} {mgr : BufMgr F Page (N → PageFile)}

/-- `~BufMgr` at one frame. -/
private theorem Stocked.writeFrame (h : Stocked hash filename mgr) (hi : i < mgr.numBufs) :
    P3.writeFrame (pageFiles filename) i mgr = P3.writeFrame (guardedFiles filename) i mgr ∧
      ∃ files, P3.writeFrame (pageFiles filename) i mgr = .ok () (mgr.withFiles files) ∧
        Stocked hash filename (mgr.withFiles files) := by
  by_cases hdirty : (mgr.bufDescTable i).valid = true ∧ (mgr.bufDescTable i).dirty = true
  · obtain ⟨f, hf⟩ := (h.agree.tidy i hi).named hdirty.1
    have hholds : mgr.Holds i f (mgr.bufDescTable i).pageNo := ⟨hi, hdirty.1, hf, rfl⟩
    obtain ⟨file, hwrite, hfile, -⟩ := (h.neat (filename f)).writePage (h.backed.live i f _ hholds)
      (h.backed.number i f _ hholds)
    have hwritten : (pageFiles filename).writePage f (mgr.bufDescTable i).pageNo (mgr.bufPool i) mgr.files =
        .ok () (Function.update mgr.files (filename f) file) := onFile_eq hwrite
    have hrun := (writeFrame_dirty (L := pageFiles filename) hholds hdirty.2).trans (onFiles_ok hwritten)
    have hguarded : (guardedFiles filename).writePage f (mgr.bufDescTable i).pageNo (mgr.bufPool i) mgr.files =
        .ok () (Function.update mgr.files (filename f) file) := (h.sameWrites i f _ hholds).symm.trans hwritten
    refine ⟨hrun.trans ((writeFrame_dirty hholds hdirty.2).trans (onFiles_ok hguarded)).symm, _, hrun,
      h.agree.withFiles _, ⟨?_, h.backed.number, fun j g q hj => ?_⟩, ?_⟩
    · exact (Function.forall_update_iff _ _).mpr ⟨hfile.toInOrder, fun n _ => (h.neat n).toInOrder⟩
    · have hj' : mgr.Holds j g q := hj
      have hdirtied : Written (pageFiles filename) mgr i f (mgr.bufDescTable i).pageNo
          (Function.update mgr.files (filename f) file) := by
        rw [Written, if_pos hdirty.2]
        exact hwritten
      exact fun hnone => h.backed.live j g q hj' (((h.backed.written hholds hdirtied).2.live _ _).mp hnone)
    · exact (Function.forall_update_iff _ _).mpr ⟨hfile, fun n _ => h.neat n⟩
  · refine ⟨(writeFrame_clean hdirty).trans (writeFrame_clean hdirty).symm, mgr.files, writeFrame_clean hdirty, ?_⟩
    exact h

/-- The loop of `~BufMgr`; by induction on the frames to come. -/
private theorem Stocked.writeFrames (h : Stocked hash filename mgr) (l : List FrameId) (hl : ∀ i ∈ l, i < mgr.numBufs) :
    P3.writeFrames (pageFiles filename) l mgr = P3.writeFrames (guardedFiles filename) l mgr ∧
      ∃ files, P3.writeFrames (pageFiles filename) l mgr = .ok () (mgr.withFiles files) ∧ ∀ n, (files n).Neat := by
  induction l generalizing mgr with
  | nil => exact ⟨rfl, mgr.files, rfl, h.neat⟩
  | cons i l ih =>
    obtain ⟨hsame, files, hrun, hstocked⟩ := h.writeFrame (hl i List.mem_cons_self)
    obtain ⟨hrest, files', hrun', hneat⟩ := ih hstocked fun j hj => hl j (List.mem_cons_of_mem _ hj)
    refine ⟨?_, files', (run_bind_ok hrun).trans hrun', hneat⟩
    rw [P3.writeFrames, P3.writeFrames, run_bind_ok hrun, run_bind_ok (hsame.symm.trans hrun)]
    exact hrest

end PageFiles

section Runs

variable {mgr : BufMgr F Page (N → PageFile)} {edits : Edits N Page} {bufs : Nat} {page : Page} {files : N → PageFile}

/-- In every state of a run of proper calls over neat files `~BufMgr` returns; the files are neat then, and they have each
page whose changes were marked, after all changes. -/
theorem Run.destroyed (hfiles : ∀ n, (files n).Neat)
    (hrun : Run (pageFiles filename) hash filename Page.bare bufs page files (pagesOf files)
      (fun mgr edits call => call.Proper filename mgr edits) mgr edits) :
    ∃ mgr', destroyBufMgr (pageFiles filename) mgr = .ok () mgr' ∧ (∀ n, (mgr'.files n).Neat) ∧
      ∀ n p, Marked filename mgr edits n p → pagesOf mgr'.files (n, p) = edits.contents (n, p) := by
  rcases hrun.stocked hfiles with ⟨h, hkept⟩ | ⟨hzero, -, hneat, hpages⟩
  · obtain ⟨hsame, files', hreturns, hneat⟩ := h.writeFrames (List.range mgr.numBufs) fun i hi => List.mem_range.mp hi
    obtain ⟨files'', hguarded, hright⟩ := hkept.destroyed (guardedFiles_faithful filename) h.agree
    have hreturns' : destroyBufMgr (guardedFiles filename) mgr = .ok () (mgr.withFiles files') :=
      (run_bind_ok (run_get mgr)).trans (hsame.symm.trans hreturns)
    obtain rfl : files' = files'' :=
      congrArg BufMgr.files (EStateM.Result.ok.inj (hreturns'.symm.trans hguarded)).2
    refine ⟨_, (run_bind_ok (run_get mgr)).trans hreturns, hneat, fun n p hmarked => ?_⟩
    exact (neatPages_eq (hneat n) p).symm.trans (hright n p hmarked)
  · refine ⟨mgr, ?_, hneat, fun n p _ => congrFun hpages (n, p)⟩
    rw [destroyBufMgr, run_bind_ok (run_get mgr), hzero]
    rfl

end Runs

/-! ### One manager after the other -/

/-- The files that managers leave, one after the other, with the contents of their pages after all changes: each manager
ends with `~BufMgr` when all changes are marked. -/
inductive Lifetimes (F : Type) {N : Type} [DecidableEq F] [DecidableEq N] :
    (N → PageFile) → (N × PageId → Option Page) → Prop where
  | create : Lifetimes F (fun _ => .create) fun _ => none
  | next {hash : F → PageId → Nat} {filename : F → N} {bufs : Nat} {page : Page} {files : N → PageFile}
      {contents : N × PageId → Option Page} {mgr mgr' : BufMgr F Page (N → PageFile)} {edits : Edits N Page}
      (before : Lifetimes F files contents)
      (run : Run (pageFiles filename) hash filename Page.bare bufs page files contents
        (fun mgr edits call => call.Proper filename mgr edits) mgr edits)
      (marked : ∀ n p, Marked filename mgr edits n p) (ends : destroyBufMgr (pageFiles filename) mgr = .ok () mgr') :
      Lifetimes F mgr'.files edits.contents

/-- The files have all changes. -/
theorem Lifetimes.pagesOf_eq {files : N → PageFile} {contents : N × PageId → Option Page}
    (h : Lifetimes F files contents) : (∀ n, (files n).Neat) ∧ pagesOf files = contents := by
  induction h with
  | create => exact ⟨fun _ => neat_create, rfl⟩
  | next before run marked ends ih =>
    obtain ⟨hneat, rfl⟩ := ih
    obtain ⟨mgr', hreturns, hneat', hpages⟩ := run.destroyed hneat
    obtain ⟨-, rfl⟩ := EStateM.Result.ok.inj (hreturns.symm.trans ends)
    exact ⟨hneat', funext fun key => hpages key.1 key.2 (marked key.1 key.2)⟩

section Runs

variable {mgr : BufMgr F Page (N → PageFile)} {edits : Edits N Page} {bufs : Nat} {page : Page} {files : N → PageFile}
  {contents : N × PageId → Option Page}

/-- After any number of managers, and at any moment of the next one: the pages in the pool have all changes, `~BufMgr`
returns, the files are in order then, and a page whose changes were marked has all of them there. -/
theorem destroyBufMgr_keeps (hbefore : Lifetimes F files contents)
    (hrun : Run (pageFiles filename) hash filename Page.bare bufs page files contents
      (fun mgr edits call => call.Proper filename mgr edits) mgr edits) :
    (∀ i f p, mgr.Holds i f p → edits.contents (filename f, p) = some (mgr.bufPool i).bare) ∧
      ∃ mgr', destroyBufMgr (pageFiles filename) mgr = .ok () mgr' ∧ (∀ n, (mgr'.files n).InOrder) ∧
        ∀ n p, Marked filename mgr edits n p → pagesOf mgr'.files (n, p) = edits.contents (n, p) := by
  obtain ⟨hneat, rfl⟩ := hbefore.pagesOf_eq
  constructor
  · intro i f p hi
    rcases hrun.stocked hneat with ⟨-, hkept⟩ | ⟨hzero, -⟩
    · exact (hkept (filename f) p).current i f hi rfl
    · exact absurd hi.1 (hzero ▸ Nat.not_lt_zero i)
  · obtain ⟨mgr', hreturns, hneat', hpages⟩ := hrun.destroyed hneat
    exact ⟨mgr', hreturns, fun n => (hneat' n).toInOrder, hpages⟩

end Runs

/-- A pool of one frame over one new page file, after the calls. -/
def oneFrame (calls : List (Call Unit Page)) : BufMgr Unit Page (Unit → PageFile) × Edits Unit Page :=
  runCalls (pageFiles id) (P3.hash fun _ => 0) id Page.bare 1 .fresh (fun _ => .create) (fun _ => none) calls

/-- A page with a number and a byte that is not zero. -/
def filledPage : Page := (Page.fresh.set_page_number 1).setByte 8174 97

/-- A page is allocated, changed and given back; `~BufMgr` writes it. -/
theorem destroyBufMgr_keeps_one : ∃ mgr',
    destroyBufMgr (pageFiles id) (oneFrame [.allocPage (), .edit () 1 0 filledPage, .unPinPage () 1 true]).1 = .ok () mgr' ∧
      pagesOf mgr'.files ((), 1) = some filledPage.bare := by
  have h₀ : Run (pageFiles id) (P3.hash fun _ => 0) id Page.bare 1 .fresh (fun _ => .create) (fun _ => none)
      (fun mgr edits call => call.Proper id mgr edits) (oneFrame []).1 (oneFrame []).2 := .start
  have h₁ := run_append h₀ (.allocPage ())
    ⟨⟨fun _ => Nat.zero_le 1, fun _ => (by decide : 1 + 1 < 2 ^ 32)⟩, trivial, trivial⟩
  have h₂ := run_append h₁ (.edit () 1 0 filledPage)
    ⟨⟨⟨by decide +kernel, by decide +kernel, by decide +kernel, by decide +kernel⟩, by decide +kernel⟩,
      ⟨⟨by decide +kernel, by decide +kernel, by decide +kernel, by decide +kernel⟩, by decide +kernel⟩, trivial⟩
  have h₃ := run_append h₂ (.unPinPage () 1 true)
    ⟨trivial, fun hfalse => absurd hfalse.symm Bool.false_ne_true, trivial⟩
  obtain ⟨-, mgr', hreturns, -, hpages⟩ := destroyBufMgr_keeps .create h₃
  refine ⟨mgr', hreturns, (hpages () 1 fun i f hi _ => ?_).trans rfl⟩
  have hsaved : (oneFrame [.allocPage (), .edit () 1 0 filledPage, .unPinPage () 1 true]).2.unsaved ((), 1) = false := by
    decide +kernel
  exact hsaved

end Cs564.P3
