import Cs564.BTree.Sessions

/-!
# Closing and opening again

Whatever its searches do, an index has the pages of a tree as long as the stream of its file works (`Session.follows`).
The destructor puts all pages into the file, and so the index that is opened on it is the one that was closed
(`Session.reopen_same`).  Its calls go on as those of the index before, where the searches are clear.
-/

namespace Cs564.BTree

open P2 (BufMgr)
open P3 (FileLayer BlobFile)
open PageStore

variable {F σ : Type} [DecidableEq F] {L : FileLayer F Page σ} {hash : F → PageId → Nat} {on : F → Prop}
  {blob : σ → BlobFile Page} {file : F} {pins : List (PageId × FrameId)} {unsaved : List PageId}
  {w w' : World (BufMgr F Page σ) FrameId} {h : Nat} {t : Branch} {u : World PageStore PageId}

/-! ### Insertions -/

section Insertions

variable (hL : Hosts L on blob) (hfile : on file)
include hL hfile

/-- The stream has failed, and the pool holds pins of the index. -/
private def Broken (L : FileLayer F Page σ) (hash : F → PageId → Nat) (on : F → Prop) (blob : σ → BlobFile Page) (file : F)
    (mgr : BufMgr F Page σ) : Prop :=
  (blob mgr.files).failed = true ∧ ∃ pins, Steady L hash on blob file pins [] mgr

omit [DecidableEq F] hL hfile in
/-- A call of the manager keeps `I` if it does when it returns. -/
private theorem onPool_keeps {α : Type} {I : BufMgr F Page σ → Prop} {call : P2.BufM F Page σ α}
    (h : ∀ mgr a m, I mgr → call mgr = .ok a m → I m) : Keeps I (onPool call) := by
  intro mgr hmgr
  cases hrun : onPool call mgr with
  | ok a m => exact h mgr a m hmgr (onPool_ok hrun)
  | error e m =>
    obtain ⟨e', -, rfl⟩ := onPool_error hrun
    exact fun hdoc => absurd hdoc (Exc.ofBufError_undocumented e')

omit hL hfile in
/-- A page that `unPinPage` gives back was pinned. -/
private theorem Steady.unPinPage_ok {mgr m : BufMgr F Page σ} (hs : Steady L hash on blob file pins [] mgr) {p : PageId}
    {dirty : Bool} (run : P3.unPinPage hash file p dirty mgr = .ok () m) :
    ∃ pins', Steady L hash on blob file pins' [] m := by
  have hspec := P3.unPinPage_spec hs.agree file p dirty
  rw [run] at hspec
  cases hspec with
  | @unpinned i holds pos =>
    obtain ⟨x, hx, rfl⟩ := List.mem_map.mp (hs.mem_of_pos holds pos)
    obtain rfl := hs.agree.unique holds (hs.pinned x hx)
    refine ⟨pins.erase x, ?_⟩
    have hperm : (x :: pins.erase x).Perm pins := (List.perm_cons_erase hx).symm
    exact (hs.perm hperm).unpinned (fun q hq => absurd hq List.not_mem_nil) fun q hq => absurd hq List.not_mem_nil

private theorem Steady.readPage_failed {mgr m : BufMgr F Page σ} (hs : Steady L hash on blob file pins unsaved mgr)
    (hfailed : (blob mgr.files).failed = true) {p : PageId} {i : FrameId} (run : P3.readPage L hash file p mgr = .ok i m) :
    (blob m.files).failed = true := by
  have hsame := hs.readPage_same hL hfile p
  rw [run] at hsame
  by_contra hlive
  have hlive' := Bool.eq_false_iff.mpr hlive
  rw [(hsame (.inl hlive')).failed, hfailed] at hlive'
  cases hlive'

private theorem broken_readPage (p : PageId) : Keeps (Broken L hash on blob file) ((poolLayer L hash file).readPage p) := by
  refine onPool_keeps fun mgr i m hmgr run => ?_
  obtain ⟨hfailed, pins, hs⟩ := hmgr
  have hread := hs.readPage hL hfile p
  rw [run] at hread
  exact ⟨hs.readPage_failed hL hfile hfailed run, _, hread⟩

omit hL hfile in
private theorem Steady.unPinPage_failed {mgr m : BufMgr F Page σ} (hs : Steady L hash on blob file pins unsaved mgr)
    (hfailed : (blob mgr.files).failed = true) {p : PageId} {dirty : Bool}
    (run : P3.unPinPage hash file p dirty mgr = .ok () m) : (blob m.files).failed = true := by
  have hsame : SameFile hash blob file mgr (stateAfter (P3.unPinPage hash file p dirty mgr)) :=
    unPinPage_same hs.agree p dirty
  rw [run] at hsame
  exact hsame.failed.trans hfailed

omit hL hfile in
private theorem broken_unPinPage (p : PageId) (dirty : Bool) :
    Keeps (Broken L hash on blob file) ((poolLayer L hash file).unPinPage p dirty) := by
  refine onPool_keeps fun mgr u m hmgr run => ?_
  obtain ⟨hfailed, pins, hs⟩ := hmgr
  exact ⟨hs.unPinPage_failed hfailed run, hs.unPinPage_ok run⟩

omit [DecidableEq F] hL hfile in
/-- A call of the manager that leaves the stream failed, beside what it does to the pins. -/
private theorem broken_call {α : Type} {call : P2.BufM F Page σ α} {pre : BufMgr F Page σ → Prop}
    {post : α → BufMgr F Page σ → Prop} {exc : Exc → BufMgr F Page σ → Prop} (h : Triple pre (onPool call) post exc)
    (hfailed : ∀ mgr a m, (blob mgr.files).failed = true → pre mgr → call mgr = .ok a m → (blob m.files).failed = true) :
    Triple (fun mgr => (blob mgr.files).failed = true ∧ pre mgr) (onPool call)
      (fun a m => (blob m.files).failed = true ∧ post a m) exc := by
  rintro mgr ⟨hbroken, hpre⟩
  have hcall := h mgr hpre
  cases hrun : onPool call mgr with
  | ok a m =>
    rw [hrun] at hcall
    exact ⟨hfailed mgr a m hbroken hpre (onPool_ok hrun), hcall⟩
  | error e m =>
    rw [hrun] at hcall
    exact hcall

/-- The pins of an index whose stream has failed. -/
private theorem broken_books : Books (poolLayer L hash file)
    (fun pins unsaved mgr => (blob mgr.files).failed = true ∧ Steady L hash on blob file pins unsaved mgr) (fun _ => True)
    (Halts L hash on blob file) where
  readPage p _ := broken_call (readPage_pins hL hfile p) fun mgr i m hfailed hs run =>
    hs.readPage_failed hL hfile hfailed run
  allocPage _ := by
    refine broken_call (allocPage_pins hL hfile) fun mgr new m hfailed hs hrun => ?_
    -- a stream that has failed gives no new page
    have hspec := P3.allocPage_spec hs.agree hs.writable file
    rw [hrun] at hspec
    cases hspec with
    | @allocated _ m' new files table freed run loads =>
      have hcall : (blob m'.files).allocatePage .fresh = .error .indeterminate :=
        if_pos ((SameFile.freed hL hfile hs freed).failed.trans hfailed)
      obtain ⟨files', hthrow, -⟩ := hL.allocateThrows hfile hcall
      rw [run] at hthrow
      cases hthrow
  unPinPage dirty unsaved' hsub hpinned := by
    intro exc
    refine broken_call (unPinPage_pins dirty unsaved' hsub hpinned) fun mgr u m hfailed hs run => ?_
    exact hs.unPinPage_failed hfailed run
  assign hmem page := fun mgr h => ⟨h.1, h.2.assigned hfile hmem page⟩
  perm h hp := ⟨h.1, h.2.perm hp⟩
  unsaved h := h.2.unsaved
  pop h := h.pop
  outOfFuel := ⟨.inr (.inr (.inr rfl)), fun he => by cases he⟩

variable {w : World (BufMgr F Page σ) FrameId}

/-- `insertEntry` throws no exception that is documented. -/
private theorem insertEntryWithin_undocumented (hsound : Sound L hash on blob file w) {depth : IndexMetaInfo → Nat} {key : Int}
    {rid : RecordId} {e : Exc} {w' : World (BufMgr F Page σ) FrameId}
    (run : insertEntryWithin (poolLayer L hash file) depth key rid w = .error e w') : ¬ e.Documented := by
  have hinsert := insertEntryWithin_pins hL hfile depth key rid hsound
  rw [run] at hinsert
  cases hinsert with
  | atHeader hread => exact Halts.not_documented (Triple.error_run (readPage_pins hL hfile _) hsound hread)
  | later _ halts => exact halts.not_documented

/-- An insertion does not bring a stream back that has failed. -/
private theorem insertEntryWithin_failed (hsound : Sound L hash on blob file w) (hfailed : (blob w.pages.files).failed = true)
    {depth : IndexMetaInfo → Nat} {key : Int} {rid : RecordId} {w' : World (BufMgr F Page σ) FrameId}
    (run : insertEntryWithin (poolLayer L hash file) depth key rid w = .ok () w') :
    (blob w'.pages.files).failed = true := by
  have hbooks : Books (poolLayer L hash file) _ _ _ := broken_books hL hfile
  cases hread : (poolLayer L hash file).readPage w.index.headerPageNum w.pages with
  | error e m =>
    rw [insertEntryWithin, run_bind_ok (run_get w)] at run
    dsimp only at run
    rw [run_bind_error (onPages_error hread)] at run
    cases run
  | ok i m =>
    have hheader := Triple.ok_run (hbooks.readPage w.index.headerPageNum trivial) ⟨hfailed, hsound⟩ hread
    have hinsert := hbooks.insertEntryWithin depth key rid hread hheader (Steady.unsaved hsound) fun _ _ => trivial
    rw [run] at hinsert
    exact hinsert.2.1

end Insertions

/-! ### Scans -/

section Scans

/-- The pool has the pages of `s`, if the stream works. -/
private def Holding (L : FileLayer F Page σ) (hash : F → PageId → Nat) (on : F → Prop) (blob : σ → BlobFile Page) (file : F)
    (first : PageId) (s : PageStore) (mgr : BufMgr F Page σ) : Prop :=
  (∃ pins, Steady L hash on blob file pins [] mgr) ∧
    ((blob mgr.files).failed = false → Mirrors hash blob file first s mgr)

variable {first : PageId} {s : PageStore}

private theorem holding_unPinPage (p : PageId) (dirty : Bool) :
    Keeps (Holding L hash on blob file first s) ((poolLayer L hash file).unPinPage p dirty) := by
  refine onPool_keeps fun mgr u m hmgr run => ?_
  obtain ⟨⟨pins, hs⟩, hmirrors⟩ := hmgr
  have hsame : SameFile hash blob file mgr (stateAfter (P3.unPinPage hash file p dirty mgr)) :=
    unPinPage_same hs.agree p dirty
  rw [run] at hsame
  exact ⟨hs.unPinPage_ok run, fun hlive => (hmirrors (hsame.failed.symm.trans hlive)).same hsame⟩

variable (hL : Hosts L on blob) (hfile : on file)
include hL hfile

private theorem holding_readPage (p : PageId) :
    Keeps (Holding L hash on blob file first s) ((poolLayer L hash file).readPage p) := by
  refine onPool_keeps fun mgr i m hmgr run => ?_
  obtain ⟨⟨pins, hs⟩, hmirrors⟩ := hmgr
  have hread := hs.readPage hL hfile p
  have hsame := hs.readPage_same hL hfile p
  rw [run] at hread hsame
  refine ⟨⟨_, hread⟩, fun hlive => ?_⟩
  have hsame' := hsame (.inl hlive)
  exact (hmirrors (hsame'.failed.symm.trans hlive)).same hsame'

end Scans

/-! ### All calls -/

section Calls

/-- The call returned, or threw an exception that is documented. -/
def Settles {ε τ α : Type} (documented : ε → Prop) (r : EStateM.Result ε τ α) (s : τ) : Prop :=
  (∃ a, r = .ok a s) ∨ ∃ e, r = .error e s ∧ documented e

omit [DecidableEq F] in
private theorem Keeps.settles {τ α : Type} {I : τ → Prop} {x : EStateM Exc τ α} (h : Keeps I x) {s s' : τ} (hs : I s)
    (run : Settles Exc.Documented (x s) s') : I s' := by
  rcases run with ⟨a, run⟩ | ⟨e, run, hdoc⟩
  · exact Triple.ok_run h hs run
  · exact Triple.error_run h hs run hdoc

variable {call : Call} {depth : IndexMetaInfo → Nat} {fuel : Nat}

omit [DecidableEq F] in
/-- The methods of the scan keep what reading pages and giving them back keeps. -/
private theorem Call.scan_keeps {τ Ptr : Type} {M : PageLayer τ Ptr} {I : τ → Prop} {header root : PageId}
    (hread : ∀ p, Keeps I (M.readPage p)) (hunpin : ∀ p, Keeps I (M.unPinPage p false)) :
    (∃ key rid, call = .insertEntry key rid) ∨ Keeps (Over (AtFile header root) I) (call.run M depth fuel) := by
  cases call with
  | insertEntry key rid => exact .inl ⟨key, rid, rfl⟩
  | startScan low lowOp high highOp =>
    exact .inr ((startScan_keeps hread hunpin fuel low lowOp high highOp).bind fun _ => .pure _)
  | scanNext => exact .inr ((scanNext_keeps hread hunpin).bind fun _ => .pure _)
  | endScan => exact .inr ((endScan_keeps hunpin).bind fun _ => .pure _)

variable (hL : Hosts L on blob) (hfile : on file)
include hL hfile

private theorem Call.settles_sound (hsound : Sound L hash on blob file w)
    (run : Settles Exc.Documented (call.run (poolLayer L hash file) depth fuel w) w') : Sound L hash on blob file w' := by
  rcases run with ⟨rid, run⟩ | ⟨e, run, documented⟩
  · exact (Call.pins hL hfile call depth fuel).ok_run hsound run
  · rcases (Call.pins hL hfile call depth fuel).error_run hsound run with hhalts | ⟨-, hsound'⟩
    · exact absurd documented hhalts.not_documented
    · exact hsound'

/-- An insertion that ends as documented returned. -/
private theorem insertEntry_settles (hsound : Sound L hash on blob file w) {key : Int} {rid : RecordId}
    (run : Settles Exc.Documented ((Call.insertEntry key rid).run (poolLayer L hash file) depth fuel w) w') :
    insertEntryWithin (poolLayer L hash file) depth key rid w = .ok () w' := by
  cases hcall : insertEntryWithin (poolLayer L hash file) depth key rid w with
  | ok _ w₁ =>
    have hrun : (Call.insertEntry key rid).run (poolLayer L hash file) depth fuel w = .ok none w₁ := run_bind_ok hcall
    rw [hrun] at run
    rcases run with ⟨rid', run⟩ | ⟨e, run, -⟩
    · obtain ⟨-, rfl⟩ := EStateM.Result.ok.inj run
      rfl
    · cases run
  | error e w₁ =>
    have hrun : (Call.insertEntry key rid).run (poolLayer L hash file) depth fuel w = .error e w₁ := run_bind_error hcall
    rw [hrun] at run
    rcases run with ⟨rid', run⟩ | ⟨e', run, documented⟩
    · cases run
    · obtain ⟨rfl, -⟩ := EStateM.Result.error.inj run
      exact absurd documented (insertEntryWithin_undocumented hL hfile hsound hcall)

/-- A stream that works after a call has worked before. -/
private theorem Call.settles_live (hsound : Sound L hash on blob file w)
    (run : Settles Exc.Documented (call.run (poolLayer L hash file) depth fuel w) w')
    (hlive : (blob w'.pages.files).failed = false) : (blob w.pages.files).failed = false := by
  by_contra hfailed
  have hbroken : Broken L hash on blob file w.pages := ⟨Bool.eq_true_of_not_eq_false hfailed, _, hsound⟩
  have hscan : (∃ key rid, call = .insertEntry key rid) ∨
      Keeps (Over (AtFile w.index.headerPageNum w.index.rootPageNum) (Broken L hash on blob file))
        (call.run (poolLayer L hash file) depth fuel) :=
    Call.scan_keeps (broken_readPage hL hfile) fun p => broken_unPinPage p false
  have hafter : (blob w'.pages.files).failed = true := by
    rcases hscan with ⟨key, rid, rfl⟩ | hkeeps
    · exact insertEntryWithin_failed hL hfile hsound hbroken.1 (insertEntry_settles hL hfile hsound run)
    · exact (hkeeps.settles ⟨hbroken, rfl, rfl⟩ run).1.1
  exact absurd (hafter.symm.trans hlive) Bool.noConfusion

/-- A call leads from one tree to another. -/
private theorem Call.settles_follows (hsound : Sound L hash on blob file w) (hf : Follows hash blob file h t u w)
    (hvalid : call.Valid) (run : Settles Exc.Documented (call.run (poolLayer L hash file) depth fuel w) w')
    (hlive : (blob w'.pages.files).failed = false) : ∃ u' h' t', Follows hash blob file h' t' u' w' := by
  have hscan : (∃ key rid, call = .insertEntry key rid) ∨
      Keeps (Over (AtFile w.index.headerPageNum w.index.rootPageNum)
          (Holding L hash on blob file u.index.headerPageNum u.pages))
        (call.run (poolLayer L hash file) depth fuel) :=
    Call.scan_keeps (holding_readPage hL hfile) fun p => holding_unPinPage p false
  rcases hscan with ⟨key, rid, rfl⟩ | hkeeps
  · have hinsert := hf.insertEntry hL hfile hsound depth key hvalid.2
    rw [insertEntry_settles hL hfile hsound run] at hinsert
    obtain ⟨_, u', -, hfollows, -⟩ := hinsert.returned
    exact ⟨u', hfollows⟩
  · obtain ⟨⟨-, hmirrors⟩, hat⟩ := hkeeps.settles ⟨⟨⟨_, hsound⟩, fun _ => hf.mirrors⟩, rfl, rfl⟩ run
    exact ⟨u, h, t, hf.tree, hf.links, hf.first, hat.1.trans hf.header, hat.2.trans hf.root, hmirrors hlive⟩

/-- The index has its pins, and the pages of a tree if the stream works. -/
private def Kept (L : FileLayer F Page σ) (hash : F → PageId → Nat) (on : F → Prop) (blob : σ → BlobFile Page) (file : F)
    (w : World (BufMgr F Page σ) FrameId) : Prop :=
  Sound L hash on blob file w ∧ ((blob w.pages.files).failed = false → ∃ u h t, Follows hash blob file h t u w)

private theorem Kept.settles (hkept : Kept L hash on blob file w) (hvalid : call.Valid)
    (run : Settles Exc.Documented (call.run (poolLayer L hash file) depth fuel w) w') : Kept L hash on blob file w' := by
  refine ⟨Call.settles_sound hL hfile hkept.1 run, fun hlive => ?_⟩
  obtain ⟨u, h, t, hf⟩ := hkept.2 (Call.settles_live hL hfile hkept.1 run hlive)
  exact Call.settles_follows hL hfile hkept.1 hf hvalid run hlive

/-- By induction on the calls. -/
private theorem Uses.kept {log : Log} (uses : Uses L hash on file (fun _ _ call => call.Valid) w log w')
    (hkept : Kept L hash on blob file w) : Kept L hash on blob file w' := by
  induction uses with
  | start => exact hkept
  | returned before ok run ih => exact Kept.settles hL hfile ih ok (.inl ⟨_, run⟩)
  | threw before ok run documented ih => exact Kept.settles hL hfile ih ok (.inr ⟨_, run, documented⟩)
  | other before step ih =>
    obtain ⟨hsound, hsame⟩ := Steady.other hL hfile ih.1 step
    refine ⟨hsound, fun hlive => ?_⟩
    obtain ⟨u, h, t, hf⟩ := ih.2 (hsame.failed.symm.trans hlive)
    exact ⟨u, h, t, { hf with mirrors := hf.mirrors.same hsame }⟩

end Calls

/-! ### Sessions -/

section Sessions

variable (hL : Hosts L on blob)
include hL

/-- By induction on the session. -/
private theorem Session.kept {log : Log} (session : Session L hash on blob (fun _ _ _ call => call.Valid) file log w) :
    on file ∧ Kept L hash on blob file w := by
  induction session with
  | constructed hosted idle hcreated valid run =>
    obtain ⟨u, h, t, -, htogether⟩ := run.together hL hosted idle hcreated valid uninitialized
    exact ⟨hosted, htogether.sound, fun _ => ⟨u, h, t, htogether.follows⟩⟩
  | used before uses ih => exact ⟨ih.1, uses.kept hL ih.1 ih.2⟩
  | @reopened file log w closed before closes file' hosted start w' idle kept offset type run ih =>
    obtain ⟨hfile, hsound, hlive⟩ := ih
    obtain ⟨hexec, hsteady⟩ := (Opens.reopened idle run).steady hL hosted
    refine ⟨hosted, hsteady.sound_idle hexec, fun _ => ?_⟩
    -- a stream that has failed cannot be opened
    have hstart : (blob start.pages.files).failed = false := by
      obtain ⟨_, w₁, hset, hrest⟩ := bind_ok_cases run
      obtain ⟨-, rfl⟩ := EStateM.Result.ok.inj hset
      obtain ⟨p, w₂, hfirst, -⟩ := bind_ok_cases hrest
      by_contra hfailed
      have hthrows : getFirstPageNo blob start.pages = .error .indeterminate start.pages := by
        rw [getFirstPageNo, BlobFile.getFirstPageNo, if_pos (Bool.eq_true_of_not_eq_false hfailed)]
      rw [onPages] at hfirst
      dsimp only at hfirst
      rw [hthrows] at hfirst
      cases hfirst
    obtain ⟨m, -, hsame, -, ⟨-, herror⟩ | ⟨-, -, hok⟩⟩ := destroy_cases hL hfile hsound
    · rw [herror] at closes
      cases closes
    · rw [hok] at closes
      obtain ⟨-, rfl⟩ := EStateM.Result.ok.inj closes
      rw [kept] at hstart
      obtain ⟨u, h, t, hf⟩ := hlive (hsame.failed.symm.trans hstart)
      have hopen := hf.reopened hL hfile hsound hok hosted idle kept u.index offset type
      rw [run] at hopen
      obtain ⟨_, u', -, htogether, -⟩ := hopen.returned
      exact ⟨u', h, t, htogether.follows⟩

end Sessions

/-- The index `w'` on the object `file'` has the pages of the index `w` on `file`, and its calls end as those of `w`. -/
structure Continues (L : FileLayer F Page σ) (hash : F → PageId → Nat) (on : F → Prop) (blob : σ → BlobFile Page)
    (file : F) (w : World (BufMgr F Page σ) FrameId) (file' : F) (w' : World (BufMgr F Page σ) FrameId) : Prop where
  header : w'.index.headerPageNum = w.index.headerPageNum
  root : w'.index.rootPageNum = w.index.rootPageNum
  pages : ∀ p, seen hash blob file' w'.pages p = seen hash blob file w.pages p
  calls : ∀ {log log' : Log} {v v' : World (BufMgr F Page σ) FrameId},
    Uses L hash on file (Call.Meets L hash blob file) w log v →
    Uses L hash on file' (Call.Meets L hash blob file') w' log' v' → log'.map Prod.fst = log.map Prod.fst → log' = log ∧
      ∀ p, seen hash blob file' v'.pages p = seen hash blob file v.pages p

section Reopening

variable (hL : Hosts L on blob)
include hL

/-- After any session that ended its scan, the index that is closed and opened again is the index as it was, as long as the
stream of its file works. -/
theorem Session.reopen_same {log : Log} (session : Session L hash on blob (fun _ _ _ call => call.Valid) file log w)
    (hended : w.index.scanExecuting = false) (hlive : (blob w.pages.files).failed = false) :
    ∃ closed, destroy (poolLayer L hash file) w = .ok () closed ∧ Idle L hash on closed.pages ∧
      ∀ {file' : F}, on file' → ∀ {start : World (BufMgr F Page σ) FrameId}, Idle L hash on start.pages →
        blob start.pages.files = blob closed.pages.files → ∀ (attrByteOffset : Int) (attrType : Datatype),
        Ends (fun _ w' => Continues L hash on blob file w file' w') (fun e _ => e = .bufferExceeded)
          (reopen (poolLayer L hash file') (getFirstPageNo blob) attrByteOffset attrType start) := by
  obtain ⟨hfile, hsound, hkept⟩ := session.kept hL
  obtain ⟨u, h, t, hf⟩ := hkept hlive
  obtain ⟨m, hm, hsame, -, ⟨hexec, -⟩ | ⟨-, hclear, hok⟩⟩ := destroy_cases hL hfile hsound
  · exact absurd hended (ne_false_of_eq_true hexec)
  · refine ⟨_, hok, ⟨Steady.agree hm, Steady.storable hm, fun i g p hi hg => ?_⟩, ?_⟩
    · have heq := Steady.alone hm i g p hi hg
      rw [heq] at hi
      exact hclear i p hi
    · intro file' hfile' start idle kept attrByteOffset attrType
      have hopen := hf.reopened hL hfile hsound hok hfile' idle kept u.index attrByteOffset attrType
      have hplain : ∃ u', reopen layer PageStore.getFirstPageNo attrByteOffset attrType ⟨u.index, u.pages⟩ = .ok () u' :=
        ⟨_, rfl⟩
      cases hrun : reopen (poolLayer L hash file') (getFirstPageNo blob) attrByteOffset attrType start with
      | error e w' =>
        rw [hrun] at hopen
        rcases hopen with hexceeded | ⟨u', hthrew, -⟩
        · exact hexceeded
        · obtain ⟨u'', hreturned⟩ := hplain
          rw [hthrew] at hreturned
          cases hreturned
      | ok _ w' =>
        rw [hrun] at hopen
        obtain ⟨_, u', -, htogether', hat, hexec', hpages⟩ := hopen.returned
        have hf' := htogether'.follows
        -- the index that was not closed is together with the same plain index
        have htogether : Together L hash on blob file h t u' w := by
          refine Follows.together ⟨hf'.tree, hf'.links, hf'.first, hf.header.trans hat.1.symm, hf.root.trans hat.2.symm, ?_⟩
            hsound hended hexec'
          rw [hat.1, hpages]
          exact hf.mirrors
        refine ⟨?_, ?_, fun p => ?_, fun uses uses' hsteps => ?_⟩
        · exact hf'.header.trans (hat.1.trans hf.header.symm)
        · exact hf'.root.trans (hat.2.trans hf.root.symm)
        · rw [hf'.mirrors.seen p, hpages, hf.mirrors.seen p]
        · obtain ⟨v, _, _, hplain, hv⟩ := uses.together hL hfile htogether
          obtain ⟨v', _, _, hplain', hv'⟩ := uses'.together hL hfile' htogether'
          obtain ⟨rfl, rfl⟩ := hplain.unique hplain' hsteps
          exact ⟨rfl, fun p => (hv'.follows.mirrors.seen p).trans (hv.follows.mirrors.seen p).symm⟩

end Reopening

/-- An index of one pair is closed and opened again in the same pool. -/
theorem reopen_same_one : ∃ w closed, destroy twoFilesPool w = .ok () closed ∧
    Ends (fun _ w' => Continues twoFiles (P3.hash Bool.toNat) (fun f => id f = true)
      (fun files => files true) true w true w')
      (fun e _ => e = .bufferExceeded) (reopen twoFilesPool (getFirstPageNo fun files => files true) 0 .INTEGER closed) := by
  have hreturned : returned (fun _ w => !w.index.scanExecuting && !(w.pages.files true).failed)
      (construct twoFilesPool (fun _ => 0) 0 0 .INTEGER [(5, ⟨7, 1, 0⟩)] (newWorld 3)) = true := by decide +kernel
  obtain ⟨_, w, hconstruct, hends⟩ := exists_ok hreturned
  obtain ⟨hended, hlive⟩ := Bool.and_eq_true_iff.mp hends
  have hsession : Session twoFiles (P3.hash Bool.toNat) (fun f => id f = true) (fun files => files true)
      (fun _ _ _ call => call.Valid) true [(.construct (fun _ => 0) 0 0 .INTEGER [(5, ⟨7, 1, 0⟩)], .ok none)] w := by
    refine .constructed ?_ (newWorld_idle (by decide : 0 < 3)) ?_ (by decide) (.of_run hconstruct) <;> rfl
  obtain ⟨closed, hcloses, hidle, hreopens⟩ := Session.reopen_same (blobFiles_hosts id true) hsession (by simpa using hended)
    (by simpa using hlive)
  refine ⟨w, closed, hcloses, hreopens ?_ hidle ?_ 0 .INTEGER⟩ <;> rfl

end Cs564.BTree
