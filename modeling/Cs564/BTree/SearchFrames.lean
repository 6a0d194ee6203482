import Cs564.BTree.Capacity
import Cs564.P3Buffer.Clock

/-!
# The frames of a search

A search holds one pin at a time, and reads the level of a node in the frame `j` of the node when its child has been
read.  If the child has come into another frame, the level is that of the node, and otherwise it is read from the bytes of
the child (`Calm.scanDescend`).  In a pool of one frame it is always read from the child.  In a pool with clear frames
behind the hand (`Ahead`) it never is, as long as they last.
-/

namespace Cs564.BTree

open P2 (BufMgr BufM onFiles onTable setDesc setPage onFiles_ok)
open P2.BufMgr
open P3 (FileLayer BlobFile)
open PageStore

variable {F σ : Type} [DecidableEq F] {L : FileLayer F Page σ} {hash : F → PageId → Nat} {on : F → Prop}
  {blob : σ → BlobFile Page} {file : F} {bufs k : Nat} {pins : List (PageId × FrameId)} {mgr m : BufMgr F Page σ}
  {p q : PageId}
  {i j : FrameId} {first : PageId} {s : PageStore}

/-! ### The frames behind the hand -/

section Ahead

/-- The next `k` frames behind the hand are clear. -/
def Ahead (k : Nat) (mgr : BufMgr F Page σ) : Prop :=
  k ≤ mgr.numBufs ∧ ∀ d < k, (mgr.bufDescTable (turn mgr.numBufs mgr.clockHand d)).valid = false

/-- In an empty pool all frames are clear. -/
theorem ahead_of_empty (hagree : mgr.Agree hash) (hempty : ∀ i g p, ¬ mgr.Holds i g p) (hk : k ≤ mgr.numBufs) :
    Ahead k mgr := by
  refine ⟨hk, fun d _ => ?_⟩
  have hlt : turn mgr.numBufs mgr.clockHand d < mgr.numBufs := turn_lt hagree.pos d
  by_contra hvalid
  have hvalid' := Bool.eq_true_of_not_eq_false hvalid
  obtain ⟨g, hg⟩ := (hagree.tidy _ hlt).named hvalid'
  exact hempty _ g _ ⟨hlt, hvalid', hg, rfl⟩

omit [DecidableEq F] in
private theorem Ahead.withDesc (h : Ahead k mgr) {desc : P2.BufDesc F} (hvalid : desc.valid = (mgr.bufDescTable i).valid) :
    Ahead k (mgr.withDesc i desc) := by
  refine ⟨h.1, fun d hd => ?_⟩
  by_cases hi : turn mgr.numBufs mgr.clockHand d = i
  · have hdesc : (mgr.withDesc i desc).bufDescTable (turn mgr.numBufs mgr.clockHand d) = desc := by
      rw [hi]
      exact Function.update_self ..
    exact (congrArg P2.BufDesc.valid hdesc).trans (hvalid.trans (hi ▸ h.2 d hd))
  · have hdesc : (mgr.withDesc i desc).bufDescTable (turn mgr.numBufs mgr.clockHand d) =
        mgr.bufDescTable (turn mgr.numBufs mgr.clockHand d) := Function.update_of_ne hi ..
    exact (congrArg P2.BufDesc.valid hdesc).trans (h.2 d hd)

omit [DecidableEq F] in
private theorem onFiles_returns {α : Type} {call : EStateM FileError σ α} {a : α}
    (run : (onFiles call : BufM F Page σ α) mgr = .ok a m) : ∃ files, m = { mgr with files := files } := by
  rw [onFiles] at run
  cases hcall : call mgr.files with
  | ok b files =>
    rw [hcall] at run
    obtain ⟨-, rfl⟩ := EStateM.Result.ok.inj run
    exact ⟨files, rfl⟩
  | error e files =>
    rw [hcall] at run
    cases run

omit [DecidableEq F] in
private theorem onTable_returns {call : P2.BufHashTbl F → Except (P2.BufError F) (P2.BufHashTbl F)} {u : Unit}
    (run : (onTable call : BufM F Page σ Unit) mgr = .ok u m) : ∃ table, m = { mgr with hashTable := table } := by
  rw [onTable] at run
  cases hcall : call mgr.hashTable with
  | ok table =>
    rw [hcall] at run
    obtain ⟨-, rfl⟩ := EStateM.Result.ok.inj run
    exact ⟨table, rfl⟩
  | error e =>
    rw [hcall] at run
    cases run

/-- A page that is read comes into the first of the clear frames, if it is not in the pool. -/
private theorem Ahead.readPage (h : Ahead (k + 1) mgr) (hagree : mgr.Agree hash)
    (run : P3.readPage L hash file p mgr = .ok i m) :
    Ahead k m ∧ (mgr.Holds i file p ∨ (mgr.bufDescTable i).valid = false) := by
  by_cases hcached : ∃ i, mgr.Holds i file p
  · obtain ⟨i', hi⟩ := hcached
    rw [P3.readPage, run_bind_ok (run_get mgr), hagree.lookup_some hi] at run
    obtain ⟨rfl, rfl⟩ := EStateM.Result.ok.inj run
    have hk : Ahead k mgr := ⟨Nat.le_of_succ_le h.1, fun d hd => h.2 d (Nat.lt_succ_of_lt hd)⟩
    exact ⟨hk.withDesc rfl, .inl hi⟩
  · have hfirst := h.2 0 (Nat.succ_pos k)
    have halloc : P3.allocBuf L hash mgr = _ :=
      P3.allocBuf_invalid hagree (Nat.mul_pos Nat.two_pos hagree.pos) (fun j hj => absurd hj (Nat.not_lt_zero j)) hfirst
    rw [P3.readPage, run_bind_ok (run_get mgr), hagree.lookup_none (not_exists.mp hcached)] at run
    dsimp only at run
    rw [run_bind_ok halloc] at run
    obtain ⟨page, m₁, hfiles, hrest⟩ := bind_ok_cases run
    obtain ⟨files, rfl⟩ := onFiles_returns hfiles
    obtain ⟨_, m₂, hpage, hlast⟩ := bind_ok_cases hrest
    obtain ⟨_, m₃, hdesc, hlast⟩ := bind_ok_cases hlast
    obtain ⟨_, m₄, htable, hlast⟩ := bind_ok_cases hlast
    obtain ⟨table, rfl⟩ := onTable_returns htable
    obtain ⟨-, rfl⟩ := EStateM.Result.ok.inj hpage
    obtain ⟨-, rfl⟩ := EStateM.Result.ok.inj hdesc
    obtain ⟨rfl, rfl⟩ := EStateM.Result.ok.inj hlast
    refine ⟨⟨Nat.le_of_succ_le h.1, fun d hd => ?_⟩, .inr hfirst⟩
    -- the hand is at the frame, and the frames behind it are those that were clear
    have hnext : turn mgr.numBufs (turn mgr.numBufs mgr.clockHand 0) d = turn mgr.numBufs mgr.clockHand (d + 1) := by
      unfold turn
      rw [Nat.add_zero, Nat.add_assoc, Nat.mod_add_mod, Nat.add_comm 1 d]
    have hbound : d + 1 < mgr.numBufs := Nat.lt_of_lt_of_le (Nat.succ_lt_succ hd) h.1
    have hne : turn mgr.numBufs mgr.clockHand (d + 1) ≠ turn mgr.numBufs mgr.clockHand 0 :=
      fun heq => Nat.succ_ne_zero d (turn_inj hbound hagree.pos heq)
    have hclear := h.2 (d + 1) (Nat.succ_lt_succ hd)
    rw [← swept_valid (k := 0)] at hclear
    show (Function.update (Function.update (mgr.swept 0).bufDescTable _ _) _ _
      (turn mgr.numBufs (turn mgr.numBufs mgr.clockHand 0) d)).valid = false
    rw [hnext, Function.update_of_ne hne, Function.update_of_ne hne]
    exact hclear

end Ahead

/-! ### Pages that are read and given back -/

/-- The pool has the pages of the plain store `s`, and `k` clear frames behind the hand. -/
structure Calm (L : FileLayer F Page σ) (hash : F → PageId → Nat) (on : F → Prop) (blob : σ → BlobFile Page) (file : F)
    (bufs k : Nat) (first : PageId) (s : PageStore) (pins : List (PageId × FrameId)) (mgr : BufMgr F Page σ) : Prop where
  roomy : Roomy L hash on blob file bufs pins [] mgr
  mirrors : Mirrors hash blob file first s mgr
  ahead : Ahead k mgr

section Pages

theorem Calm.holds (h : Calm L hash on blob file bufs k first s ((p, i) :: pins) mgr) : mgr.Holds i file p :=
  h.roomy.steady.pinned (p, i) List.mem_cons_self

theorem Calm.page (h : Calm L hash on blob file bufs k first s ((p, i) :: pins) mgr) : mgr.bufPool i = s.pages p :=
  (h.mirrors.held h.roomy.steady.agree h.holds).2

/-- In a pool of one frame, every page is in frame 0. -/
theorem Calm.only_frame (h : Calm L hash on blob file 1 k first s ((p, i) :: pins) mgr) : i = 0 :=
  Nat.lt_one_iff.mp (h.roomy.numBufs ▸ h.holds.1)

/-- A page is given back. -/
theorem Calm.unpinned (h : Calm L hash on blob file bufs k first s ((p, i) :: pins) mgr) :
    ∃ m, (poolLayer L hash file).unPinPage p false mgr = .ok () m ∧ Calm L hash on blob file bufs k first s pins m ∧
      m.bufPool = mgr.bufPool ∧ m.Holds i file p := by
  obtain ⟨m, hrun, hroomy, hmirrors, hbytes⟩ := h.roomy.unpinned h.mirrors
  have hspec := P3.unPinPage_spec h.roomy.steady.agree file p false
  rw [onPool_ok hrun] at hspec
  cases hspec with
  | @unpinned j holds =>
    have hiff : (mgr.withDesc j ((mgr.bufDescTable j).unpinned false)).Holds i file p ↔ mgr.Holds i file p :=
      holds_withDesc rfl rfl rfl
    exact ⟨_, hrun, ⟨hroomy, hmirrors, h.ahead.withDesc rfl⟩, hbytes, hiff.mpr h.holds⟩

variable (hL : Hosts L on blob) (hfile : on file)
include hL hfile

/-- A page is read.  It does not come into a frame that has another page, as long as there are clear frames. -/
theorem Calm.read (h : Calm L hash on blob file bufs k first s pins mgr) (hfits : pins.length < bufs) (hp : s.Has p) :
    ∃ i m, (poolLayer L hash file).readPage p mgr = .ok i m ∧
      Calm L hash on blob file bufs (k - 1) first s ((p, i) :: pins) m ∧
      (∀ j, j ≠ i → m.bufPool j = mgr.bufPool j) ∧ ∀ j q, 0 < k → q ≠ p → mgr.Holds j file q → j ≠ i := by
  obtain ⟨i, m, hrun, hroomy, hmirrors, -⟩ := h.roomy.read hL hfile h.mirrors hfits hp
  have hcall := onPool_ok hrun
  have hbytes : ∀ j, j ≠ i → m.bufPool j = mgr.bufPool j := fun j hj =>
    readPage_bufPool h.roomy.steady.agree h.roomy.steady.writable hcall hj
  cases k with
  | zero =>
    have hnone : Ahead 0 m := ⟨Nat.zero_le _, fun d hd => absurd hd (Nat.not_lt_zero d)⟩
    exact ⟨i, m, hrun, ⟨hroomy, hmirrors, hnone⟩, hbytes, fun j q hk => absurd hk (Nat.lt_irrefl 0)⟩
  | succ k =>
    obtain ⟨hahead, hframe⟩ := h.ahead.readPage h.roomy.steady.agree hcall
    refine ⟨i, m, hrun, ⟨hroomy, hmirrors, hahead⟩, hbytes, fun j q _ hq hj heq => ?_⟩
    subst heq
    rcases hframe with hi | hclear
    · exact hq (hj.2.pageNo.symm.trans hi.2.pageNo)
    · exact Bool.false_ne_true (hclear.symm.trans hj.2.valid)

end Pages

/-! ### The levels -/

section Levels

variable {w : World (BufMgr F Page σ) FrameId} (hL : Hosts L on blob) (hfile : on file)
include hL hfile

/-- One round of the loop over the levels, at the page `p` in frame `j`.  The child comes into frame `i`. -/
theorem Calm.scanDescend (h : Calm L hash on blob file bufs k first s [(p, j)] w.pages) (hbufs : 0 < bufs)
    (hpage : w.index.currentPageNum = p) (hchild : s.Has (scanChild (s.pages p).asNonLeaf w.index.lowValInt)) (fuel : Nat) :
    ∃ i m, Calm L hash on blob file bufs (k - 1) first s [(scanChild (s.pages p).asNonLeaf w.index.lowValInt, i)] m ∧
      (0 < k → scanChild (s.pages p).asNonLeaf w.index.lowValInt ≠ p → i ≠ j) ∧
      scanDescend (poolLayer L hash file) (fuel + 1) j w =
        if (if i = j then s.pages (scanChild (s.pages p).asNonLeaf w.index.lowValInt) else
            s.pages p).asNonLeaf.level = 1 then
          .ok () ⟨{ w.index with currentPageNum := scanChild (s.pages p).asNonLeaf w.index.lowValInt
                                 currentPageData := i }, m⟩
        else scanDescend (poolLayer L hash file) fuel i
          ⟨{ w.index with currentPageNum := scanChild (s.pages p).asNonLeaf w.index.lowValInt
                          currentPageData := i }, m⟩ := by
  subst hpage
  obtain ⟨m₁, hunpin, hcalm₁, hbytes₁, hholds₁⟩ := h.unpinned
  obtain ⟨i, m, hread, hcalm, hbytes, hother⟩ := hcalm₁.read hL hfile hbufs hchild
  refine ⟨i, m, hcalm, fun hk hne heq => hother j _ hk hne.symm hholds₁ heq.symm, ?_⟩
  have hnode : onPages (deref (poolLayer L hash file) j) w = .ok (s.pages w.index.currentPageNum) w :=
    congrArg (fun page => EStateM.Result.ok page w) h.page
  rw [BTree.scanDescend, run_bind_ok (run_get w)]
  dsimp only
  rw [run_bind_ok hnode, run_bind_ok (onPages_ok hunpin), run_bind_ok (run_setIndex _ _), run_bind_ok (onPages_ok hread),
    run_bind_ok (run_setIndex _ _)]
  have hlevel : m.bufPool j = if i = j then s.pages (scanChild (s.pages w.index.currentPageNum).asNonLeaf w.index.lowValInt)
      else s.pages w.index.currentPageNum := by
    by_cases hi : i = j
    · rw [if_pos hi, ← hi]
      exact hcalm.page
    · rw [if_neg hi, hbytes j (Ne.symm hi), hbytes₁]
      exact h.page
  rw [← hlevel]
  by_cases hone : (m.bufPool j).asNonLeaf.level = 1
  · rw [if_pos hone]
    exact congrFun (if_pos hone) _
  · rw [if_neg hone]
    exact congrFun (if_neg hone) _

/-- As long as there are clear frames, the level is that of the page. -/
theorem Calm.scanDescend_apart (h : Calm L hash on blob file bufs (k + 1) first s [(p, j)] w.pages) (hbufs : 0 < bufs)
    (hpage : w.index.currentPageNum = p) (hchild : s.Has (scanChild (s.pages p).asNonLeaf w.index.lowValInt))
    (hother : scanChild (s.pages p).asNonLeaf w.index.lowValInt ≠ p) (fuel : Nat) :
    ∃ i m, Calm L hash on blob file bufs k first s [(scanChild (s.pages p).asNonLeaf w.index.lowValInt, i)] m ∧
      BTree.scanDescend (poolLayer L hash file) (fuel + 1) j w =
        if (s.pages p).asNonLeaf.level = 1 then
          .ok () ⟨{ w.index with currentPageNum := scanChild (s.pages p).asNonLeaf w.index.lowValInt
                                 currentPageData := i }, m⟩
        else BTree.scanDescend (poolLayer L hash file) fuel i
          ⟨{ w.index with currentPageNum := scanChild (s.pages p).asNonLeaf w.index.lowValInt
                          currentPageData := i }, m⟩ := by
  obtain ⟨i, m, hcalm, happart, hrun⟩ := h.scanDescend hL hfile hbufs hpage hchild fuel
  rw [if_neg (happart (Nat.succ_pos k) hother)] at hrun
  exact ⟨i, m, hcalm, hrun⟩

/-- In a pool of one frame, the level is that of the child. -/
theorem Calm.scanDescend_one (h : Calm L hash on blob file 1 k first s [(p, 0)] w.pages)
    (hpage : w.index.currentPageNum = p) (hchild : s.Has (scanChild (s.pages p).asNonLeaf w.index.lowValInt)) (fuel : Nat) :
    ∃ m, Calm L hash on blob file 1 (k - 1) first s [(scanChild (s.pages p).asNonLeaf w.index.lowValInt, 0)] m ∧
      BTree.scanDescend (poolLayer L hash file) (fuel + 1) 0 w =
        if (s.pages (scanChild (s.pages p).asNonLeaf w.index.lowValInt)).asNonLeaf.level = 1 then
          .ok () ⟨{ w.index with currentPageNum := scanChild (s.pages p).asNonLeaf w.index.lowValInt
                                 currentPageData := 0 }, m⟩
        else BTree.scanDescend (poolLayer L hash file) fuel 0
          ⟨{ w.index with currentPageNum := scanChild (s.pages p).asNonLeaf w.index.lowValInt
                          currentPageData := 0 }, m⟩ := by
  obtain ⟨i, m, hcalm, -, hrun⟩ := h.scanDescend hL hfile Nat.one_pos hpage hchild fuel
  obtain rfl := hcalm.only_frame
  rw [if_pos rfl] at hrun
  exact ⟨m, hcalm, hrun⟩

/-- The search of `startScan` over a root that is not a leaf, until the loop over the levels begins. -/
theorem Calm.startScan (h : Calm L hash on blob file bufs k first s [] w.pages) (hbufs : 0 < bufs)
    (hheader : s.Has w.index.headerPageNum) (hroot : s.Has w.index.rootPageNum)
    (hheight : (s.pages w.index.headerPageNum).asMetaInfo.height ≠ 1) (hexec : w.index.scanExecuting = false)
    {low high : Int}
    {lowOp highOp : Operator} (hargs : ScanArgs low lowOp high highOp) (fuel : Nat) :
    ∃ i m, Calm L hash on blob file bufs (k - 2) first s [(w.index.rootPageNum, i)] m ∧
      BTree.startScan (poolLayer L hash file) fuel low lowOp high highOp w =
        (do BTree.scanDescend (poolLayer L hash file) fuel i
            scanLeaf (poolLayer L hash file))
          ⟨{ w.index with
              lowOp := lowOp
              highOp := highOp
              lowValInt := low
              highValInt := high
              scanExecuting := true
              currentPageNum := w.index.rootPageNum
              currentPageData := i }, m⟩ := by
  obtain ⟨i₁, m₁, hread₁, hcalm₁, -, -⟩ := h.read hL hfile hbufs hheader
  obtain ⟨m₂, hunpin, hcalm₂, -, -⟩ := hcalm₁.unpinned
  obtain ⟨i, m, hread, hcalm, -, -⟩ := hcalm₂.read hL hfile hbufs hroot
  refine ⟨i, m, hcalm, ?_⟩
  have hops : ¬ ((lowOp ≠ .GT ∧ lowOp ≠ .GTE) ∨ (highOp ≠ .LT ∧ highOp ≠ .LTE)) := by
    rintro (hlow | hhigh)
    · exact hargs.lowOp.elim hlow.1 hlow.2
    · exact hargs.highOp.elim hhigh.1 hhigh.2
  have hidle : ¬ w.index.scanExecuting = true := ne_true_of_eq_false hexec
  have hderef : ∀ (i : FrameId) (mgr : BufMgr F Page σ), deref (poolLayer L hash file) i mgr = .ok (mgr.bufPool i) mgr :=
    fun _ _ => rfl
  rw [startScan_opcodes _ _ hops]
  simp only [run_bind, run_setIndex, if_neg (Int.not_lt.mpr hargs.le), run_get, if_neg hidle, scanRoot, onPages,
    hread₁, hderef, hcalm₁.page, hunpin, hread, decide_eq_false hheight, if_true]

end Levels

/-! ### The leaf -/

section Leaf

variable {τ Ptr : Type} {M : PageLayer τ Ptr} {w : World τ Ptr} {n : LeafNodeInt}

theorem scanLeaf_found (hn : M.load w.index.currentPageData w.pages = .leaf n) {entryId : Nat}
    (hfound : firstEntry n w.index.lowValInt w.index.highValInt w.index.lowOp leafOccupancy 0 = .found entryId) :
    scanLeaf M w = .ok () { w with index := { w.index with nextEntry := entryId } } := by
  have hderef : deref M w.index.currentPageData w.pages = .ok (.leaf n) w.pages := congrArg (EStateM.Result.ok · w.pages) hn
  simp only [scanLeaf, run_bind, run_get, onPages, hderef, asLeaf_leaf, run_setIndex, hfound]

theorem scanLeaf_above (hn : M.load w.index.currentPageData w.pages = .leaf n)
    (habove : firstEntry n w.index.lowValInt w.index.highValInt w.index.lowOp leafOccupancy 0 = .keyAboveRange) :
    scanLeaf M w = .error .noSuchKeyFound { w with index := { w.index with nextEntry := -1 } } := by
  have hderef : deref M w.index.currentPageData w.pages = .ok (.leaf n) w.pages := congrArg (EStateM.Result.ok · w.pages) hn
  simp only [scanLeaf, run_bind, run_get, onPages, hderef, asLeaf_leaf, run_setIndex, habove]
  rfl

end Leaf

end Cs564.BTree
