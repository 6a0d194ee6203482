import Cs564.BTree.Keeps
import Cs564.BTree.LeafLinks
import Cs564.BTree.PoolRuns

/-!
# Scans in lockstep

A scan over the pool and a scan over the plain store are at the same place (`Paired`), and every method of the scan keeps
them there.  The code reads bytes of a frame after it has given the page back in three places.  Where nothing has been
read in between, the bytes are still there.  The loop over the levels of `startScan` reads the level of a node when the
child has been read, which may have come into the same frame; `Apart` says that it has not.
-/

namespace Cs564.BTree

open P2 (BufMgr)
open P3 (FileLayer BlobFile)
open PageStore

variable {F σ : Type} [DecidableEq F] {L : FileLayer F Page σ} {hash : F → PageId → Nat} {on : F → Prop}
  {blob : σ → BlobFile Page} {file : F} {pins : List (PageId × FrameId)} {mgr m : BufMgr F Page σ} {i j : FrameId}
  {p q first header root : PageId} {s : PageStore} {page : Page}

/-! ### Bytes that stay in a frame -/

section Bytes

/-- `readPage` changes the bytes of the frame that it returns only. -/
theorem readPage_bufPool (h : mgr.Agree hash) (hw : P3.Writable L mgr) (run : P3.readPage L hash file p mgr = .ok i m)
    (hj : j ≠ i) : m.bufPool j = mgr.bufPool j := by
  have hspec := P3.readPage_spec h hw file p
  rw [run] at hspec
  cases hspec with
  | hit => rfl
  | @loaded _ m' page files table absent freed run loads =>
    have hpage : ((m'.withFiles files).occupy i table file p page).bufPool j = m'.bufPool j := Function.update_of_ne hj ..
    exact hpage.trans (freed.same hj).page

/-- `unPinPage` changes no bytes. -/
theorem unPinPage_bufPool (h : mgr.Agree hash) (p : PageId) (dirty : Bool) :
    (stateAfter (P3.unPinPage hash file p dirty mgr)).bufPool = mgr.bufPool := by
  have hspec := P3.unPinPage_spec h file p dirty
  cases hrun : P3.unPinPage hash file p dirty mgr with
  | ok _ m =>
    rw [hrun] at hspec
    cases hspec
    rfl
  | error e m =>
    rw [hrun] at hspec
    cases hspec <;> rfl

variable {exc : Exc → BufMgr F Page σ → PageStore → Prop}

/-- The same page behind the two pointers. -/
theorem deref_same {P : BufMgr F Page σ → PageStore → Prop}
    (h : ∀ mgr t, P mgr t → mgr.bufPool i = page ∧ t.pages p = page) :
    Simulates Exc.GivesUp P (deref (poolLayer L hash file) i) (deref layer p)
      (fun a b mgr t => (a = page ∧ b = page) ∧ P mgr t) exc := fun mgr t hp => ⟨h mgr t hp, hp⟩

/-- The last pin is given back.  The bytes stay in their frame. -/
theorem unPinPage_last {N : BufMgr F Page σ → Prop} :
    Simulates Exc.GivesUp
      (fun mgr t => Mirrored L hash on blob file first [(p, i)] [] s mgr t ∧
        N (stateAfter (P3.unPinPage hash file p false mgr)))
      ((poolLayer L hash file).unPinPage p false) (layer.unPinPage p false)
      (fun _ _ mgr t => (Mirrored L hash on blob file first [] [] s mgr t ∧ mgr.bufPool i = s.pages p) ∧ N mgr) exc := by
  have hunpin : Simulates Exc.GivesUp (Mirrored L hash on blob file first [(p, i)] [] s)
      ((poolLayer L hash file).unPinPage p false) (layer.unPinPage p false)
      (fun _ _ => Mirrored L hash on blob file first [] [] s) exc :=
    unPinPage_mirrored false [] (fun _ hq => .inl hq) fun _ hq => absurd hq List.not_mem_nil
  rintro mgr t ⟨hm, hN⟩
  have hafter := hunpin mgr t hm
  obtain ⟨rfl, hsteady, hmirrors⟩ := hm
  have hpage := (hmirrors.held hsteady.agree (hsteady.pinned (p, i) List.mem_cons_self)).2
  have hbytes : (stateAfter (P3.unPinPage hash file p false mgr)).bufPool = mgr.bufPool :=
    unPinPage_bufPool hsteady.agree p false
  have hstate : stateAfter ((poolLayer L hash file).unPinPage p false mgr) =
      stateAfter (P3.unPinPage hash file p false mgr) := stateAfter_onPool ..
  cases hrun : (poolLayer L hash file).unPinPage p false mgr with
  | ok _ m =>
    rw [hrun] at hafter hstate
    obtain rfl : m = _ := hstate
    exact ⟨⟨hafter, (congrFun hbytes i).trans hpage⟩, hN⟩
  | error e m =>
    rw [hrun] at hafter
    exact hafter

theorem unPinPage_then {N : BufMgr F Page σ → Prop} :
    Simulates Exc.GivesUp
      (fun mgr t => Mirrored L hash on blob file first [(p, i)] [] s mgr t ∧
        N (stateAfter (P3.unPinPage hash file p false mgr)))
      ((poolLayer L hash file).unPinPage p false) (layer.unPinPage p false)
      (fun _ _ mgr t => Mirrored L hash on blob file first [] [] s mgr t ∧ N mgr) exc :=
  unPinPage_last.conseq (fun _ _ h => h) (fun _ _ _ _ h => ⟨h.1.1, h.2⟩) fun _ _ _ h => h

variable (hL : Hosts L on blob) (hfile : on file)
include hL hfile

/-- `readPage`, with what is known about the pool after it. -/
theorem readPage_then {N : FrameId → BufMgr F Page σ → Prop} (hp : s.Has p) :
    Simulates Exc.GivesUp
      (fun mgr t => Mirrored L hash on blob file first pins [] s mgr t ∧
        ∀ i m, P3.readPage L hash file p mgr = .ok i m → N i m)
      ((poolLayer L hash file).readPage p) (layer.readPage p)
      (fun i q mgr t => p = q ∧ Mirrored L hash on blob file first ((p, i) :: pins) [] s mgr t ∧ N i mgr) exc := by
  refine ((readPage_mirrored hL hfile hp).left _).conseq (fun _ _ h => h) (fun i q m t h => ?_) fun _ _ _ h => h
  obtain ⟨⟨hq, hm⟩, mgr, hN, hrun⟩ := h
  exact ⟨hq, hm, hN i m (onPool_ok hrun)⟩

/-- A page that comes into another frame than `j` leaves the bytes there. -/
theorem readPage_apart {N : FrameId → BufMgr F Page σ → Prop} (hp : s.Has p) :
    Simulates Exc.GivesUp
      (fun mgr t => (Mirrored L hash on blob file first [] [] s mgr t ∧ mgr.bufPool j = page) ∧
        ∀ i m, P3.readPage L hash file p mgr = .ok i m → i ≠ j ∧ N i m)
      ((poolLayer L hash file).readPage p) (layer.readPage p)
      (fun i q mgr t => p = q ∧
        (Mirrored L hash on blob file first [(p, i)] [] s mgr t ∧ mgr.bufPool j = page) ∧ N i mgr) exc := by
  refine (readPage_then (N := fun i m => m.bufPool j = page ∧ N i m) hL hfile hp).conseq (fun mgr t h => ?_)
    (fun i q m t h => ⟨h.1, ⟨h.2.1, h.2.2.1⟩, h.2.2.2⟩) fun _ _ _ h => h
  obtain ⟨⟨hm, hbytes⟩, hN⟩ := h
  refine ⟨hm, fun i m hrun => ?_⟩
  obtain ⟨hij, hafter⟩ := hN i m hrun
  exact ⟨(readPage_bufPool hm.2.1.agree hm.2.1.writable hrun hij.symm).trans hbytes, hafter⟩

end Bytes

/-- The pages `path` are read one after the other, each when the page before it was given back, which is `p` in frame `j`
for the first one.  No page comes into the frame of the page before it. -/
def Apart (L : FileLayer F Page σ) (hash : F → PageId → Nat) (file : F) (p : PageId) (j : FrameId) :
    List PageId → BufMgr F Page σ → Prop
  | [], _ => True
  | q :: path, mgr => ∀ i m, P3.readPage L hash file q (stateAfter (P3.unPinPage hash file p false mgr)) = .ok i m →
      i ≠ j ∧ Apart L hash file q i path m

/-- The pages behind the root page that a search for `low` reads. -/
def searchPath (s : PageStore) (header root : PageId) (low : Int) (fuel : Nat) : List PageId :=
  if (s.pages header).asMetaInfo.height = 1 then [] else scanPath s low fuel root

/-- The same for a search, which reads the header page, the root page and the pages `path`. -/
def SearchApart (L : FileLayer F Page σ) (hash : F → PageId → Nat) (file : F) (header root : PageId) (path : List PageId)
    (mgr : BufMgr F Page σ) : Prop :=
  ∀ i m, P3.readPage L hash file header mgr = .ok i m →
    ∀ j m', P3.readPage L hash file root (stateAfter (P3.unPinPage hash file header false m)) = .ok j m' →
      Apart L hash file root j path m'

/-- The pool when the search of `startScan` begins: the page of a scan before it has been given back. -/
def atSearch (hash : F → PageId → Nat) (file : F) (this : BTreeIndex FrameId) (mgr : BufMgr F Page σ) : BufMgr F Page σ :=
  if this.scanExecuting then stateAfter (P3.unPinPage hash file this.currentPageNum false mgr) else mgr

/-! ### The indices -/

/-- The two scans are at the same place. -/
structure SameScan (this : BTreeIndex FrameId) (that : BTreeIndex PageId) : Prop where
  nextEntry : this.nextEntry = that.nextEntry
  currentPageNum : this.currentPageNum = that.currentPageNum
  currentPageData : that.currentPageData = that.currentPageNum
  lowValInt : this.lowValInt = that.lowValInt
  highValInt : this.highValInt = that.highValInt
  lowOp : this.lowOp = that.lowOp
  highOp : this.highOp = that.highOp

/-- The data members are the same, as far as they are in use. -/
structure Alike (s : PageStore) (this : BTreeIndex FrameId) (that : BTreeIndex PageId) : Prop where
  header : this.headerPageNum = that.headerPageNum
  root : this.rootPageNum = that.rootPageNum
  executing : this.scanExecuting = that.scanExecuting
  scan : that.scanExecuting = true → SameScan this that
  leaf : that.scanExecuting = true → s.HasLeaf that.currentPageNum

/-- The index over the pool and the index over the plain store `s` are alike, and hold the same pages. -/
def Paired (L : FileLayer F Page σ) (hash : F → PageId → Nat) (on : F → Prop) (blob : σ → BlobFile Page) (file : F)
    (header root : PageId) (s : PageStore) (w : World (BufMgr F Page σ) FrameId) (u : World PageStore PageId) : Prop :=
  Alike s w.index u.index ∧ AtFile header root u.index ∧
    Mirrored L hash on blob file header (scanPins w.index) [] s w.pages u.pages

/-- Both methods end, or fail alike, with the indices alike. -/
def KeepsPaired (L : FileLayer F Page σ) (hash : F → PageId → Nat) (on : F → Prop) (blob : σ → BlobFile Page) (file : F)
    (header root : PageId) (s : PageStore) {α : Type} (pre : World (BufMgr F Page σ) FrameId → World PageStore PageId → Prop)
    (x : EStateM Exc (World (BufMgr F Page σ) FrameId) α) (y : EStateM Exc (World PageStore PageId) α) : Prop :=
  Simulates Exc.GivesUp pre x y (fun a b w u => a = b ∧ Paired L hash on blob file header root s w u)
    fun e w u => e = .outOfFuel ∨ Paired L hash on blob file header root s w u

section Scans

variable {this : BTreeIndex FrameId} {that : BTreeIndex PageId} {w : World (BufMgr F Page σ) FrameId}
  {u : World PageStore PageId}

/-- The data members may be taken as fixed. -/
private theorem KeepsPaired.of_alike {α : Type} {x : EStateM Exc (World (BufMgr F Page σ) FrameId) α}
    {y : EStateM Exc (World PageStore PageId) α}
    (h : ∀ this that, Alike s this that → AtFile header root that → KeepsPaired L hash on blob file header root s
      (Both this that (Mirrored L hash on blob file header (scanPins this) [] s)) x y) :
    KeepsPaired L hash on blob file header root s (Paired L hash on blob file header root s) x y :=
  fun w u ⟨halike, hat, hm⟩ => h w.index u.index halike hat w u ⟨rfl, rfl, hm⟩

private theorem Both.paired (h : Both this that (Mirrored L hash on blob file header (scanPins this) [] s) w u)
    (halike : Alike s this that) (hat : AtFile header root that) : Paired L hash on blob file header root s w u := by
  obtain ⟨rfl, rfl, hm⟩ := h
  exact ⟨halike, hat, hm⟩

private theorem Both.scanning (h : Both this that (Mirrored L hash on blob file header [(p, i)] [] s) w u)
    (halike : Alike s this that) (hat : AtFile header root that) (hexec : this.scanExecuting = true)
    (hp : this.currentPageNum = p) (hi : this.currentPageData = i) : Paired L hash on blob file header root s w u := by
  refine Both.paired ⟨h.1, h.2.1, ?_⟩ halike hat
  rw [scanPins, if_pos hexec, hp, hi]
  exact h.2.2

private theorem outOfFuel_paired : ∀ (w : World (BufMgr F Page σ) FrameId) (u : World PageStore PageId),
    Exc.outOfFuel = .outOfFuel ∨ Paired L hash on blob file header root s w u := fun _ _ => .inl rfl

theorem Mirrored.held {unsaved : List PageId} {t : PageStore} (h : Mirrored L hash on blob file first pins unsaved s mgr t)
    (hmem : (p, i) ∈ pins) : mgr.bufPool i = s.pages p ∧ t.pages p = s.pages p := by
  obtain ⟨rfl, hsteady, hmirrors⟩ := h
  exact ⟨(hmirrors.held hsteady.agree (hsteady.pinned (p, i) hmem)).2, rfl⟩

/-- `endScan` gives the page back. -/
private theorem endScan_both {exc : Exc → World (BufMgr F Page σ) FrameId → World PageStore PageId → Prop}
    (hfuel : ∀ w u, exc .outOfFuel w u) (halike : Alike s this that) (hexec : that.scanExecuting = true)
    {N : BufMgr F Page σ → Prop} :
    Simulates Exc.GivesUp
      (Both this that fun mgr t => Mirrored L hash on blob file header (scanPins this) [] s mgr t ∧
        N (stateAfter (P3.unPinPage hash file this.currentPageNum false mgr)))
      (endScan (poolLayer L hash file)) (endScan layer)
      (fun _ _ => Both { this with scanExecuting := false } { that with scanExecuting := false } fun mgr t =>
        Mirrored L hash on blob file header [] [] s mgr t ∧ N mgr) exc := by
  have hexec' : this.scanExecuting = true := halike.executing.trans hexec
  rw [endScan, endScan]
  refine get_both fun w u hw hu => ?_
  simp only [hw, hu, hexec, hexec', Bool.true_eq_false, if_false]
  refine Simulates.bind (setIndex_both _ _) fun _ _ => ?_
  rw [scanPins, if_pos hexec', (halike.scan hexec).currentPageNum]
  refine (onPages_both' hfuel unPinPage_last).conseq (fun _ _ h => h) (fun _ _ w u h => ?_) fun _ _ _ h => h
  exact ⟨h.1, h.2.1, h.2.2.1.1, h.2.2.2⟩

theorem endScan_paired : KeepsPaired L hash on blob file header root s (Paired L hash on blob file header root s)
    (endScan (poolLayer L hash file)) (endScan layer) := by
  refine .of_alike fun this that halike hat => ?_
  by_cases hexec : that.scanExecuting = true
  · refine (endScan_both (N := fun _ => True) outOfFuel_paired halike hexec).conseq
      (fun w u h => ⟨h.1, h.2.1, h.2.2, trivial⟩) (fun _ _ w u h => ⟨rfl, ?_⟩) fun _ _ _ h => h
    obtain ⟨hw, hu, hm, -⟩ := h
    have hboth : Both { this with scanExecuting := false } { that with scanExecuting := false }
        (Mirrored L hash on blob file header (scanPins { this with scanExecuting := false }) [] s) w u := ⟨hw, hu, hm⟩
    have hno : ¬ (false : Bool) = true := Bool.false_ne_true
    exact hboth.paired ⟨halike.header, halike.root, rfl, fun h => absurd h hno, fun h => absurd h hno⟩ hat
  · have hidle := Bool.eq_false_iff.mpr hexec
    rw [endScan, endScan]
    refine get_both fun w u hw hu => ?_
    simp only [hw, hu, halike.executing, hidle, if_true]
    exact .throw fun w u h => .inr (Both.paired h halike hat)

private theorem withinHigh_same (hhigh : this.highValInt = that.highValInt) (hop : this.highOp = that.highOp) (k : Int) :
    withinHigh this k ↔ withinHigh that k := by
  rw [withinHigh, withinHigh, hhigh, hop]

section Reads

variable (hL : Hosts L on blob) (hfile : on file) (hlinks : LeafLinks s)
include hL hfile hlinks

theorem scanNext_paired : KeepsPaired L hash on blob file header root s (Paired L hash on blob file header root s)
    (scanNext (poolLayer L hash file)) (scanNext layer) := by
  refine .of_alike fun this that halike hat => ?_
  rw [scanNext, scanNext]
  refine get_both fun w u hw hu => ?_
  by_cases hexec : that.scanExecuting = false
  · simp only [hw, hu, halike.executing, if_pos hexec]
    exact .throw fun w u h => .inr (h.paired halike hat)
  have hexec' : that.scanExecuting = true := Bool.eq_true_of_not_eq_false hexec
  have hscan := halike.scan hexec'
  have hthis : this.scanExecuting = true := halike.executing.trans hexec'
  have hpins : scanPins this = [(that.currentPageNum, this.currentPageData)] := by
    rw [scanPins, if_pos hthis, hscan.currentPageNum]
  by_cases hcompleted : that.nextEntry = -1
  · simp only [hw, hu, halike.executing, if_neg hexec, hscan.nextEntry, if_pos hcompleted]
    exact .throw fun w u h => .inr (h.paired halike hat)
  simp only [hw, hu, halike.executing, if_neg hexec, hscan.nextEntry, if_neg hcompleted]
  rw [hpins, hscan.currentPageData, hscan.currentPageNum]
  refine Simulates.bind_of (onPages_both outOfFuel_paired (deref_same fun mgr t h => h.held List.mem_cons_self))
    fun page _ hpage => ?_
  obtain ⟨rfl, rfl⟩ := hpage
  by_cases hlast : ((s.pages that.currentPageNum).asLeaf.ridArray (that.nextEntry.toNat + 1)).page_number = INVALID_NUMBER
  · simp only [if_pos hlast]
    by_cases hsib : (s.pages that.currentPageNum).asLeaf.rightSibPageNo = INVALID_NUMBER
    · simp only [if_pos hsib]
      refine Simulates.bind (setIndex_both _ _) fun _ _ => .pure fun w u h => ⟨rfl, ?_⟩
      exact h.scanning ⟨halike.header, halike.root, halike.executing,
        fun _ => { hscan with nextEntry := rfl }, halike.leaf⟩ hat hthis hscan.currentPageNum rfl
    · simp only [if_neg hsib]
      have hnext := (hlinks.next (halike.leaf hexec')).resolve_left hsib
      refine Simulates.bind ((onPages_both' outOfFuel_paired (unPinPage_last (N := fun _ => True))).weaken
        fun w u h => ⟨h.1, h.2.1, h.2.2, trivial⟩) fun _ _ => ?_
      refine Simulates.bind_of (onPages_both outOfFuel_paired (deref_same fun mgr t h => ⟨h.1.2, by rw [h.1.1.1]⟩))
        fun page _ hpage => ?_
      obtain ⟨rfl, rfl⟩ := hpage
      refine Simulates.bind (setIndex_both _ _) fun _ _ => ?_
      refine Simulates.bind_of ((onPages_both outOfFuel_paired (readPage_mirrored hL hfile hnext.1)).weaken
        fun w u h => ⟨h.1, h.2.1, h.2.2.1.1⟩) fun i _ hq => ?_
      subst hq
      refine Simulates.bind (setIndex_both _ _) fun _ _ => ?_
      refine Simulates.bind_of (onPages_both outOfFuel_paired (deref_same fun mgr t h => h.held List.mem_cons_self))
        fun page _ hpage => ?_
      obtain ⟨rfl, rfl⟩ := hpage
      refine Simulates.bind (setIndex_both _ _) fun _ _ => .pure fun w u h => ⟨rfl, ?_⟩
      refine h.scanning ⟨halike.header, halike.root, halike.executing,
        fun _ => ⟨?_, rfl, rfl, hscan.lowValInt, hscan.highValInt, hscan.lowOp, hscan.highOp⟩, fun _ => hnext⟩ hat
          hthis rfl rfl
      refine if_congr (withinHigh_same ?_ ?_ _) rfl rfl
      · exact hscan.highValInt
      · exact hscan.highOp
  · simp only [if_neg hlast]
    refine Simulates.bind (setIndex_both _ _) fun _ _ => .pure fun w u h => ⟨rfl, ?_⟩
    refine h.scanning ⟨halike.header, halike.root, halike.executing,
      fun _ => { hscan with nextEntry := ?_ }, halike.leaf⟩ hat hthis hscan.currentPageNum rfl
    simp only [withinHigh_same hscan.highValInt hscan.highOp, hscan.nextEntry]

/-- The rest of `startScan` at the leaf, where `nextEntry` is set first. -/
private theorem scanLeaf_paired (hthis : this.scanExecuting = true)
    (halike : ∀ k, Alike s { this with nextEntry := k } { that with nextEntry := k }) (hat : AtFile header root that) :
    KeepsPaired L hash on blob file header root s
      (Both this that (Mirrored L hash on blob file header (scanPins this) [] s))
      (scanLeaf (poolLayer L hash file)) (scanLeaf layer) := by
  have hexec : that.scanExecuting = true := (halike 0).executing.symm.trans hthis
  have hscan : SameScan { this with nextEntry := 0 } { that with nextEntry := 0 } := (halike 0).scan hexec
  have hnum : this.currentPageNum = that.currentPageNum := hscan.currentPageNum
  have hdata : that.currentPageData = that.currentPageNum := hscan.currentPageData
  have hlow : this.lowValInt = that.lowValInt := hscan.lowValInt
  have hhigh : this.highValInt = that.highValInt := hscan.highValInt
  have hlowOp : this.lowOp = that.lowOp := hscan.lowOp
  have hpins : scanPins this = [(that.currentPageNum, this.currentPageData)] := by
    rw [scanPins, if_pos hthis, hnum]
  rw [scanLeaf, scanLeaf]
  refine get_both fun w u hw hu => ?_
  simp only [hw, hu]
  rw [hpins, hdata, hnum, hlow, hhigh, hlowOp]
  refine Simulates.bind_of (onPages_both outOfFuel_paired (deref_same fun mgr t h => h.held List.mem_cons_self))
    fun page _ hpage => ?_
  obtain ⟨rfl, rfl⟩ := hpage
  refine Simulates.bind (setIndex_both _ _) fun _ _ => ?_
  split
  · exact .throw fun w u h => .inr (h.scanning (halike (-1)) hat hthis hnum rfl)
  · refine (setIndex_both _ _).conseq (fun _ _ h => h) (fun _ _ w u h => ⟨trivial, ?_⟩) fun _ _ _ h => h
    exact h.scanning (halike _) hat hthis hnum rfl
  · by_cases hsib : (s.pages that.currentPageNum).asLeaf.rightSibPageNo = INVALID_NUMBER
    · simp only [if_pos hsib]
      exact .throw fun w u h => .inr (h.scanning (halike (-1)) hat hthis hnum rfl)
    · simp only [if_neg hsib]
      have hnext := (hlinks.next ((halike 0).leaf hexec)).resolve_left hsib
      refine Simulates.bind ((onPages_both' outOfFuel_paired (unPinPage_last (N := fun _ => True))).weaken
        fun w u h => ⟨h.1, h.2.1, h.2.2, trivial⟩) fun _ _ => ?_
      refine Simulates.bind_of (onPages_both outOfFuel_paired (deref_same fun mgr t h => ⟨h.1.2, by rw [h.1.1.1]⟩))
        fun page _ hpage => ?_
      obtain ⟨rfl, rfl⟩ := hpage
      refine Simulates.bind (setIndex_both _ _) fun _ _ => ?_
      refine Simulates.bind_of ((onPages_both outOfFuel_paired (readPage_mirrored hL hfile hnext.1)).weaken
        fun w u h => ⟨h.1, h.2.1, h.2.2.1.1⟩) fun i _ hq => ?_
      subst hq
      refine (setIndex_both _ _).conseq (fun _ _ h => h) (fun _ _ w u h => ⟨trivial, ?_⟩) fun _ _ _ h => h
      exact h.scanning ⟨(halike 0).header, (halike 0).root, (halike 0).executing,
        fun _ => ⟨rfl, rfl, rfl, hlow, hhigh, hlowOp, hscan.highOp⟩, fun _ => hnext⟩ hat hthis rfl rfl

omit hlinks in
/-- The loop over the levels, when the frames are apart; by induction on its rounds. -/
private theorem scanDescend_both {exc : Exc → World (BufMgr F Page σ) FrameId → World PageStore PageId → Prop}
    (hfuel : ∀ w u, exc .outOfFuel w u) (fuel : Nat) {h : Nat} {top : Bool} {t : Branch}
    (ht : Subtree s (h + 1) top t) (hhas : ∀ p ∈ t.pages, s.Has p) (hlow : that.lowValInt ≤ INT_MAX)
    (hstray : ∀ n, s.pages t.page = .nonLeaf n → ¬ n.Stray that.lowValInt) (hsame : this.lowValInt = that.lowValInt)
    (hthis : this.currentPageNum = t.page) (hthat : that.currentPageNum = t.page) :
    Simulates Exc.GivesUp
      (Both this that fun mgr u => Mirrored L hash on blob file first [(t.page, j)] [] s mgr u ∧
        Apart L hash file t.page j (scanPath s that.lowValInt fuel t.page) mgr)
      (scanDescend (poolLayer L hash file) fuel j) (scanDescend layer fuel t.page)
      (fun _ _ w u => ∃ q i, s.HasLeaf q ∧ Both { this with currentPageNum := q, currentPageData := i }
        { that with currentPageNum := q, currentPageData := q } (Mirrored L hash on blob file first [(q, i)] [] s) w u)
      exc := by
  induction fuel generalizing this that j h top t with
  | zero => exact .throw fun w u _ => hfuel w u
  | succ fuel ih =>
    obtain ⟨n, keys, subs, hn, hsubs⟩ : ∃ n keys subs, IsNode s top (h == 0) t n keys subs ∧
        ∀ u ∈ subs, Subtree s h false u := ht
    obtain ⟨u, hu, hchild⟩ := hn.scanChild_kid hlow (hstray n hn.page)
    have hnode : (s.pages t.page).asNonLeaf = n := by rw [hn.page, asNonLeaf_nonLeaf]
    have hhasU : ∀ p ∈ u.pages, s.Has p := fun p hp => hhas p (hn.sub_pages hu p hp)
    have hchild' : scanChild n this.lowValInt = u.page := by rw [hsame, hchild]
    obtain ⟨rest, hrest⟩ : ∃ rest, rest = if n.level = 1 then [] else scanPath s that.lowValInt fuel u.page := ⟨_, rfl⟩
    have hpath : scanPath s that.lowValInt (fuel + 1) t.page = u.page :: rest := by
      rw [scanPath, hnode, hchild, hrest]
    rw [scanDescend, scanDescend]
    refine get_both fun w v hw hv => ?_
    simp only [hw, hv, hthis, hthat, hpath]
    refine Simulates.bind_of (onPages_both hfuel (deref_same fun mgr v h => h.1.held List.mem_cons_self))
      fun page _ hpage => ?_
    obtain ⟨rfl, rfl⟩ := hpage
    rw [hnode, hchild, hchild']
    refine Simulates.bind (onPages_both' hfuel (unPinPage_last (N := fun mgr => ∀ i m,
      P3.readPage L hash file u.page mgr = .ok i m → i ≠ j ∧ Apart L hash file u.page i rest m))) fun _ _ => ?_
    refine Simulates.bind (setIndex_both _ _) fun _ _ => ?_
    -- the bytes of the parent are still there when the child has come into another frame
    refine Simulates.bind_of (onPages_both hfuel (readPage_apart hL hfile (hhasU _ (hsubs u hu).page_mem))) fun i _ hq => ?_
    subst hq
    refine Simulates.bind (setIndex_both _ _) fun _ _ => ?_
    refine Simulates.bind_of (onPages_both hfuel (deref_same fun mgr v h => ⟨h.1.2, by rw [h.1.1.1]⟩)) fun page _ hpage => ?_
    obtain ⟨rfl, rfl⟩ := hpage
    rw [hnode]
    cases h with
    | zero =>
      have hlevel : n.level = 1 := hn.level
      rw [if_pos hlevel, if_pos hlevel]
      obtain ⟨m, es, hl⟩ : ∃ m es, IsLeaf s false u m es := hsubs u hu
      exact .pure fun w v h => ⟨u.page, i, ⟨hhasU _ (hsubs u hu).page_mem, m, hl.page⟩, h.1, h.2.1, h.2.2.1.1⟩
    | succ h =>
      have hlevel : n.level ≠ 1 := by
        rw [hn.level]
        exact Int.zero_ne_one
      rw [if_neg hlevel] at hrest
      rw [if_neg hlevel, if_neg hlevel]
      have hdown := @ih i { this with currentPageNum := u.page, currentPageData := i }
        { that with currentPageNum := u.page, currentPageData := u.page } h false u (hsubs u hu) hhasU hlow
        (fun m hm => (hsubs u hu).not_stray hm) hsame rfl rfl
      refine hdown.weaken fun w v h => ⟨h.1, h.2.1, h.2.2.1.1, ?_⟩
      rw [hrest] at h
      exact h.2.2.2

omit [DecidableEq F] hL hfile hlinks in
/-- Nothing of the scan is in the tree. -/
theorem Tree.of_index {h : Nat} {t : Branch} (ht : Tree u h t) (hs : u.pages = s)
    (hheader : that.headerPageNum = u.index.headerPageNum) (hroot : that.rootPageNum = u.index.rootPageNum) :
    Tree ⟨that, s⟩ h t := by
  subst hs
  refine ⟨ht.subtree, hroot.trans ht.rootPageNum, ?_, ?_, ?_, ?_, ht.unallocated, ht.pages_lt, ht.pages_valid, ht.nodup,
    ht.sorted, ht.chain⟩
  · rw [hheader]
    exact ht.header
  · rw [hheader]
    exact ht.header_notMem
  · rw [hheader]
    exact ht.header_lt
  · rw [hheader]
    exact ht.header_valid

/-- `startScan` from the header page on. -/
private theorem scanRoot_both (fuel : Nat) {h : Nat} {t : Branch} (ht : Tree ⟨that, s⟩ h t) (hat : AtFile header root that)
    (hheader : this.headerPageNum = header) (hroot : this.rootPageNum = root) (hlow : that.lowValInt ≤ INT_MAX)
    (hstray : ¬ StrayRoot ⟨that, s⟩ that.lowValInt) (hlows : this.lowValInt = that.lowValInt)
    (hhighs : this.highValInt = that.highValInt) (hlowOps : this.lowOp = that.lowOp) (hhighOps : this.highOp = that.highOp) :
    KeepsPaired L hash on blob file header root s
      (Both this that fun mgr u => Mirrored L hash on blob file header [] [] s mgr u ∧
        SearchApart L hash file header root (searchPath s header root that.lowValInt fuel) mgr)
      (scanRoot (poolLayer L hash file) fuel) (scanRoot layer fuel) := by
  obtain rfl : t.page = root := ht.rootPageNum.symm.trans hat.2
  have hhas : ∀ p ∈ t.pages, s.Has p := fun p hp => ⟨ht.pages_valid p hp, ht.pages_lt p hp⟩
  have hroot' : s.Has t.page := hhas _ ht.subtree.page_mem
  have hheaderHas : s.Has header := by
    rw [← hat.1]
    exact ⟨ht.header_valid, ht.header_lt⟩
  have hisLeaf : decide ((s.pages header).asMetaInfo.height = 1) = (h == 0) := by
    rw [← hat.1]
    exact ht.isRootLeaf_eq
  rw [scanRoot, scanRoot]
  refine Simulates.bind (setIndex_both _ _) fun _ _ => ?_
  refine get_both fun w u hw hu => ?_
  rw [hw, hu]
  dsimp only
  rw [hheader, hroot, hat.1, hat.2]
  refine Simulates.bind_of (onPages_both outOfFuel_paired (readPage_then (N := fun i m => ∀ j m',
    P3.readPage L hash file t.page (stateAfter (P3.unPinPage hash file header false m)) = .ok j m' →
      Apart L hash file t.page j (searchPath s header t.page that.lowValInt fuel) m') hL hfile hheaderHas)) fun i _ hq => ?_
  subst hq
  refine Simulates.bind (setIndex_both _ _) fun _ _ => ?_
  refine Simulates.bind_of (onPages_both outOfFuel_paired (deref_same fun mgr v h => h.1.held List.mem_cons_self))
    fun page _ hmeta => ?_
  obtain ⟨rfl, rfl⟩ := hmeta
  refine Simulates.bind (onPages_both' outOfFuel_paired (unPinPage_then (N := fun mgr => ∀ j m,
    P3.readPage L hash file t.page mgr = .ok j m → Apart L hash file t.page j
      (searchPath s header t.page that.lowValInt fuel) m)))
    fun _ _ => ?_
  refine Simulates.bind (setIndex_both _ _) fun _ _ => ?_
  refine Simulates.bind_of (onPages_both outOfFuel_paired (readPage_then hL hfile hroot')) fun j _ hq => ?_
  subst hq
  refine Simulates.bind (setIndex_both _ _) fun _ _ => ?_
  rw [hisLeaf]
  cases h with
  | zero =>
    obtain ⟨n, es, hl⟩ : ∃ n es, IsLeaf s true t n es := ht.subtree
    have hleaf : s.HasLeaf t.page := ⟨hroot', n, hl.page⟩
    have hno : ¬ (0 == 0) = false := by decide
    rw [if_neg hno, if_neg hno]
    refine Simulates.weaken (scanLeaf_paired hL hfile hlinks ?_ ?_ ?_) fun w u h => ⟨h.1, h.2.1, h.2.2.1⟩
    · rfl
    · exact fun k => ⟨rfl, rfl, rfl, fun _ => ⟨rfl, rfl, rfl, hlows, hhighs, hlowOps, hhighOps⟩, fun _ => hleaf⟩
    · exact ⟨rfl, rfl⟩
  | succ h =>
    have hyes : (h + 1 == 0) = false := rfl
    rw [if_pos hyes, if_pos hyes]
    have hnot : ∀ n, s.pages t.page = .nonLeaf n → ¬ n.Stray that.lowValInt := fun n hn hn' => hstray (by
      rw [StrayRoot, ht.rootPageNum, hn]
      exact hn')
    have hpath : searchPath s header t.page that.lowValInt fuel = scanPath s that.lowValInt fuel t.page :=
      if_neg (of_decide_eq_false hisLeaf)
    rw [hpath]
    refine Simulates.bind (scanDescend_both hL hfile outOfFuel_paired fuel ht.subtree hhas hlow hnot hlows rfl rfl)
      fun _ _ => ?_
    refine .of_exists fun q => .of_exists fun k => ?_
    rintro w u ⟨hleaf, h⟩
    refine scanLeaf_paired hL hfile hlinks ?_ ?_ ?_ w u ⟨h.1, h.2.1, h.2.2⟩
    · rfl
    · exact fun k => ⟨rfl, rfl, rfl, fun _ => ⟨rfl, rfl, rfl, hlows, hhighs, hlowOps, hhighOps⟩, fun _ => hleaf⟩
    · exact ⟨rfl, rfl⟩

/-- `startScan`, when its search does not stray and the frames are apart. -/
theorem startScan_paired (fuel : Nat) {low high : Int} {lowOp highOp : Operator} {h : Nat} {t : Branch} (ht : Tree u h t)
    (hs : u.pages = s) (hat : AtFile header root u.index) (hlow : IsInt low) (hhigh : IsInt high)
    (hstray : ScanArgs low lowOp high highOp → ¬ StrayRoot u low) :
    KeepsPaired L hash on blob file header root s
      (fun w u => Paired L hash on blob file header root s w u ∧ (ScanArgs low lowOp high highOp →
        SearchApart L hash file header root (searchPath s header root low fuel) (atSearch hash file w.index w.pages)))
      (startScan (poolLayer L hash file) fuel low lowOp high highOp) (startScan layer fuel low lowOp high highOp) := by
  rintro w v ⟨⟨halike, hatV, hm⟩, happart⟩
  have hboth : Both w.index v.index (fun mgr t => Mirrored L hash on blob file header (scanPins w.index) [] s mgr t ∧
      (ScanArgs low lowOp high highOp → SearchApart L hash file header root (searchPath s header root low fuel)
        (atSearch hash file w.index mgr))) w v := ⟨rfl, rfl, hm, happart⟩
  revert hboth
  generalize w.index = this at halike
  generalize v.index = that at halike hatV
  refine fun hboth => (?_ : KeepsPaired L hash on blob file header root s (Both this that _) _ _) w v hboth
  have halike' : Alike s { this with lowOp := lowOp, highOp := highOp, lowValInt := low, highValInt := high }
      { that with lowOp := lowOp, highOp := highOp, lowValInt := low, highValInt := high } :=
    ⟨halike.header, halike.root, halike.executing, fun hexec =>
      { halike.scan hexec with lowOp := rfl, highOp := rfl, lowValInt := rfl, highValInt := rfl }, halike.leaf⟩
  by_cases hops : (lowOp ≠ .GT ∧ lowOp ≠ .GTE) ∨ (highOp ≠ .LT ∧ highOp ≠ .LTE)
  · rw [startScan_badOpcodes _ _ hops, startScan_badOpcodes _ _ hops]
    refine .throw fun w v h => .inr ?_
    exact Both.paired ⟨h.1, h.2.1, h.2.2.1⟩ halike hatV
  · rw [startScan_opcodes _ _ hops, startScan_opcodes _ _ hops]
    refine Simulates.bind (setIndex_both _ _) fun _ _ => ?_
    by_cases hrange : high < low
    · rw [if_pos hrange, if_pos hrange]
      refine .throw fun w v h => .inr ?_
      exact Both.paired ⟨h.1, h.2.1, h.2.2.1⟩ halike' hatV
    · rw [if_neg hrange, if_neg hrange]
      have hargs : ScanArgs low lowOp high highOp := by
        refine ⟨hlow, hhigh, Int.not_lt.mp hrange, ?_, ?_⟩
        · by_contra hno
          exact hops (.inl (not_or.mp hno))
        · by_contra hno
          exact hops (.inr (not_or.mp hno))
      refine get_both fun w v hw hv => ?_
      rw [hw, hv]
      dsimp only
      -- the scan before this one may be executing still
      have hrest : ∀ executing, KeepsPaired L hash on blob file header root s
          (Both { this with lowOp := lowOp, highOp := highOp, lowValInt := low, highValInt := high,
                            scanExecuting := executing }
            { that with lowOp := lowOp, highOp := highOp, lowValInt := low, highValInt := high,
                        scanExecuting := executing } fun mgr u =>
            Mirrored L hash on blob file header [] [] s mgr u ∧
              SearchApart L hash file header root (searchPath s header root low fuel) mgr)
          (scanRoot (poolLayer L hash file) fuel) (scanRoot layer fuel) := by
        intro executing
        refine scanRoot_both hL hfile hlinks fuel (ht.of_index hs (hatV.1.trans hat.1.symm) (hatV.2.trans hat.2.symm)) hatV
          (halike.header.trans hatV.1) (halike.root.trans hatV.2) hlow.2 (fun hstray' => hstray hargs ?_) rfl rfl rfl rfl
        rw [StrayRoot, hat.2, hs]
        rw [StrayRoot, hatV.2] at hstray'
        exact hstray'
      by_cases hexec : that.scanExecuting = true
      · have hthis := halike.executing.trans hexec
        rw [if_pos hexec, if_pos hthis]
        refine Simulates.bind ((endScan_both outOfFuel_paired halike' hexec).weaken fun w v h =>
          ⟨h.1, h.2.1, h.2.2.1, ?_⟩) fun _ _ => hrest false
        have happart := h.2.2.2 hargs
        rw [atSearch, if_pos hthis] at happart
        exact happart
      · have hidle := Bool.eq_false_iff.mpr hexec
        have hthis := halike.executing.trans hidle
        rw [if_neg hexec, if_neg (ne_true_of_eq_false hthis)]
        refine (hrest false).weaken fun w v h => ?_
        have happart := h.2.2.2 hargs
        rw [atSearch, if_neg (ne_true_of_eq_false hthis)] at happart
        have hpins := h.2.2.1
        rw [scanPins, if_neg (ne_true_of_eq_false hthis)] at hpins
        exact ⟨by rw [h.1, ← hthis], by rw [h.2.1, ← hidle], hpins, happart⟩

end Reads

end Scans

end Cs564.BTree
