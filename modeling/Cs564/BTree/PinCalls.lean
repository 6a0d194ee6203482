import Cs564.BTree.PinRules
import Cs564.BTree.PoolSteps
import Cs564.BTree.Run

/-!
# The pins of the index calls

`Steady` before and after the methods of the index.  `insertEntry` gives back the pins that it takes, as the calls of the
manager keep the books of them (`steady_books`), and a scan keeps one pin on its current page.
When the pool is full, the pins that a call has taken so far stay (`Halts`).
-/

namespace Cs564.BTree

open P2 (BufError BufMgr)
open P3 (FileLayer BlobFile)

variable {F σ : Type} [DecidableEq F]

/-- A call gives up: the pool is full, or something happens that no exception of the index stands for.  When the pool is
full, the pins `pins` are still held. -/
structure Halts (L : FileLayer F Page σ) (hash : F → PageId → Nat) (on : F → Prop) (blob : σ → BlobFile Page) (file : F)
    (pins : List (PageId × FrameId)) (e : Exc) (mgr : BufMgr F Page σ) : Prop where
  exc : e = .bufferExceeded ∨ e = .indeterminate ∨ e = .hashAlreadyPresent ∨ e = .outOfFuel
  keeps : e = .bufferExceeded → ∃ more unsaved, Steady L hash on blob file (more ++ pins) unsaved mgr

variable {L : FileLayer F Page σ} {hash : F → PageId → Nat} {on : F → Prop} {blob : σ → BlobFile Page} {file : F}
  {pins : List (PageId × FrameId)} {unsaved : List PageId} {p q : PageId} {i : FrameId}

theorem Halts.pop {e : Exc} {mgr : BufMgr F Page σ} (h : Halts L hash on blob file ((p, i) :: pins) e mgr) :
    Halts L hash on blob file pins e mgr where
  exc := h.exc
  keeps he := by
    obtain ⟨more, unsaved, hsteady⟩ := h.keeps he
    refine ⟨more ++ [(p, i)], unsaved, ?_⟩
    rw [List.append_assoc, List.singleton_append]
    exact hsteady

/-- Without a word about pins that were there before. -/
theorem Halts.drop {e : Exc} {mgr : BufMgr F Page σ} (h : Halts L hash on blob file pins e mgr) :
    Halts L hash on blob file [] e mgr where
  exc := h.exc
  keeps he := by
    obtain ⟨more, unsaved, hsteady⟩ := h.keeps he
    refine ⟨more ++ pins, unsaved, ?_⟩
    rw [List.append_nil]
    exact hsteady

/-! ### The layer below the index -/

section Layer

variable {exc : Exc → BufMgr F Page σ → Prop}

theorem deref_pins (i : FrameId) : Triple (Steady L hash on blob file pins unsaved) (deref (poolLayer L hash file) i)
    (fun _ => Steady L hash on blob file pins unsaved) exc := fun _ h => h

theorem assign_pins (hfile : on file) (hmem : (p, i) ∈ pins) (page : Page) :
    Triple (Steady L hash on blob file pins unsaved) (assign (poolLayer L hash file) i page)
      (fun _ => Steady L hash on blob file pins (p :: unsaved)) exc := fun _ h => h.assigned hfile hmem page

/-- `unPinPage` does not throw at a page that is pinned. -/
theorem unPinPage_pins (dirty : Bool) (unsaved' : List PageId) (hsub : ∀ q ∈ unsaved, q ∈ unsaved' ∨ q = p ∧ dirty = true)
    (hpinned : ∀ q ∈ unsaved', q ∈ pages pins) :
    Triple (Steady L hash on blob file ((p, i) :: pins) unsaved) ((poolLayer L hash file).unPinPage p dirty)
      (fun _ => Steady L hash on blob file pins unsaved') exc := by
  intro mgr h
  have hi : mgr.Holds i file p := h.pinned (p, i) List.mem_cons_self
  have hpos := h.pos_of_mem hi (by rw [pages_cons]; exact List.mem_cons_self)
  have hrun : (poolLayer L hash file).unPinPage p dirty mgr = onPool (P3.unPinPage hash file p dirty) mgr := rfl
  rw [hrun, onPool]
  have hspec := P3.unPinPage_spec h.agree file p dirty
  cases hcall : P3.unPinPage hash file p dirty mgr with
  | ok _ m =>
    rw [hcall] at hspec
    cases hspec with
    | unpinned holds =>
      obtain rfl := h.agree.unique holds hi
      exact h.unpinned hsub hpinned
  | error e m =>
    rw [hcall] at hspec
    cases hspec with
    | absent absent => exact absurd hi (absent i)
    | notPinned holds zero =>
      obtain rfl := h.agree.unique holds hi
      exact absurd zero (Nat.ne_of_gt hpos)

variable (hL : Hosts L on blob) (hfile : on file)
include hL hfile

theorem readPage_pins (p : PageId) : Triple (Steady L hash on blob file pins unsaved) ((poolLayer L hash file).readPage p)
    (fun i => Steady L hash on blob file ((p, i) :: pins) unsaved) (Halts L hash on blob file pins) := by
  intro mgr h
  have hread := h.readPage hL hfile p
  have hrun : (poolLayer L hash file).readPage p mgr = onPool (P3.readPage L hash file p) mgr := rfl
  rw [hrun, onPool]
  cases hcall : P3.readPage L hash file p mgr with
  | ok i m =>
    rw [hcall] at hread
    exact hread
  | error e m =>
    rw [hcall] at hread
    obtain ⟨rfl, hm⟩ := hread
    exact ⟨.inl rfl, fun _ => ⟨[], unsaved, hm⟩⟩

theorem allocPage_pins : Triple (Steady L hash on blob file pins unsaved) (poolLayer L hash file).allocPage
    (fun new => Steady L hash on blob file (new :: pins) unsaved) (Halts L hash on blob file pins) := by
  intro mgr h
  have halloc := h.allocPage hL hfile
  have hrun : (poolLayer L hash file).allocPage mgr = onPool (P3.allocPage L hash file) mgr := rfl
  rw [hrun, onPool]
  cases hcall : P3.allocPage L hash file mgr with
  | ok new m =>
    rw [hcall] at halloc
    exact halloc
  | error e m =>
    rw [hcall] at halloc
    rcases halloc with ⟨rfl, hm⟩ | rfl | ⟨g, p, i, rfl⟩
    · exact ⟨.inl rfl, fun _ => ⟨[], unsaved, hm⟩⟩
    · exact ⟨.inr (.inl rfl), fun he => by cases he⟩
    · exact ⟨.inr (.inr (.inl rfl)), fun he => by cases he⟩

end Layer

/-- The pins on the pages of the index file, however many. -/
theorem steady_books (hL : Hosts L on blob) (hfile : on file) :
    Books (poolLayer L hash file) (Steady L hash on blob file) (fun _ => True) (Halts L hash on blob file) where
  readPage p _ := readPage_pins hL hfile p
  allocPage _ := allocPage_pins hL hfile
  unPinPage dirty unsaved' hsub hpinned := unPinPage_pins dirty unsaved' hsub hpinned
  assign hmem page := assign_pins hfile hmem page
  perm h hp := h.perm hp
  unsaved h := h.unsaved
  pop h := h.pop
  outOfFuel := ⟨.inr (.inr (.inr rfl)), fun he => by cases he⟩

/-! ### The methods of the index -/

/-- The pin of a scan. -/
def scanPins (this : BTreeIndex FrameId) : List (PageId × FrameId) :=
  if this.scanExecuting then [(this.currentPageNum, this.currentPageData)] else []

/-- Between two calls the index holds the pin of its scan and no other, and its changes of pages are marked. -/
def Sound (L : FileLayer F Page σ) (hash : F → PageId → Nat) (on : F → Prop) (blob : σ → BlobFile Page) (file : F)
    (w : World (BufMgr F Page σ) FrameId) : Prop :=
  Steady L hash on blob file (scanPins w.index) [] w.pages

/-- The exceptions that `btree.h` documents. -/
def Exc.Documented (e : Exc) : Prop :=
  e = .badOpcodes ∨ e = .badScanrange ∨ e = .noSuchKeyFound ∨ e = .scanNotInitialized ∨ e = .indexScanCompleted

omit [DecidableEq F] in
theorem Exc.ofBufError_undocumented (e : BufError F) : ¬ (Exc.ofBufError e).Documented := by
  cases e with
  | file e => cases e <;> simp [Exc.ofBufError, Exc.Documented]
  | _ => simp [Exc.ofBufError, Exc.Documented]

theorem Halts.not_documented {e : Exc} {mgr : BufMgr F Page σ} (h : Halts L hash on blob file pins e mgr) :
    ¬ e.Documented := by
  rcases h.exc with rfl | rfl | rfl | rfl <;> simp [Exc.Documented]

/-- A call throws: it gives up, or a documented exception is thrown with nothing left over. -/
def Throws (L : FileLayer F Page σ) (hash : F → PageId → Nat) (on : F → Prop) (blob : σ → BlobFile Page) (file : F)
    (e : Exc) (w : World (BufMgr F Page σ) FrameId) : Prop :=
  Halts L hash on blob file [] e w.pages ∨ e.Documented ∧ Sound L hash on blob file w

section Methods

variable {w : World (BufMgr F Page σ) FrameId} (hL : Hosts L on blob) (hfile : on file)
include hL hfile

/-- How `insertEntry` throws: at its first call of the manager, or with a pin on the header page. -/
inductive InsertThrows (L : FileLayer F Page σ) (hash : F → PageId → Nat) (on : F → Prop) (blob : σ → BlobFile Page)
    (file : F) (pins : List (PageId × FrameId)) (w : World (BufMgr F Page σ) FrameId) (e : Exc) :
    World (BufMgr F Page σ) FrameId → Prop
  | atHeader {mgr : BufMgr F Page σ}
      (run : (poolLayer L hash file).readPage w.index.headerPageNum w.pages = .error e mgr) :
      InsertThrows L hash on blob file pins w e { w with pages := mgr }
  | later {w' : World (BufMgr F Page σ) FrameId} {i : FrameId} {mgr : BufMgr F Page σ}
      (run : (poolLayer L hash file).readPage w.index.headerPageNum w.pages = .ok i mgr)
      (halts : Halts L hash on blob file ((w.index.headerPageNum, i) :: pins) e w'.pages) :
      InsertThrows L hash on blob file pins w e w'

theorem insertEntryWithin_pins (depth : IndexMetaInfo → Nat) (key : Int) (rid : RecordId)
    (h : Steady L hash on blob file pins unsaved w.pages) :
    Ends (fun _ w' => (∃ r, w'.index = { w.index with rootPageNum := r }) ∧ Steady L hash on blob file pins unsaved w'.pages)
      (InsertThrows L hash on blob file pins w) (insertEntryWithin (poolLayer L hash file) depth key rid w) := by
  have hread := readPage_pins hL hfile w.index.headerPageNum w.pages h
  cases hrun : (poolLayer L hash file).readPage w.index.headerPageNum w.pages with
  | error e m =>
    rw [insertEntryWithin, run_bind_ok (run_get w)]
    dsimp only
    rw [run_bind_error (onPages_error hrun)]
    exact .atHeader hrun
  | ok i m =>
    rw [hrun] at hread
    have hrest := (steady_books hL hfile).insertEntryWithin depth key rid hrun hread h.unsaved fun _ _ => trivial
    cases hinsert : insertEntryWithin (poolLayer L hash file) depth key rid w with
    | ok _ w' =>
      rw [hinsert] at hrest
      exact hrest
    | error e w' =>
      rw [hinsert] at hrest
      exact .later hrun hrest

end Methods

/-! ### Scans -/

section Pieces

variable {τ Ptr : Type} (M : PageLayer τ Ptr) (fuel : Nat) {low high : Int} {lowOp highOp : Operator}

/-- The part of `startScan` from the header page on. -/
def scanRoot : EStateM Exc (World τ Ptr) Unit := do
  setIndex fun this => { this with scanExecuting := true, currentPageNum := this.headerPageNum }
  let this := (← get).index
  let metaPage ← onPages (M.readPage this.headerPageNum)
  setIndex fun this => { this with currentPageData := metaPage }
  let isRootLeaf := decide ((← onPages (deref M metaPage)).asMetaInfo.height = 1)
  onPages (M.unPinPage this.headerPageNum false)
  setIndex fun this => { this with currentPageNum := this.rootPageNum }
  let currentPageData ← onPages (M.readPage this.rootPageNum)
  setIndex fun this => { this with currentPageData := currentPageData }
  if isRootLeaf = false then
    scanDescend M fuel currentPageData
    scanLeaf M
  else scanLeaf M

theorem startScan_badOpcodes (h : (lowOp ≠ .GT ∧ lowOp ≠ .GTE) ∨ (highOp ≠ .LT ∧ highOp ≠ .LTE)) :
    startScan M fuel low lowOp high highOp = throw .badOpcodes := by
  unfold startScan
  by_cases hlow : lowOp ≠ .GT ∧ lowOp ≠ .GTE
  · simp only [if_pos hlow]
    rfl
  · simp only [if_neg hlow, if_pos (h.resolve_left hlow)]
    rfl

theorem startScan_opcodes (h : ¬ ((lowOp ≠ .GT ∧ lowOp ≠ .GTE) ∨ (highOp ≠ .LT ∧ highOp ≠ .LTE))) :
    startScan M fuel low lowOp high highOp = (do
      setIndex fun this => { this with lowOp := lowOp, highOp := highOp, lowValInt := low, highValInt := high }
      if high < low then throw .badScanrange
      else do
        let w ← get
        if w.index.scanExecuting = true then do
          endScan M
          scanRoot M fuel
        else scanRoot M fuel) := by
  unfold startScan
  simp only [if_neg (not_or.mp h).1, if_neg (not_or.mp h).2]
  rfl

end Pieces

section Scans

variable {w : World (BufMgr F Page σ) FrameId}

/-- A scan holds the pin of its current page. -/
def Scanning (L : FileLayer F Page σ) (hash : F → PageId → Nat) (on : F → Prop) (blob : σ → BlobFile Page) (file : F)
    (w : World (BufMgr F Page σ) FrameId) : Prop :=
  w.index.scanExecuting = true ∧
    Steady L hash on blob file [(w.index.currentPageNum, w.index.currentPageData)] [] w.pages

theorem Scanning.sound (h : Scanning L hash on blob file w) : Sound L hash on blob file w := by
  rw [Sound, scanPins, if_pos h.1]
  exact h.2

theorem Sound.scanning (h : Sound L hash on blob file w) (hexec : w.index.scanExecuting = true) :
    Scanning L hash on blob file w := by
  rw [Sound, scanPins, if_pos hexec] at h
  exact ⟨hexec, h⟩

theorem Sound.idle (h : Sound L hash on blob file w) (hexec : w.index.scanExecuting = false) :
    Steady L hash on blob file [] [] w.pages := by
  rw [Sound, scanPins, hexec] at h
  exact h

theorem Steady.sound_idle (h : Steady L hash on blob file [] [] w.pages) (hexec : w.index.scanExecuting = false) :
    Sound L hash on blob file w := by
  rw [Sound, scanPins, hexec]
  exact h

private theorem At.scanning {this : BTreeIndex FrameId} (h : At this (Steady L hash on blob file [(p, i)] []) w)
    (hexec : this.scanExecuting = true) (hpage : this.currentPageNum = p) (hdata : this.currentPageData = i) :
    Scanning L hash on blob file w := by
  obtain ⟨rfl, hsteady⟩ := h
  refine ⟨hexec, ?_⟩
  rw [hpage, hdata]
  exact hsteady

private theorem Scanning.at (h : Scanning L hash on blob file w) (s : World (BufMgr F Page σ) FrameId) (hs : s = w) :
    At w.index (Steady L hash on blob file [(w.index.currentPageNum, w.index.currentPageData)] []) s :=
  ⟨congrArg World.index hs, hs ▸ h.2⟩

theorem halts_throws {this : BTreeIndex FrameId} (e : Exc) (w : World (BufMgr F Page σ) FrameId)
    (_ : w.index = this) (h : Halts L hash on blob file [] e w.pages) : Throws L hash on blob file e w := .inl h

theorem unPinLast_pins {exc : Exc → BufMgr F Page σ → Prop} :
    Triple (Steady L hash on blob file [(p, i)] []) ((poolLayer L hash file).unPinPage p false)
      (fun _ => Steady L hash on blob file [] []) exc :=
  unPinPage_pins false [] (fun _ hr => .inl hr) fun _ hr => absurd hr List.not_mem_nil

/-- `endScan` gives back the pin of the scan. -/
theorem endScan_pins : Triple (Sound L hash on blob file) (endScan (poolLayer L hash file))
    (fun _ w => w.index.scanExecuting = false ∧ Steady L hash on blob file [] [] w.pages)
    (Throws L hash on blob file) := by
  rw [endScan]
  refine Triple.get_bind fun w hw => ?_
  by_cases hexec : w.index.scanExecuting = false
  · simp only [if_pos hexec]
    refine Triple.throw fun s hs => .inr ⟨?_, hs ▸ hw⟩
    exact .inr (.inr (.inr (.inl rfl)))
  · simp only [if_neg hexec]
    have hscan := hw.scanning (Bool.eq_true_of_not_eq_false hexec)
    refine Triple.weaken ?_ hscan.at
    refine Triple.bind (setIndex_at _) fun _ => ?_
    refine (onPages_at unPinLast_pins halts_throws).conseq (fun _ h => h) (fun _ w' h => ⟨?_, h.2⟩) fun _ _ h => h
    rw [h.1]

variable (hL : Hosts L on blob) (hfile : on file)
include hL hfile

/-- The descent of `startScan` holds one pin at a time; by induction on its rounds. -/
theorem scanDescend_pins (fuel : Nat) (node : FrameId) :
    Triple (Scanning L hash on blob file) (scanDescend (poolLayer L hash file) fuel node)
      (fun _ => Scanning L hash on blob file) (Throws L hash on blob file) := by
  induction fuel generalizing node with
  | zero => exact .throw fun _ _ => .inl ⟨.inr (.inr (.inr rfl)), fun he => by cases he⟩
  | succ fuel ih =>
    rw [scanDescend]
    refine Triple.get_bind fun w hw => ?_
    refine Triple.weaken ?_ hw.at
    refine Triple.bind (onPages_at (deref_pins node) halts_throws) fun page => ?_
    refine Triple.bind (onPages_at unPinLast_pins halts_throws) fun _ => ?_
    refine Triple.bind (setIndex_at _) fun _ => ?_
    refine Triple.bind (onPages_at (readPage_pins hL hfile _) halts_throws) fun i => ?_
    refine Triple.bind (setIndex_at _) fun _ => ?_
    refine Triple.bind (onPages_at (deref_pins node) halts_throws) fun page' => ?_
    split
    · exact .pure fun s hs => hs.scanning hw.1 rfl rfl
    · exact (ih i).weaken fun s hs => hs.scanning hw.1 rfl rfl

/-- The rest of `startScan` at the leaf. -/
theorem scanLeaf_pins : Triple (Scanning L hash on blob file) (scanLeaf (poolLayer L hash file))
    (fun _ => Scanning L hash on blob file) (Throws L hash on blob file) := by
  rw [scanLeaf]
  refine Triple.get_bind fun w hw => ?_
  refine Triple.weaken ?_ hw.at
  refine Triple.bind (onPages_at (deref_pins _) halts_throws) fun page => ?_
  refine Triple.bind (setIndex_at _) fun _ => ?_
  have hthrow : Exc.Documented .noSuchKeyFound := .inr (.inr (.inl rfl))
  split
  · exact .throw fun s hs => .inr ⟨hthrow, (hs.scanning hw.1 rfl rfl).sound⟩
  · exact (setIndex_at _).conseq (fun _ h => h) (fun _ s hs => hs.scanning hw.1 rfl rfl) fun _ _ h => h
  · by_cases hsib : page.asLeaf.rightSibPageNo = INVALID_NUMBER
    · simp only [if_pos hsib]
      exact .throw fun s hs => .inr ⟨hthrow, (hs.scanning hw.1 rfl rfl).sound⟩
    · simp only [if_neg hsib]
      refine Triple.bind (onPages_at unPinLast_pins halts_throws) fun _ => ?_
      refine Triple.bind (onPages_at (deref_pins _) halts_throws) fun page' => ?_
      refine Triple.bind (setIndex_at _) fun _ => ?_
      refine Triple.bind (onPages_at (readPage_pins hL hfile _) halts_throws) fun i => ?_
      exact (setIndex_at _).conseq (fun _ h => h) (fun _ s hs => hs.scanning hw.1 rfl rfl) fun _ _ h => h

/-- `startScan` from the header page on. -/
theorem scanRoot_pins (fuel : Nat) :
    Triple (fun w => Steady L hash on blob file [] [] w.pages) (scanRoot (poolLayer L hash file) fuel)
      (fun _ => Scanning L hash on blob file) (Throws L hash on blob file) := by
  rw [scanRoot]
  intro w hw
  refine Triple.bind (setIndex_at _) (fun _ => ?_) w (⟨rfl, hw⟩ : At w.index (Steady L hash on blob file [] []) w)
  refine Triple.get_bind fun w₁ hw₁ => ?_
  obtain ⟨hindex, hpages⟩ := hw₁
  refine Triple.weaken ?_ fun s hs => (⟨by rw [hs]; exact hindex, hs ▸ hpages⟩ :
    At { w.index with scanExecuting := true, currentPageNum := w.index.headerPageNum }
      (Steady L hash on blob file [] []) s)
  rw [hindex]
  refine Triple.bind (onPages_at (readPage_pins hL hfile _) halts_throws) fun metaPage => ?_
  refine Triple.bind (setIndex_at _) fun _ => ?_
  refine Triple.bind (onPages_at (deref_pins _) halts_throws) fun page => ?_
  refine Triple.bind (onPages_at unPinLast_pins halts_throws) fun _ => ?_
  refine Triple.bind (setIndex_at _) fun _ => ?_
  refine Triple.bind (onPages_at (readPage_pins hL hfile _) halts_throws) fun i => ?_
  refine Triple.bind (setIndex_at _) fun _ => ?_
  split
  · refine Triple.bind ((scanDescend_pins hL hfile fuel i).weaken fun s hs => hs.scanning rfl rfl rfl) fun _ => ?_
    exact scanLeaf_pins hL hfile
  · exact (scanLeaf_pins hL hfile).weaken fun s hs => hs.scanning rfl rfl rfl

/-- `startScan` holds the pin of its leaf, and gave back the one of the scan before it. -/
theorem startScan_pins (fuel : Nat) (low : Int) (lowOp : Operator) (high : Int) (highOp : Operator) :
    Triple (Sound L hash on blob file) (startScan (poolLayer L hash file) fuel low lowOp high highOp)
      (fun _ => Sound L hash on blob file) (Throws L hash on blob file) := by
  by_cases hops : (lowOp ≠ .GT ∧ lowOp ≠ .GTE) ∨ (highOp ≠ .LT ∧ highOp ≠ .LTE)
  · rw [startScan_badOpcodes _ _ hops]
    exact .throw fun w hw => .inr ⟨.inl rfl, hw⟩
  · rw [startScan_opcodes _ _ hops]
    have hbounds : Triple (Sound L hash on blob file) (setIndex fun this : BTreeIndex FrameId =>
        { this with lowOp := lowOp, highOp := highOp, lowValInt := low, highValInt := high })
        (fun _ => Sound L hash on blob file) (Throws L hash on blob file) := fun w hw => hw
    refine Triple.bind hbounds fun _ => ?_
    split
    · exact .throw fun w hw => .inr ⟨.inr (.inl rfl), hw⟩
    · refine Triple.get_bind fun w hw => ?_
      have hroot : Triple (fun w => Steady L hash on blob file [] [] w.pages) (scanRoot (poolLayer L hash file) fuel)
          (fun _ => Sound L hash on blob file) (Throws L hash on blob file) :=
            (scanRoot_pins hL hfile fuel).conseq (fun _ h => h) (fun _ _ h => h.sound) fun _ _ h => h
      split
      · refine Triple.bind ((endScan_pins).weaken fun s hs => hs ▸ hw) fun _ => ?_
        exact hroot.weaken fun s hs => hs.2
      · rename_i hexec
        exact hroot.weaken fun s hs => hs ▸ hw.idle (Bool.eq_false_iff.mpr hexec)

/-- `scanNext` moves the pin with the current page. -/
theorem scanNext_pins : Triple (Sound L hash on blob file) (scanNext (poolLayer L hash file))
    (fun _ => Sound L hash on blob file) (Throws L hash on blob file) := by
  rw [scanNext]
  refine Triple.get_bind fun w hw => ?_
  by_cases hexec : w.index.scanExecuting = false
  · simp only [if_pos hexec]
    exact .throw fun s hs => .inr ⟨.inr (.inr (.inr (.inl rfl))), hs ▸ hw⟩
  by_cases hcompleted : w.index.nextEntry = -1
  · simp only [if_neg hexec, if_pos hcompleted]
    exact .throw fun s hs => .inr ⟨.inr (.inr (.inr (.inr rfl))), hs ▸ hw⟩
  · simp only [if_neg hexec, if_neg hcompleted]
    have hscan := hw.scanning (Bool.eq_true_of_not_eq_false hexec)
    refine Triple.weaken ?_ hscan.at
    refine Triple.bind (onPages_at (deref_pins _) halts_throws) fun page => ?_
    split
    · split
      · refine Triple.bind (setIndex_at _) fun _ => ?_
        exact .pure fun s hs => (hs.scanning hscan.1 rfl rfl).sound
      · refine Triple.bind (onPages_at unPinLast_pins halts_throws) fun _ => ?_
        refine Triple.bind (onPages_at (deref_pins _) halts_throws) fun page' => ?_
        refine Triple.bind (setIndex_at _) fun _ => ?_
        refine Triple.bind (onPages_at (readPage_pins hL hfile _) halts_throws) fun i => ?_
        refine Triple.bind (setIndex_at _) fun _ => ?_
        refine Triple.bind (onPages_at (deref_pins _) halts_throws) fun page'' => ?_
        refine Triple.bind (setIndex_at _) fun _ => ?_
        exact .pure fun s hs => (hs.scanning hscan.1 rfl rfl).sound
    · refine Triple.bind (setIndex_at _) fun _ => ?_
      exact .pure fun s hs => (hs.scanning hscan.1 rfl rfl).sound

end Scans

end Cs564.BTree
