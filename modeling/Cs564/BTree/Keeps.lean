import Cs564.BTree.PinCalls

/-!
# What the scans keep

A scan reads pages and gives them back clean, and does not change what the index knows about its file.  So what
`readPage` and such an `unPinPage` keep is kept by `startScan`, `scanNext` and `endScan`, on every layer.
-/

namespace Cs564.BTree

variable {σ Ptr α β : Type} {M : PageLayer σ Ptr} {I : σ → Prop}

/-- The code keeps `I`, unless it gives up. -/
def Keeps (I : σ → Prop) (x : EStateM Exc σ α) : Prop := Triple I x (fun _ => I) fun e s => e.Documented → I s

theorem Keeps.bind {x : EStateM Exc σ α} {f : α → EStateM Exc σ β} (h : Keeps I x) (hf : ∀ a, Keeps I (f a)) :
    Keeps I (x >>= f) := Triple.bind h hf

theorem Keeps.pure (a : α) : Keeps I (pure a) := fun _ h => h

theorem Keeps.throw (e : Exc) : Keeps I (throw e : EStateM Exc σ α) := fun _ h _ => h

/-- Nothing that is kept is lost when the index only reads its state. -/
theorem Keeps.get_bind {f : σ → EStateM Exc σ α} (hf : ∀ s, Keeps I (f s)) : Keeps I (get >>= f) :=
  Triple.get_bind fun s₀ hs₀ s hs => hf s₀ s (hs ▸ hs₀)

theorem deref_keeps (ptr : Ptr) : Keeps I (deref M ptr) := fun _ h => h

/-- `P` holds of the data members and `I` of the pages. -/
def Over (P : BTreeIndex Ptr → Prop) (I : σ → Prop) (w : World σ Ptr) : Prop := I w.pages ∧ P w.index

variable {P : BTreeIndex Ptr → Prop}

theorem onPages_keeps {x : EStateM Exc σ α} (h : Keeps I x) : Keeps (Over P I) (onPages x) := by
  rintro w ⟨hpages, hindex⟩
  have hx := h w.pages hpages
  rw [onPages]
  cases hrun : x w.pages with
  | ok a s =>
    rw [hrun] at hx
    exact ⟨hx, hindex⟩
  | error e s =>
    rw [hrun] at hx
    exact fun hdoc => ⟨hx hdoc, hindex⟩

theorem setIndex_keeps {f : BTreeIndex Ptr → BTreeIndex Ptr} (hf : ∀ this, P this → P (f this)) :
    Keeps (Over P I) (setIndex f) := fun w h => ⟨h.1, hf w.index h.2⟩

/-! ### Scans -/

section Scans

/-- The index has these header and root pages. -/
def AtFile (header root : PageId) (this : BTreeIndex Ptr) : Prop :=
  this.headerPageNum = header ∧ this.rootPageNum = root

variable {header root : PageId} (hread : ∀ p, Keeps I (M.readPage p)) (hunpin : ∀ p, Keeps I (M.unPinPage p false))
include hunpin

theorem endScan_keeps : Keeps (Over (AtFile header root) I) (endScan M) := by
  rw [endScan]
  refine .get_bind fun w => ?_
  by_cases hexec : w.index.scanExecuting = false
  · simp only [if_pos hexec]
    exact .throw _
  · simp only [if_neg hexec]
    exact Keeps.bind (setIndex_keeps fun _ h => h) fun _ => onPages_keeps (hunpin _)

include hread

/-- By induction on the rounds. -/
theorem scanDescend_keeps (fuel : Nat) (node : Ptr) : Keeps (Over (AtFile header root) I) (scanDescend M fuel node) := by
  induction fuel generalizing node with
  | zero => exact .throw _
  | succ fuel ih =>
    rw [scanDescend]
    refine .get_bind fun w => ?_
    refine (onPages_keeps (deref_keeps _)).bind fun page => ?_
    refine (onPages_keeps (hunpin _)).bind fun _ => ?_
    refine Keeps.bind (setIndex_keeps fun _ h => h) fun _ => ?_
    refine (onPages_keeps (hread _)).bind fun ptr => ?_
    refine Keeps.bind (setIndex_keeps fun _ h => h) fun _ => ?_
    refine (onPages_keeps (deref_keeps _)).bind fun page' => ?_
    split
    · exact .pure _
    · exact ih ptr

theorem scanLeaf_keeps : Keeps (Over (AtFile header root) I) (scanLeaf M) := by
  rw [scanLeaf]
  refine .get_bind fun w => ?_
  refine (onPages_keeps (deref_keeps _)).bind fun page => ?_
  refine Keeps.bind (setIndex_keeps fun _ h => h) fun _ => ?_
  split
  · exact .throw _
  · exact setIndex_keeps fun _ h => h
  · by_cases hsib : page.asLeaf.rightSibPageNo = INVALID_NUMBER
    · simp only [if_pos hsib]
      exact .throw _
    · simp only [if_neg hsib]
      refine (onPages_keeps (hunpin _)).bind fun _ => ?_
      refine (onPages_keeps (deref_keeps _)).bind fun page' => ?_
      refine Keeps.bind (setIndex_keeps fun _ h => h) fun _ => ?_
      refine (onPages_keeps (hread _)).bind fun ptr => ?_
      exact setIndex_keeps fun _ h => h

theorem scanRoot_keeps (fuel : Nat) : Keeps (Over (AtFile header root) I) (scanRoot M fuel) := by
  rw [scanRoot]
  refine Keeps.bind (setIndex_keeps fun _ h => h) fun _ => ?_
  refine .get_bind fun w => ?_
  refine (onPages_keeps (hread _)).bind fun ptr => ?_
  refine Keeps.bind (setIndex_keeps fun _ h => h) fun _ => ?_
  refine (onPages_keeps (deref_keeps _)).bind fun page => ?_
  refine (onPages_keeps (hunpin _)).bind fun _ => ?_
  refine Keeps.bind (setIndex_keeps fun _ h => h) fun _ => ?_
  refine (onPages_keeps (hread _)).bind fun ptr' => ?_
  refine Keeps.bind (setIndex_keeps fun _ h => h) fun _ => ?_
  split
  · exact (scanDescend_keeps hread hunpin fuel ptr').bind fun _ => scanLeaf_keeps hread hunpin
  · exact scanLeaf_keeps hread hunpin

theorem startScan_keeps (fuel : Nat) (low : Int) (lowOp : Operator) (high : Int) (highOp : Operator) :
    Keeps (Over (AtFile header root) I) (startScan M fuel low lowOp high highOp) := by
  by_cases hops : (lowOp ≠ .GT ∧ lowOp ≠ .GTE) ∨ (highOp ≠ .LT ∧ highOp ≠ .LTE)
  · rw [startScan_badOpcodes _ _ hops]
    exact .throw _
  · rw [startScan_opcodes _ _ hops]
    refine Keeps.bind (setIndex_keeps fun _ h => h) fun _ => ?_
    split
    · exact .throw _
    · refine .get_bind fun w => ?_
      split
      · exact (endScan_keeps hunpin).bind fun _ => scanRoot_keeps hread hunpin fuel
      · exact scanRoot_keeps hread hunpin fuel

theorem scanNext_keeps : Keeps (Over (AtFile header root) I) (scanNext M) := by
  rw [scanNext]
  refine .get_bind fun w => ?_
  by_cases hexec : w.index.scanExecuting = false
  · simp only [if_pos hexec]
    exact .throw _
  by_cases hcompleted : w.index.nextEntry = -1
  · simp only [if_neg hexec, if_pos hcompleted]
    exact .throw _
  · simp only [if_neg hexec, if_neg hcompleted]
    refine (onPages_keeps (deref_keeps _)).bind fun page => ?_
    split
    · split
      · exact Keeps.bind (setIndex_keeps fun _ h => h) fun _ => .pure _
      · refine (onPages_keeps (hunpin _)).bind fun _ => ?_
        refine (onPages_keeps (deref_keeps _)).bind fun page' => ?_
        refine Keeps.bind (setIndex_keeps fun _ h => h) fun _ => ?_
        refine (onPages_keeps (hread _)).bind fun ptr => ?_
        refine Keeps.bind (setIndex_keeps fun _ h => h) fun _ => ?_
        refine (onPages_keeps (deref_keeps _)).bind fun page'' => ?_
        exact Keeps.bind (setIndex_keeps fun _ h => h) fun _ => .pure _
    · exact Keeps.bind (setIndex_keeps fun _ h => h) fun _ => .pure _

end Scans

end Cs564.BTree
