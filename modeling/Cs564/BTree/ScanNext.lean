import Cs564.BTree.PoolRuns
import Cs564.BTree.Ranges

/-!
# From any position of a scan

`scanNext` returns the entry that the scan stands at and decides about the next one.  So from any entry of any leaf it
returns the rest of the range (`scanNext_rest`).  It reads the upper bound of the scan again in each call, and
`startScan` has stored the new bounds when it finds them to be wrong: the running scan goes on with them
(`rejected_startScan_iff`).
-/

namespace Cs564.BTree

open PageStore

/-! ### The rest of the range -/

/-- The pages of the leaves, from the leftmost one along `rightSibPageNo`; `none` if the links go in a circle. -/
def leafPageWalk (w : World PageStore PageId) : Option (List PageId) :=
  let metaInfo := (w.pages.pages w.index.headerPageNum).asMetaInfo
  walk w.pages.next INVALID_NUMBER w.pages.numPages (leftmostLeaf w.pages (metaInfo.height.toNat - 1) metaInfo.rootPageNo)

/-- The entries of a leaf page. -/
def leafEntries (s : PageStore) (p : PageId) : List RIDKeyPair := (s.pages p).asLeaf.entries

/-- A scan of the index `w` stands in front of entry `i` of the page `p`, which is its current page. -/
structure StandsAt (w scan : World PageStore PageId) (p : PageId) (i : Nat) : Prop where
  pages : scan.pages = w.pages
  scanExecuting : scan.index.scanExecuting = true
  currentPageNum : scan.index.currentPageNum = p
  currentPageData : scan.index.currentPageData = p
  nextEntry : scan.index.nextEntry = i

section Rest

variable {w scan : World PageStore PageId} {h : Nat} {t : Branch}

/-- From an entry within the upper bound on, the entries of the range stand in front. -/
private theorem filter_from {this : BTreeIndex PageId} {e : RIDKeyPair} {rest : List RIDKeyPair}
    (hs : (e :: rest).Pairwise fun a b => a.key < b.key) (he : withinHigh this e.key) :
    (e :: rest).filter (fun x => decide (withinHigh this x.key)) =
      e :: rest.takeWhile fun x => decide (withinHigh this x.key) := by
  have hfilter : rest.filter (fun x => decide (UpTo this.highValInt this.highOp x.key)) =
      rest.takeWhile fun x => decide (UpTo this.highValInt this.highOp x.key) := filter_upTo (List.pairwise_cons.1 hs).2
  rw [List.filter_cons_of_pos (by simpa using he)]
  exact congrArg (e :: ·) hfilter

/-- On an index that is a tree. -/
private theorem Tree.returns_rest (ht : Tree w h t) (hd : t.entries.Pairwise fun a b => a.key < b.key)
    {A B : List PageId} {p : PageId} (hleaves : t.leafPages = A ++ p :: B) {i : Nat}
    (hi : i < (leafEntries w.pages p).length)
    (hat : StandsAt w scan p i) (hwithin : withinHigh scan.index ((w.pages.pages p).asLeaf.keyArray i)) :
    ScanReturns layer scan
      ((((leafEntries w.pages p).drop i ++ B.flatMap (leafEntries w.pages)).filter fun x =>
        decide (withinHigh scan.index x.key)).map (·.rid)) := by
  obtain ⟨A', rest, hsplit, rfl, hrest⟩ := List.map_eq_append_iff.1 hleaves
  obtain ⟨⟨q, es⟩, B', rfl, rfl, rfl⟩ := List.map_eq_cons_iff.1 hrest
  obtain ⟨hlinked, hvalid, hne⟩ := ht.leaves_ready hsplit
  obtain ⟨n, hpage, hn, -⟩ := hlinked.1
  have hentries : ∀ l ∈ t.leaves, leafEntries w.pages l.1 = l.2 := ht.subtree.leaf_entries
  have hes : leafEntries w.pages q = es := hentries (q, es) (by simp [hsplit])
  have hB : (B'.map (·.1)).flatMap (leafEntries w.pages) = B'.flatMap (·.2) := by
    rw [List.flatMap_map]
    exact List.flatMap_congr fun l hl => hentries l (by simp [hsplit, hl])
  dsimp only at hi hwithin hpage hn ⊢
  rw [hes] at hi ⊢
  rw [hB]
  have hcut : es = es.take i ++ es[i] :: es.drop (i + 1) := by
    rw [← List.drop_eq_getElem_cons hi, List.take_append_drop]
  have hkey : withinHigh scan.index es[i].key := by
    rw [← hn.key_eq hi]
    rwa [hpage, asLeaf_leaf] at hwithin
  have hstand : ScanAt scan q (es.take i) es[i] (es.drop (i + 1)) B' := by
    refine ⟨hat.scanExecuting, ?_, hat.currentPageData, ?_, hvalid, hne⟩
    · rw [hat.nextEntry, List.length_take, Nat.min_eq_left (Nat.le_of_lt hi)]
    · rw [hat.pages, ← hcut]
      exact hlinked
  have hsorted : (es[i] :: (es.drop (i + 1) ++ B'.flatMap (·.2))).Pairwise fun a b => a.key < b.key := by
    rw [Branch.entries, hsplit, List.flatMap_append, List.flatMap_cons, hcut] at hd
    have hd' := (List.pairwise_append.1 hd).2.1
    rw [List.append_assoc] at hd'
    exact (List.pairwise_append.1 hd').2.1
  have hreturns := hstand.returns
  rw [List.drop_eq_getElem_cons hi, List.cons_append, filter_from hsorted hkey]
  exact hreturns

end Rest

/-- From any entry of any leaf that is within the upper bound, `scanNext` returns that entry and all later ones within the
bound, in the order of the leaves, and finds the scan completed then. -/
theorem scanNext_rest (index : BTreeIndex PageId) (relationName : Nat → Nat) (nameLength : Nat) (attrByteOffset : Int)
    (attrType : Datatype) (rel more : List (Int × RecordId))
    (hv : ∀ e ∈ rel ++ more, e.2.page_number ≠ INVALID_NUMBER) (hd : ((rel ++ more).map (·.1)).Nodup) :
    ∃ w leaves, (construct layer relationName nameLength attrByteOffset attrType rel >>= fun _ =>
          insertAll layer more) ⟨index, created⟩ = .ok () w ∧
      leafPageWalk w = some leaves ∧
      ∀ A p B, leaves = A ++ p :: B → ∀ i < (leafEntries w.pages p).length, ∀ scan, StandsAt w scan p i →
        withinHigh scan.index ((w.pages.pages p).asLeaf.keyArray i) →
        ScanReturns layer scan
          ((((leafEntries w.pages p).drop i ++ B.flatMap (leafEntries w.pages)).filter fun x =>
            decide (withinHigh scan.index x.key)).map (·.rid)) := by
  obtain ⟨w, h, t, hrun, ht, he, -⟩ := built index relationName nameLength attrByteOffset attrType rel more hv
  have hlt : t.entries.Pairwise fun a b => a.key < b.key := he ▸ contents_pairwise_lt hd
  exact ⟨w, _, hrun, ht.walk_eq, fun A p B hleaves i hi scan hat hwithin => ht.returns_rest hlt hleaves hi hat hwithin⟩

theorem scanNext_rest_two :
    ∃ w leaves, (construct layer (fun _ => 0) 0 0 .INTEGER [(7, ⟨1, 1, 0⟩)] >>= fun _ =>
          insertAll layer [(5, ⟨1, 2, 0⟩)]) ⟨uninitialized, created⟩ = .ok () w ∧
      leafPageWalk w = some leaves ∧
      ∀ A p B, leaves = A ++ p :: B → ∀ i < (leafEntries w.pages p).length, ∀ scan, StandsAt w scan p i →
        withinHigh scan.index ((w.pages.pages p).asLeaf.keyArray i) →
        ScanReturns layer scan
          ((((leafEntries w.pages p).drop i ++ B.flatMap (leafEntries w.pages)).filter fun x =>
            decide (withinHigh scan.index x.key)).map (·.rid)) :=
  scanNext_rest uninitialized _ _ _ _ _ _ (by decide) (by decide)

/-! ### Rejected calls of `startScan` -/

section Rejected

variable {σ Ptr : Type} (M : PageLayer σ Ptr)

/-- What successive calls of `scanNext` return or throw. -/
def scanNexts : Nat → World σ Ptr → List (Except Exc RecordId)
  | 0, _ => []
  | calls + 1, w =>
    match scanNext M w with
    | .ok rid w' => .ok rid :: scanNexts calls w'
    | .error e w' => .error e :: scanNexts calls w'

/-- A scan goes on to the entry behind the one it stands at, whatever its key is; returned is that key. -/
def scanAhead : EStateM Exc (World σ Ptr) (Option Int) := do
  let this := (← get).index
  let leaf := (← onPages (deref M this.currentPageData)).asLeaf
  let nextEntry := this.nextEntry.toNat
  if (leaf.ridArray (nextEntry + 1)).page_number = INVALID_NUMBER then
    if leaf.rightSibPageNo = INVALID_NUMBER then return none
    onPages (M.unPinPage this.currentPageNum false)
    let rightSibPageNo := (← onPages (deref M this.currentPageData)).asLeaf.rightSibPageNo
    setIndex fun this => { this with currentPageNum := rightSibPageNo }
    let currentPageData ← onPages (M.readPage rightSibPageNo)
    setIndex fun this => { this with currentPageData := currentPageData }
    let nextKey := (← onPages (deref M currentPageData)).asLeaf.keyArray 0
    setIndex fun this => { this with nextEntry := 0 }
    return some nextKey
  else
    setIndex fun this => { this with nextEntry := this.nextEntry + 1 }
    return some (leaf.keyArray (nextEntry + 1))

/-- The keys behind the entry that a scan stands at, along the leaves; as many as that number of calls can reach. -/
def keysAhead : Nat → World σ Ptr → List Int
  | 0, _ => []
  | calls + 1, w =>
    if w.index.nextEntry = -1 then [] else
      match scanAhead M w with
      | .ok (some k) w' => k :: keysAhead calls w'
      | .ok none _ => []
      | .error _ w' => keysAhead calls w'

/-- The two upper bounds cut the keys behind the entry of the scan at the same place. -/
def CutAlike (w : World σ Ptr) (high : Int) (highOp : Operator) : Prop :=
  ∀ calls, ((keysAhead M calls w).takeWhile fun k => decide (UpTo w.index.highValInt w.index.highOp k)).length =
    ((keysAhead M calls w).takeWhile fun k => decide (UpTo high highOp k)).length

/-- Other bounds of the scan. -/
def World.withBounds (w : World σ Ptr) (low : Int) (lowOp : Operator) (high : Int) (highOp : Operator) : World σ Ptr :=
  { w with index := { w.index with lowOp := lowOp, highOp := highOp, lowValInt := low, highValInt := high } }

/-- The record id of the entry that a scan stands at. -/
def World.outRid (w : World σ Ptr) : RecordId :=
  (M.load w.index.currentPageData w.pages).asLeaf.ridArray w.index.nextEntry.toNat

/-- The scan is completed. -/
def World.completed (w : World σ Ptr) : World σ Ptr := { w with index := { w.index with nextEntry := -1 } }

variable {w w' : World σ Ptr} {low high : Int} {lowOp highOp : Operator} {calls : Nat}

/-- `scanNext` moves the scan on, and completes it if that entry is not within the bound. -/
theorem scanNext_ahead (hexec : w.index.scanExecuting = true) (hnext : w.index.nextEntry ≠ -1) :
    scanNext M w =
      match scanAhead M w with
      | .ok none w' => .ok (w.outRid M) w'.completed
      | .ok (some k) w' => .ok (w.outRid M) (if withinHigh w.index k then w' else w'.completed)
      | .error e w' => .error e w' := by
  have hexec' : ¬ w.index.scanExecuting = false := by simp [hexec]
  simp only [scanNext, scanAhead, run_bind, run_get, if_neg hexec', if_neg hnext, onPages, deref]
  split
  · split
    · rfl
    · simp only [run_bind, onPages]
      cases M.unPinPage w.index.currentPageNum false w.pages with
      | error e s => rfl
      | ok _ s =>
        simp only [run_setIndex, deref]
        cases M.readPage (M.load w.index.currentPageData s).asLeaf.rightSibPageNo s with
        | error e s => rfl
        | ok ptr s =>
          simp only [run_pure]
          split
          · rename_i hk
            rw [if_pos (show withinHigh w.index _ from hk)]
            rfl
          · rename_i hk
            rw [if_neg (show ¬ withinHigh w.index _ from hk)]
            rfl
  · simp only [run_bind, run_setIndex, run_pure]
    split <;> rfl

/-- Moving on does not depend on the bounds. -/
theorem scanAhead_withBounds : scanAhead M (w.withBounds low lowOp high highOp) =
    match scanAhead M w with
    | .ok k w' => .ok k (w'.withBounds low lowOp high highOp)
    | .error e w' => .error e (w'.withBounds low lowOp high highOp) := by
  simp only [scanAhead, run_bind, run_get, onPages, deref, World.withBounds]
  split
  · split
    · rfl
    · simp only [run_bind, onPages]
      cases M.unPinPage w.index.currentPageNum false w.pages with
      | error e s => rfl
      | ok _ s =>
        simp only [run_setIndex, deref]
        cases M.readPage (M.load w.index.currentPageData s).asLeaf.rightSibPageNo s with
        | error e s => rfl
        | ok ptr s => rfl
  · rfl

/-- Moving on changes neither the bounds nor that the scan is executing, and a scan that moved on is not completed. -/
private structure MovedOn (w w' : World σ Ptr) : Prop where
  scanExecuting : w'.index.scanExecuting = w.index.scanExecuting
  highValInt : w'.index.highValInt = w.index.highValInt
  highOp : w'.index.highOp = w.index.highOp
  nextEntry : 0 ≤ w.index.nextEntry → 0 ≤ w'.index.nextEntry

/-- The calls of the layer throw none of the exceptions that the index has for its callers. -/
structure PageLayer.Undocumented : Prop where
  readPage : ∀ p s e s', M.readPage p s = .error e s' → ¬ e.Documented
  unPinPage : ∀ p dirty s e s', M.unPinPage p dirty s = .error e s' → ¬ e.Documented

variable {M}

private theorem scanAhead_movedOn (hM : M.Undocumented) :
    Ends (fun _ w' => MovedOn w w') (fun e w' => ¬ e.Documented ∧ MovedOn w w') (scanAhead M w) := by
  simp only [scanAhead, run_bind, run_get, onPages, deref]
  split
  · split
    · exact ⟨rfl, rfl, rfl, id⟩
    · simp only [run_bind, onPages]
      cases hunpin : M.unPinPage w.index.currentPageNum false w.pages with
      | error e s => exact ⟨hM.unPinPage _ _ _ _ _ hunpin, rfl, rfl, rfl, id⟩
      | ok _ s =>
        simp only [run_setIndex, deref]
        cases hread : M.readPage (M.load w.index.currentPageData s).asLeaf.rightSibPageNo s with
        | error e s' => exact ⟨hM.readPage _ _ _ _ hread, rfl, rfl, rfl, id⟩
        | ok ptr s' => exact ⟨rfl, rfl, rfl, fun _ => Int.le_refl 0⟩
  · exact ⟨rfl, rfl, rfl, fun hpos => Int.le_trans hpos (Int.le_add_one (Int.le_refl _))⟩

private theorem scanNexts_completed (hexec : w.index.scanExecuting = true) (hnext : w.index.nextEntry = -1) :
    scanNexts M calls w = List.replicate calls (.error .indexScanCompleted) := by
  have hexec' : ¬ w.index.scanExecuting = false := by simp [hexec]
  have hrun : scanNext M w = .error .indexScanCompleted w := by
    simp only [scanNext, run_bind, run_get, if_neg hexec', if_pos hnext, run_throw]
  induction calls with
  | zero => rfl
  | succ calls ih =>
    rw [scanNexts, hrun, List.replicate_succ]
    exact congrArg _ ih

/-- The first call and the calls after it. -/
private theorem scanNexts_succ (hM : M.Undocumented) (hexec : w.index.scanExecuting = true) (hnext : 0 ≤ w.index.nextEntry) :
    scanNexts M (calls + 1) w =
      match scanAhead M w with
      | .ok none _ => .ok (w.outRid M) :: List.replicate calls (.error .indexScanCompleted)
      | .ok (some k) w' => .ok (w.outRid M) ::
          if withinHigh w.index k then scanNexts M calls w' else List.replicate calls (.error .indexScanCompleted)
      | .error e w' => .error e :: scanNexts M calls w' := by
  have hmoved : Ends (fun _ w' => MovedOn w w') (fun e w' => ¬ e.Documented ∧ MovedOn w w') (scanAhead M w) :=
    scanAhead_movedOn hM
  rw [scanNexts, scanNext_ahead M hexec (by omega)]
  cases hahead : scanAhead M w with
  | error e w' => rfl
  | ok k w' =>
    rw [hahead] at hmoved
    have hcompleted : scanNexts M calls w'.completed = List.replicate calls (.error .indexScanCompleted) :=
      scanNexts_completed (hmoved.scanExecuting.trans hexec) rfl
    cases k with
    | none => exact congrArg _ hcompleted
    | some k =>
      dsimp only
      split
      · rfl
      · exact congrArg _ hcompleted

/-- The first result of a scan that is not completed is not that it is. -/
private theorem scanNexts_ne_completed (hM : M.Undocumented) (hexec : w.index.scanExecuting = true)
    (hnext : 0 ≤ w.index.nextEntry) :
    scanNexts M (calls + 1) w ≠ List.replicate (calls + 1) (.error .indexScanCompleted) := by
  have hmoved : Ends (fun _ w' => MovedOn w w') (fun e w' => ¬ e.Documented ∧ MovedOn w w') (scanAhead M w) :=
    scanAhead_movedOn hM
  rw [scanNexts_succ hM hexec hnext, List.replicate_succ]
  cases hahead : scanAhead M w with
  | error e w' =>
    rw [hahead] at hmoved
    intro heq
    have he : e = .indexScanCompleted := Except.error.inj (List.cons.inj heq).1
    exact hmoved.1 (by simp [he, Exc.Documented])
  | ok k w' =>
    cases k with
    | none =>
      intro heq
      cases (List.cons.inj heq).1
    | some k =>
      intro heq
      cases (List.cons.inj heq).1

/-- With other bounds a scan returns and throws the same if and only if the two upper bounds cut the keys ahead at the same
place; by induction on the calls. -/
private theorem scanNexts_withBounds_iff (hM : M.Undocumented) (hexec : w.index.scanExecuting = true)
    (hnext : 0 ≤ w.index.nextEntry) :
    scanNexts M (calls + 1) (w.withBounds low lowOp high highOp) = scanNexts M (calls + 1) w ↔
      ((keysAhead M calls w).takeWhile fun k => decide (UpTo w.index.highValInt w.index.highOp k)).length =
        ((keysAhead M calls w).takeWhile fun k => decide (UpTo high highOp k)).length := by
  induction calls generalizing w with
  | zero =>
    refine iff_of_true ?_ rfl
    have hbounds : scanNexts M 1 (w.withBounds low lowOp high highOp) = _ := scanNexts_succ hM hexec hnext
    rw [hbounds, scanNexts_succ hM hexec hnext, scanAhead_withBounds]
    cases scanAhead M w with
    | error e w' => rfl
    | ok k w' =>
      cases k with
      | none => rfl
      | some k =>
        dsimp only
        split <;> split <;> rfl
  | succ calls ih =>
    have hmoved : Ends (fun _ w' => MovedOn w w') (fun e w' => ¬ e.Documented ∧ MovedOn w w') (scanAhead M w) :=
      scanAhead_movedOn hM
    have hbounds : scanNexts M (calls + 2) (w.withBounds low lowOp high highOp) = _ := scanNexts_succ hM hexec hnext
    have hkeys : keysAhead M (calls + 1) w =
        match scanAhead M w with
        | .ok (some k) w' => k :: keysAhead M calls w'
        | .ok none _ => []
        | .error _ w' => keysAhead M calls w' := by
      have hopen : w.index.nextEntry ≠ -1 := by omega
      rw [keysAhead, if_neg hopen]
    rw [hbounds, scanNexts_succ hM hexec hnext, scanAhead_withBounds, hkeys]
    cases hahead : scanAhead M w with
    | error e w' =>
      rw [hahead] at hmoved
      have hrest := ih (hmoved.2.scanExecuting.trans hexec) (hmoved.2.nextEntry hnext)
      rw [hmoved.2.highValInt, hmoved.2.highOp] at hrest
      simpa using hrest
    | ok k w' =>
      rw [hahead] at hmoved
      cases k with
      | none => exact iff_of_true rfl rfl
      | some k =>
        have hexec' := hmoved.scanExecuting.trans hexec
        have hnext' := hmoved.nextEntry hnext
        have hrest := ih hexec' hnext'
        rw [hmoved.highValInt, hmoved.highOp] at hrest
        have hcompleted : scanNexts M (calls + 1) w' ≠ List.replicate (calls + 1) (.error .indexScanCompleted) :=
          scanNexts_ne_completed hM hexec' hnext'
        have hcompleted' : scanNexts M (calls + 1) (w'.withBounds low lowOp high highOp) ≠
            List.replicate (calls + 1) (.error .indexScanCompleted) := scanNexts_ne_completed hM hexec' hnext'
        have hnew : withinHigh (w.withBounds low lowOp high highOp).index k ↔ UpTo high highOp k := Iff.rfl
        have hold : withinHigh w.index k ↔ UpTo w.index.highValInt w.index.highOp k := Iff.rfl
        have hrid : (w.withBounds low lowOp high highOp).outRid M = w.outRid M := rfl
        dsimp only
        by_cases h₁ : UpTo w.index.highValInt w.index.highOp k
        · by_cases h₂ : UpTo high highOp k
          · simpa [hnew, hold, h₁, h₂, hrid] using hrest
          · simpa [hnew, hold, h₁, h₂, hrid] using hcompleted.symm
        · by_cases h₂ : UpTo high highOp k
          · simpa [hnew, hold, h₁, h₂, hrid] using hcompleted'
          · simp [hnew, hold, h₁, h₂, hrid]

/-! ### Which calls are rejected -/

section Rejects

/-- The exception is not about the arguments of a scan. -/
private def Exc.Later (e : Exc) : Prop := e ≠ .badOpcodes ∧ e ≠ .badScanrange

private theorem Exc.later_of_undocumented {e : Exc} (he : ¬ e.Documented) : e.Later := by
  refine ⟨?_, ?_⟩
  · rintro rfl
    exact he (.inl rfl)
  · rintro rfl
    exact he (.inr (.inl rfl))

/-- The code throws nothing about the arguments of a scan. -/
private def Accepting {τ α : Type} (x : EStateM Exc τ α) : Prop :=
  Triple (fun _ => True) x (fun _ _ => True) fun e _ => e.Later

variable {τ α β : Type}

private theorem Accepting.bind {x : EStateM Exc τ α} {f : α → EStateM Exc τ β} (h : Accepting x)
    (hf : ∀ a, Accepting (f a)) : Accepting (x >>= f) := Triple.bind h hf

private theorem Accepting.throw {e : Exc} (he : e.Later) : Accepting (throw e : EStateM Exc τ α) := fun _ _ => he

private theorem Accepting.get_bind {f : τ → EStateM Exc τ α} (hf : ∀ s, Accepting (f s)) : Accepting (get >>= f) :=
  Triple.get_bind fun s₀ _ s _ => hf s₀ s trivial

private theorem accepting_setIndex (f : BTreeIndex Ptr → BTreeIndex Ptr) :
    Accepting (setIndex f : EStateM Exc (World σ Ptr) Unit) := fun _ _ => trivial

private theorem accepting_deref (ptr : Ptr) : Accepting (onPages (deref M ptr) : EStateM Exc (World σ Ptr) Page) :=
  fun _ _ => trivial

private theorem accepting_onPages {x : EStateM Exc σ α} (h : ∀ s e s', x s = .error e s' → ¬ e.Documented) :
    Accepting (onPages x : EStateM Exc (World σ Ptr) α) := by
  intro w _
  rw [onPages]
  cases hrun : x w.pages with
  | ok a s => exact trivial
  | error e s => exact Exc.later_of_undocumented (h _ _ _ hrun)

variable (hM : M.Undocumented)
include hM

private theorem endScan_accepting : Accepting (endScan M) := by
  rw [endScan]
  refine .get_bind fun w => ?_
  by_cases hexec : w.index.scanExecuting = false
  · simp only [if_pos hexec]
    exact .throw (by simp [Exc.Later])
  · simp only [if_neg hexec]
    exact (accepting_setIndex _).bind fun _ => accepting_onPages (hM.unPinPage _ _)

/-- By induction on the rounds. -/
private theorem scanDescend_accepting (fuel : Nat) (node : Ptr) : Accepting (scanDescend M fuel node) := by
  induction fuel generalizing node with
  | zero => exact .throw (by simp [Exc.Later])
  | succ fuel ih =>
    rw [scanDescend]
    refine .get_bind fun w => (accepting_deref _).bind fun page => ?_
    refine (accepting_onPages (hM.unPinPage _ _)).bind fun _ => (accepting_setIndex _).bind fun _ => ?_
    refine (accepting_onPages (hM.readPage _)).bind fun ptr => (accepting_setIndex _).bind fun _ => ?_
    refine (accepting_deref _).bind fun page' => ?_
    split
    · exact fun _ _ => trivial
    · exact ih ptr

private theorem scanLeaf_accepting : Accepting (scanLeaf M) := by
  have hthrow : Exc.Later .noSuchKeyFound := by simp [Exc.Later]
  rw [scanLeaf]
  refine .get_bind fun w => (accepting_deref _).bind fun page => (accepting_setIndex _).bind fun _ => ?_
  split
  · exact .throw hthrow
  · exact accepting_setIndex _
  · by_cases hsib : page.asLeaf.rightSibPageNo = INVALID_NUMBER
    · simp only [if_pos hsib]
      exact .throw hthrow
    · simp only [if_neg hsib]
      refine (accepting_onPages (hM.unPinPage _ _)).bind fun _ => (accepting_deref _).bind fun page' => ?_
      refine (accepting_setIndex _).bind fun _ => (accepting_onPages (hM.readPage _)).bind fun ptr => ?_
      exact accepting_setIndex _

private theorem scanRoot_accepting (fuel : Nat) : Accepting (scanRoot M fuel) := by
  rw [scanRoot]
  refine (accepting_setIndex _).bind fun _ => .get_bind fun w => ?_
  refine (accepting_onPages (hM.readPage _)).bind fun ptr => (accepting_setIndex _).bind fun _ => ?_
  refine (accepting_deref _).bind fun page => (accepting_onPages (hM.unPinPage _ _)).bind fun _ => ?_
  refine (accepting_setIndex _).bind fun _ => (accepting_onPages (hM.readPage _)).bind fun ptr' => ?_
  refine (accepting_setIndex _).bind fun _ => ?_
  split
  · exact (scanDescend_accepting hM fuel ptr').bind fun _ => scanLeaf_accepting hM
  · exact scanLeaf_accepting hM

/-- A rejected call leaves the index as it was, or with the bounds that it was called with. -/
theorem startScan_rejected (fuel : Nat) {e : Exc} (run : startScan M fuel low lowOp high highOp w = .error e w')
    (he : e = .badOpcodes ∨ e = .badScanrange) :
    ((lowOp ≠ .GT ∧ lowOp ≠ .GTE) ∨ (highOp ≠ .LT ∧ highOp ≠ .LTE)) ∧ w' = w ∨
      ¬ ((lowOp ≠ .GT ∧ lowOp ≠ .GTE) ∨ (highOp ≠ .LT ∧ highOp ≠ .LTE)) ∧ high < low ∧
        w' = w.withBounds low lowOp high highOp := by
  by_cases hops : (lowOp ≠ .GT ∧ lowOp ≠ .GTE) ∨ (highOp ≠ .LT ∧ highOp ≠ .LTE)
  · rw [startScan_badOpcodes _ _ hops] at run
    exact .inl ⟨hops, (EStateM.Result.error.inj run).2.symm⟩
  · refine .inr ⟨hops, ?_⟩
    rw [startScan_opcodes _ _ hops, run_bind, run_setIndex] at run
    by_cases hrange : high < low
    · rw [if_pos hrange] at run
      exact ⟨hrange, (EStateM.Result.error.inj run).2.symm⟩
    · rw [if_neg hrange] at run
      have hrest : Accepting (do
          let w ← get
          if w.index.scanExecuting = true then do
            endScan M
            scanRoot M fuel
          else scanRoot M fuel) := by
        refine .get_bind fun w => ?_
        split
        · exact (endScan_accepting hM).bind fun _ => scanRoot_accepting hM fuel
        · exact scanRoot_accepting hM fuel
      have hlater : e.Later := Triple.error_run hrest trivial run
      rcases he with rfl | rfl
      · exact absurd rfl hlater.1
      · exact absurd rfl hlater.2

end Rejects

/-- What a rejected call does to the scan that is executing, over any layer. -/
private theorem rejected_iff (hM : M.Undocumented) (hexec : w.index.scanExecuting = true) (hnext : -1 ≤ w.index.nextEntry)
    {fuel : Nat} {e : Exc} (run : startScan M fuel low lowOp high highOp w = .error e w')
    (he : e = .badOpcodes ∨ e = .badScanrange) :
    (∀ calls, scanNexts M calls w' = scanNexts M calls w) ↔
      ((lowOp ≠ .GT ∧ lowOp ≠ .GTE) ∨ (highOp ≠ .LT ∧ highOp ≠ .LTE)) ∨ CutAlike M w high highOp := by
  rcases startScan_rejected hM fuel run he with ⟨hops, rfl⟩ | ⟨hops, -, rfl⟩
  · exact iff_of_true (fun _ => rfl) (.inl hops)
  rw [or_iff_right hops]
  by_cases hdone : w.index.nextEntry = -1
  · refine iff_of_true (fun calls => ?_) fun calls => ?_
    · have hbounds : scanNexts M calls (w.withBounds low lowOp high highOp) = _ := scanNexts_completed hexec hdone
      rw [hbounds, scanNexts_completed hexec hdone]
    · cases calls with
      | zero => rfl
      | succ calls =>
        rw [keysAhead, if_pos hdone]
        rfl
  · have hstep : ∀ calls, scanNexts M (calls + 1) (w.withBounds low lowOp high highOp) = scanNexts M (calls + 1) w ↔
        ((keysAhead M calls w).takeWhile fun k => decide (UpTo w.index.highValInt w.index.highOp k)).length =
          ((keysAhead M calls w).takeWhile fun k => decide (UpTo high highOp k)).length :=
      fun calls => scanNexts_withBounds_iff hM hexec (by omega)
    refine ⟨fun h calls => (hstep calls).mp (h (calls + 1)), fun h calls => ?_⟩
    cases calls with
    | zero => rfl
    | succ calls => exact (hstep calls).mpr (h calls)

end Rejected

section RejectedPool

open P2 (BufMgr)
open P3 (FileLayer BlobFile)

variable {F σ : Type} [DecidableEq F]

theorem poolLayer_undocumented (L : FileLayer F Page σ) (hash : F → PageId → Nat) (file : F) :
    (poolLayer L hash file).Undocumented := by
  have hcall : ∀ {α : Type} {call : P2.BufM F Page σ α} s e s', onPool call s = .error e s' → ¬ e.Documented := by
    intro α call s e s' run
    obtain ⟨e', -, rfl⟩ := onPool_error run
    exact Exc.ofBufError_undocumented e'
  exact ⟨fun _ => hcall, fun _ _ => hcall⟩

/-- A call of `startScan` that throws at its arguments does not disturb the scan that is executing if and only if the
operators are rejected, or the new upper bound cuts the keys ahead of the scan where the old one does. -/
theorem rejected_startScan_iff (L : FileLayer F Page σ) (hash : F → PageId → Nat) (file : F)
    {w w' : World (BufMgr F Page σ) FrameId} (hexec : w.index.scanExecuting = true) (hnext : -1 ≤ w.index.nextEntry)
    {fuel : Nat} {low high : Int} {lowOp highOp : Operator} {e : Exc}
    (run : startScan (poolLayer L hash file) fuel low lowOp high highOp w = .error e w')
    (he : e = .badOpcodes ∨ e = .badScanrange) :
    (∀ calls, scanNexts (poolLayer L hash file) calls w' = scanNexts (poolLayer L hash file) calls w) ↔
      ((lowOp ≠ .GT ∧ lowOp ≠ .GTE) ∨ (highOp ≠ .LT ∧ highOp ≠ .LTE)) ∨ CutAlike (poolLayer L hash file) w high highOp :=
  rejected_iff (poolLayer_undocumented L hash file) hexec hnext run he

/-- A scan up to 2 of the keys 1, 2 and 3. -/
private def scanUpToTwo : EStateM Exc (World (BufMgr Bool Page (Bool → BlobFile Page)) FrameId) (Option RecordId) :=
  construct twoFilesPool (fun _ => 0) 0 0 .INTEGER [(1, ⟨7, 1, 0⟩), (2, ⟨7, 2, 0⟩), (3, ⟨7, 3, 0⟩)] >>= fun _ =>
    (Call.startScan 1 .GTE 2 .LTE).run twoFilesPool (fun _ => 0) 0

private theorem scanUpToTwo_reached {w : World (BufMgr Bool Page (Bool → BlobFile Page)) FrameId} {rid : Option RecordId}
    (run : scanUpToTwo (newWorld 3) = .ok rid w) : ∃ w₁, SmallOpens 3 w₁ ∧ SmallRun w₁ w := by
  obtain ⟨u, w₁, hconstruct, hscan⟩ := bind_ok_cases run
  exact ⟨w₁, .constructed (by decide) hconstruct, Run.start.returned trivial hscan⟩

/-- A rejected call with the same upper bound. -/
theorem rejected_startScan_same : ∃ w₁ w w', SmallOpens 3 w₁ ∧ SmallRun w₁ w ∧ w.index.scanExecuting = true ∧
    startScan twoFilesPool 0 9 .GTE 2 .LTE w = .error .badScanrange w' ∧
    ∀ calls, scanNexts twoFilesPool calls w' = scanNexts twoFilesPool calls w := by
  have hreturned : returned (fun _ w => w.index.scanExecuting && decide (w.index.nextEntry = 0) &&
      decide (w.index.highValInt = 2) && decide (w.index.highOp = .LTE) &&
      threw (fun e _ => decide (e = .badScanrange)) (startScan twoFilesPool 0 9 .GTE 2 .LTE w))
      (scanUpToTwo (newWorld 3)) = true := by decide +kernel
  obtain ⟨rid, w, hrun, hall⟩ := exists_ok hreturned
  simp only [Bool.and_eq_true, decide_eq_true_eq] at hall
  obtain ⟨⟨⟨⟨hexec, hnext⟩, hhigh⟩, hhighOp⟩, hthrew⟩ := hall
  obtain ⟨w₁, hopens, hreached⟩ := scanUpToTwo_reached hrun
  obtain ⟨e, w', hstart, he⟩ := exists_error hthrew
  rw [of_decide_eq_true he] at hstart
  refine ⟨w₁, w, w', hopens, hreached, hexec, hstart, ?_⟩
  refine (rejected_startScan_iff twoFiles _ true hexec (by omega) hstart (.inr rfl)).mpr (.inr fun calls => ?_)
  rw [hhigh, hhighOp]

/-- A rejected call with a larger upper bound: the scan that ended at the key 2 goes on to the key 3. -/
theorem rejected_startScan_disturbs : ∃ w₁ w w', SmallOpens 3 w₁ ∧ SmallRun w₁ w ∧ w.index.scanExecuting = true ∧
    startScan twoFilesPool 0 9 .GTE 3 .LTE w = .error .badScanrange w' ∧
    scanNexts twoFilesPool 3 w = [.ok ⟨7, 1, 0⟩, .ok ⟨7, 2, 0⟩, .error .indexScanCompleted] ∧
    scanNexts twoFilesPool 3 w' = [.ok ⟨7, 1, 0⟩, .ok ⟨7, 2, 0⟩, .ok ⟨7, 3, 0⟩] := by
  have hreturned : returned (fun _ w => w.index.scanExecuting &&
      decide (scanNexts twoFilesPool 3 w = [.ok ⟨7, 1, 0⟩, .ok ⟨7, 2, 0⟩, .error .indexScanCompleted]) &&
      threw (fun e w' => decide (e = .badScanrange) &&
        decide (scanNexts twoFilesPool 3 w' = [.ok ⟨7, 1, 0⟩, .ok ⟨7, 2, 0⟩, .ok ⟨7, 3, 0⟩]))
        (startScan twoFilesPool 0 9 .GTE 3 .LTE w))
      (scanUpToTwo (newWorld 3)) = true := by decide +kernel
  obtain ⟨rid, w, hrun, hall⟩ := exists_ok hreturned
  simp only [Bool.and_eq_true, decide_eq_true_eq] at hall
  obtain ⟨⟨hexec, hundisturbed⟩, hthrew⟩ := hall
  obtain ⟨w₁, hopens, hreached⟩ := scanUpToTwo_reached hrun
  obtain ⟨e, w', hstart, he⟩ := exists_error hthrew
  simp only [Bool.and_eq_true, decide_eq_true_eq] at he
  obtain ⟨rfl, hdisturbed⟩ := he
  exact ⟨w₁, w, w', hopens, hreached, hexec, hstart, hundisturbed, hdisturbed⟩

end RejectedPool

end Cs564.BTree
