import Cs564.BTree.FirstSplit
import Cs564.BTree.Reopen
import Cs564.BTree.SearchFrames

/-!
# A level that is read from a leaf

An index over two leaves, whose left leaf starts with other keys than 1.  With clear frames a search for a key of the
left leaf ends there (`SplitOnce.descend`).  In a pool of one frame the search takes the first key of the left leaf for the
level of the root, and goes on to a page whose number it finds in the bytes of the leaf (`SplitOnce.descend_one`).
-/

namespace Cs564.BTree

open P2 (BufMgr)
open P3 (FileLayer BlobFile)
open PageStore

variable {F σ : Type} [DecidableEq F] {L : FileLayer F Page σ} {hash : F → PageId → Nat} {on : F → Prop}
  {blob : σ → BlobFile Page} {file : F} {bufs k fuel : Nat} {first : PageId} {u : World PageStore PageId} {t : Branch}
  {n : NonLeafNodeInt} {sep : Int} {a b : Branch} {j : FrameId} {w : World (BufMgr F Page σ) FrameId} {l : LeafNodeInt}

/-! ### The children -/

/-- A search for a key below all separators goes to the first child. -/
theorem scanChild_first {n : NonLeafNodeInt} {low : Int} (hlow : low < n.keyArray 0)
    (hkid : n.pageNoArray 0 ≠ INVALID_NUMBER) :
    scanChild n low = n.pageNoArray 0 := by
  have hpos : 0 < 1022 := by omega
  rw [scanChild_stop hpos (fun i hi => absurd hi (Nat.not_lt_zero i)) (.inl (Int.le_of_lt hlow)), if_pos hlow, if_neg hkid]

/-- A leaf that is read as a non-leaf. -/
theorem asNonLeaf_leaf (l : LeafNodeInt) :
    (Page.leaf l).asNonLeaf.level = l.keyArray 0 ∧ (Page.leaf l).asNonLeaf.keyArray 0 = l.keyArray 1 ∧
      (Page.leaf l).asNonLeaf.pageNoArray 0 = asUInt (asInt (l.ridArray 171).page_number) := by
  have hkey : ∀ k < INTARRAYLEAFSIZE, (Page.leaf l).word k = l.keyArray k := fun k hk => if_pos hk
  have hword : (Page.leaf l).word 1024 = asInt (l.ridArray 171).page_number := by
    simp [Page.word, INTARRAYLEAFSIZE, pageSize]
  have hpage : ∀ i, (Page.leaf l).asNonLeaf.pageNoArray i = asUInt ((Page.leaf l).word (1 + INTARRAYNONLEAFSIZE + i)) :=
    fun _ => rfl
  have hindex : 1 + INTARRAYNONLEAFSIZE + 0 = 1024 := by decide
  exact ⟨hkey 0 (by decide), hkey 1 (by decide), by rw [hpage, hindex, hword]⟩

theorem SplitOnce.has_left (hu : SplitOnce u t n sep a b) : u.pages.Has 2 := by
  rw [← hu.leftPage]
  exact hu.tree.has (hu.node.sub_pages List.mem_cons_self _ hu.left.page_mem)

section Descents

variable (hL : Hosts L on blob) (hfile : on file)
include hL hfile

/-- With a clear frame, a search for a key of the left leaf ends there. -/
theorem SplitOnce.descend (hu : SplitOnce u t n sep a b) (hn : u.pages.pages 4 = .nonLeaf n) (hfirst : n.pageNoArray 0 = 2)
    (hlevel : n.level = 1) (h : Calm L hash on blob file bufs (k + 1) first u.pages [(4, j)] w.pages) (hbufs : 0 < bufs)
    (hpage : w.index.currentPageNum = 4) (hlow : w.index.lowValInt < n.keyArray 0) :
    ∃ i m, Calm L hash on blob file bufs k first u.pages [(2, i)] m ∧
      scanDescend (poolLayer L hash file) (fuel + 1) j w =
        .ok () ⟨{ w.index with currentPageNum := 2, currentPageData := i }, m⟩ := by
  have hchild : scanChild (u.pages.pages 4).asNonLeaf w.index.lowValInt = 2 := by
    rw [hn, asNonLeaf_nonLeaf, scanChild_first hlow (by rw [hfirst]; decide), hfirst]
  obtain ⟨i, m, hcalm, hrun⟩ := h.scanDescend_apart hL hfile hbufs hpage (by rw [hchild]; exact hu.has_left)
    (by rw [hchild]; decide) fuel
  rw [hchild] at hcalm hrun
  rw [hn, asNonLeaf_nonLeaf, if_pos hlevel] at hrun
  exact ⟨i, m, hcalm, hrun⟩

/-- In a pool of one frame, the search takes the first key of the left leaf for the level of the root.  If it is not 1, the
search goes on to the page `q`, whose number is in the leaf where a non-leaf has its first child. -/
theorem SplitOnce.descend_one (hu : SplitOnce u t n sep a b) (hn : u.pages.pages 4 = .nonLeaf n)
    (hfirst : n.pageNoArray 0 = 2)
    (hl : u.pages.pages 2 = .leaf l) (h : Calm L hash on blob file 1 k first u.pages [(4, 0)] w.pages)
    (hpage : w.index.currentPageNum = 4) (hlow : w.index.lowValInt < n.keyArray 0) (hkey : l.keyArray 0 ≠ 1)
    (hlow' : w.index.lowValInt < l.keyArray 1) {q : PageId} (hq : asUInt (asInt (l.ridArray 171).page_number) = q)
    (hhas : u.pages.Has q) (hlevel : (u.pages.pages q).asNonLeaf.level = 1) :
    ∃ m, Calm L hash on blob file 1 (k - 1 - 1) first u.pages [(q, 0)] m ∧
      scanDescend (poolLayer L hash file) (fuel + 2) 0 w =
        .ok () ⟨{ w.index with currentPageNum := q, currentPageData := 0 }, m⟩ := by
  have hchild : scanChild (u.pages.pages 4).asNonLeaf w.index.lowValInt = 2 := by
    rw [hn, asNonLeaf_nonLeaf, scanChild_first hlow (by rw [hfirst]; decide), hfirst]
  obtain ⟨m₁, hcalm₁, hrun₁⟩ := h.scanDescend_one hL hfile hpage (by rw [hchild]; exact hu.has_left) (fuel + 1)
  obtain ⟨hlevel₂, hkey₂, hpage₂⟩ := asNonLeaf_leaf l
  rw [hchild] at hcalm₁ hrun₁
  rw [hl, if_neg (by rw [hlevel₂]; exact hkey)] at hrun₁
  -- the leaf is taken for a non-leaf
  have hchild₂ : scanChild (u.pages.pages 2).asNonLeaf w.index.lowValInt = q := by
    rw [hl, scanChild_first (by rw [hkey₂]; exact hlow') (by rw [hpage₂, hq]; exact hhas.1), hpage₂, hq]
  have hsecond : Calm L hash on blob file 1 (k - 1) first u.pages [(2, 0)]
      (⟨{ w.index with currentPageNum := 2, currentPageData := 0 }, m₁⟩ : World (BufMgr F Page σ) FrameId).pages := hcalm₁
  obtain ⟨m, hcalm, hrun⟩ := hsecond.scanDescend_one hL hfile rfl (by rw [hchild₂]; exact hhas) fuel
  rw [hchild₂] at hcalm hrun
  rw [if_pos hlevel] at hrun
  exact ⟨m, hcalm, hrun₁.trans hrun⟩

end Descents

/-! ### Such an index -/

/-- Pairs in ascending order stay as they are. -/
theorem contents_of_ascending {entries : List (Int × RecordId)} (h : entries.Pairwise fun x y => x.1 < y.1) :
    contents entries = pairs entries := by
  have hnodup : (entries.map (·.1)).Nodup := List.pairwise_map.mpr (h.imp fun hlt => Int.ne_of_lt hlt)
  have hpairs : (pairs entries).Pairwise fun x y => x.key < y.key := List.pairwise_map.mpr h
  refine (contents_perm entries).eq_of_pairwise (fun x y _ _ hxy hyx => ?_) (contents_pairwise_lt hnodup) hpairs
  exact absurd hyx (Int.lt_asymm hxy)

/-- Entries with keys from -340 on, all of them of records on page 3 of the relation. -/
def spread : List (Int × RecordId) := (List.range 682).map fun i : Nat => ((i : Int) - 340, ⟨3, i + 1, 0⟩)

theorem spread_valid : ∀ e ∈ spread, e.2.page_number ≠ INVALID_NUMBER := by
  intro e he
  obtain ⟨i, -, rfl⟩ := List.mem_map.mp he
  exact Nat.succ_ne_zero 2

theorem spread_length : spread.length = leafOccupancy + 1 := by
  rw [spread, List.length_map, List.length_range]
  rfl

theorem contents_spread : contents spread = pairs spread := by
  refine contents_of_ascending (List.pairwise_map.mpr (List.pairwise_lt_range.imp fun hlt => ?_))
  dsimp only
  omega

/-- The pairs in their order. -/
theorem pairs_spread (i : Nat) (hi : i < 682) : (pairs spread)[i]? = some ⟨⟨3, i + 1, 0⟩, (i : Int) - 340⟩ := by
  simp [pairs, spread, List.getElem?_map, List.getElem?_range hi]

theorem LeafHolds.at {es : List RIDKeyPair} {i : Nat} {x : RIDKeyPair} (h : LeafHolds l es) (hx : es[i]? = some x) :
    l.keyArray i = x.key ∧ l.ridArray i = x.rid := by
  obtain ⟨hi, rfl⟩ := List.getElem?_eq_some_iff.mp hx
  exact ⟨h.key_eq hi, h.rid_eq hi⟩

/-- What the searches read of the index over these entries: its root `n`, and its leaves `l` and `r`. -/
structure OverSpread (u : World PageStore PageId) (t : Branch) (n : NonLeafNodeInt) (sep : Int) (a b : Branch)
    (l r : LeafNodeInt) : Prop where
  split : SplitOnce u t n sep a b
  root : u.pages.pages 4 = .nonLeaf n
  level : n.level = 1
  firstChild : n.pageNoArray 0 = 2
  firstKey : n.keyArray 0 = 1
  left : u.pages.pages 2 = .leaf l
  right : u.pages.pages 3 = .leaf r
  leftFirst : l.keyArray 0 = -340 ∧ l.ridArray 0 = ⟨3, 1, 0⟩
  leftSecond : l.keyArray 1 = -339
  leftRid : l.ridArray 171 = ⟨3, 172, 0⟩
  rightFirst : r.keyArray 0 = 1

theorem SplitOnce.overSpread (hu : SplitOnce u t n sep a b) (he : t.entries = contents spread) :
    ∃ l r, OverSpread u t n sep a b l r := by
  rw [contents_spread] at he
  have hlen : t.entries.length = leafOccupancy + 1 := by
    rw [he, pairs, List.length_map, spread_length]
  obtain ⟨hroot, hlevel, hchild, ⟨x, hx, hkey⟩, ⟨l, hl, hleft⟩, r, hr, hright⟩ := hu.pages hlen
  have hentry : ∀ i < 682, t.entries[i]? = some ⟨⟨3, i + 1, 0⟩, (i : Int) - 340⟩ := fun i hi => by
    rw [he]
    exact pairs_spread i hi
  have hhalf : ∀ i < 341, (t.entries.take 341)[i]? = some ⟨⟨3, i + 1, 0⟩, (i : Int) - 340⟩ := fun i hi => by
    rw [List.getElem?_take_of_lt hi]
    exact hentry i (by omega)
  have hupper : (t.entries.drop 341)[0]? = some ⟨⟨3, 342, 0⟩, 1⟩ := by
    rw [List.getElem?_drop]
    exact hentry 341 (by decide)
  have hfirst : n.keyArray 0 = 1 := by
    rw [hentry 341 (by decide)] at hx
    rw [← hkey, ← Option.some.inj hx]
    rfl
  exact ⟨l, r, hu, hroot, hlevel, hchild, hfirst, hl, hr, hleft.at (hhalf 0 (by decide)), (hleft.at (hhalf 1 (by decide))).1,
    (hleft.at (hhalf 171 (by decide))).2, (hright.at hupper).1⟩

section Searches

variable {r : LeafNodeInt}

theorem OverSpread.found (ho : OverSpread u t n sep a b l r) :
    firstEntry l (-340) (-300) .GTE leafOccupancy 0 = .found 0 := by
  rw [leafOccupancy_eq, firstEntry]
  simp [ho.leftFirst]

theorem OverSpread.above (ho : OverSpread u t n sep a b l r) :
    firstEntry r (-340) (-300) .GTE leafOccupancy 0 = .keyAboveRange := by
  rw [leafOccupancy_eq, firstEntry]
  simp [ho.rightFirst]

private theorem scanArgs : ScanArgs (-340) .GTE (-300) .LTE := ⟨by decide, by decide, by decide, .inr rfl, .inr rfl⟩

theorem OverSpread.root_not_leaf (ho : OverSpread u t n sep a b l r) :
    decide ((u.pages.pages u.index.headerPageNum).asMetaInfo.height = 1) = false := ho.split.tree.isRootLeaf_eq

theorem OverSpread.rootPageNum (ho : OverSpread u t n sep a b l r) : u.index.rootPageNum = 4 :=
  ho.split.tree.rootPageNum.trans ho.split.rootPage

theorem OverSpread.has_root (ho : OverSpread u t n sep a b l r) : u.pages.Has 4 :=
  ho.split.rootPage ▸ ho.split.tree.has ho.split.node.page_mem

theorem OverSpread.has_right (ho : OverSpread u t n sep a b l r) : u.pages.Has 3 := by
  rw [← ho.split.rightPage]
  exact ho.split.tree.has (ho.split.node.sub_pages (List.mem_cons_of_mem _ List.mem_cons_self) _ ho.split.right.page_mem)

/-- The search over the plain store. -/
theorem OverSpread.startScan_plain (ho : OverSpread u t n sep a b l r) :
    ∃ u', startScan layer 2 (-340) .GTE (-300) .LTE u = .ok () u' := by
  have hchild : scanChild n (-340) = 2 := by
    rw [scanChild_first (by rw [ho.firstKey]; decide) (by rw [ho.firstChild]; decide), ho.firstChild]
  have hdescend : scanDescend layer 2 4 (u.atRoot (-340) .GTE (-300) .LTE) =
      .ok () ((u.atRoot (-340) .GTE (-300) .LTE).movedTo 2) := by
    rw [scanDescend_eq 1 4 (u.atRoot (-340) .GTE (-300) .LTE) (congrArg Page.asNonLeaf ho.root), asNonLeaf_nonLeaf,
      if_pos ho.level]
    exact congrArg (fun p => EStateM.Result.ok () ((u.atRoot (-340) .GTE (-300) .LTE).movedTo p)) hchild
  have hleaf := scanLeaf_found (M := layer) (w := (u.atRoot (-340) .GTE (-300) .LTE).movedTo 2) ho.left ho.found
  have hrun := startScan_eq (w := u) 2 scanArgs
  rw [ho.root_not_leaf, ho.rootPageNum] at hrun
  exact ⟨_, hrun.trans ((run_bind_ok hdescend).trans hleaf)⟩

variable (hL : Hosts L on blob) (hfile : on file)
include hL hfile

/-- The search until the loop over the levels begins. -/
private theorem OverSpread.begins (ho : OverSpread u t n sep a b l r)
    (h : Calm L hash on blob file bufs k u.index.headerPageNum u.pages [] w.pages) (hbufs : 0 < bufs)
    (hheader : w.index.headerPageNum = u.index.headerPageNum) (hroot : w.index.rootPageNum = u.index.rootPageNum)
    (hexec : w.index.scanExecuting = false) :
    ∃ i w₁, Calm L hash on blob file bufs (k - 2) u.index.headerPageNum u.pages [(4, i)] w₁.pages ∧
      w₁.index.currentPageNum = 4 ∧ w₁.index.lowValInt = -340 ∧ w₁.index.highValInt = -300 ∧ w₁.index.lowOp = .GTE ∧
      startScan (poolLayer L hash file) 2 (-340) .GTE (-300) .LTE w =
        (do scanDescend (poolLayer L hash file) 2 i
            scanLeaf (poolLayer L hash file)) w₁ := by
  have hpage : w.index.rootPageNum = 4 := hroot.trans ho.rootPageNum
  obtain ⟨i, m, hcalm, hrun⟩ := h.startScan hL hfile hbufs
    (by rw [hheader]; exact ⟨ho.split.tree.header_valid, ho.split.tree.header_lt⟩) (by rw [hpage]; exact ho.has_root)
    (by rw [hheader]; exact of_decide_eq_false ho.root_not_leaf) hexec scanArgs 2
  rw [hpage] at hcalm
  exact ⟨i, ⟨_, m⟩, hcalm, hpage, rfl, rfl, rfl, hrun⟩

/-- The search over a pool with three clear frames. -/
theorem OverSpread.startScan_apart (ho : OverSpread u t n sep a b l r)
    (h : Calm L hash on blob file bufs 3 u.index.headerPageNum u.pages [] w.pages) (hbufs : 0 < bufs)
    (hheader : w.index.headerPageNum = u.index.headerPageNum) (hroot : w.index.rootPageNum = u.index.rootPageNum)
    (hexec : w.index.scanExecuting = false) :
    ∃ w', startScan (poolLayer L hash file) 2 (-340) .GTE (-300) .LTE w = .ok () w' := by
  obtain ⟨i, w₁, hcalm, hpage, hlow, hhigh, hlowOp, hrun⟩ := ho.begins hL hfile h hbufs hheader hroot hexec
  obtain ⟨i', m, hcalm', hdescend⟩ := ho.split.descend hL hfile ho.root ho.firstChild ho.level hcalm hbufs hpage
    (by rw [hlow, ho.firstKey]; decide)
  have hfound := ho.found
  rw [← hlow, ← hhigh, ← hlowOp] at hfound
  refine ⟨_, hrun.trans ((run_bind_ok hdescend).trans (scanLeaf_found ?_ hfound))⟩
  exact hcalm'.page.trans ho.left

/-- The search over a pool of one frame ends in the right leaf, whose keys are above the range. -/
theorem OverSpread.startScan_one (ho : OverSpread u t n sep a b l r)
    (h : Calm L hash on blob file 1 0 u.index.headerPageNum u.pages [] w.pages)
    (hheader : w.index.headerPageNum = u.index.headerPageNum) (hroot : w.index.rootPageNum = u.index.rootPageNum)
    (hexec : w.index.scanExecuting = false) :
    ∃ w', startScan (poolLayer L hash file) 2 (-340) .GTE (-300) .LTE w = .error .noSuchKeyFound w' := by
  obtain ⟨i, w₁, hcalm, hpage, hlow, hhigh, hlowOp, hrun⟩ := ho.begins hL hfile h Nat.one_pos hheader hroot hexec
  obtain rfl := hcalm.only_frame
  have hlevel : (u.pages.pages 3).asNonLeaf.level = 1 := by
    rw [ho.right, (asNonLeaf_leaf r).1, ho.rightFirst]
  obtain ⟨m, hcalm', hdescend⟩ := ho.split.descend_one hL hfile ho.root ho.firstChild ho.left hcalm hpage
    (by rw [hlow, ho.firstKey]; decide) (by rw [ho.leftFirst.1]; decide) (by rw [hlow, ho.leftSecond]; decide)
    (by rw [ho.leftRid]; decide) ho.has_right hlevel
  have habove := ho.above
  rw [← hlow, ← hhigh, ← hlowOp] at habove
  refine ⟨_, hrun.trans ((run_bind_ok hdescend).trans (scanLeaf_above ?_ habove))⟩
  exact hcalm'.page.trans ho.right

end Searches

/-! ### Two pools -/

section Pools

/-- An empty pool of `bufs` frames over the files of another one. -/
def freshPool (bufs : Nat) (closed : World (BufMgr Bool Page (Bool → BlobFile Page)) FrameId) :
    World (BufMgr Bool Page (Bool → BlobFile Page)) FrameId :=
  ⟨uninitialized, P3.newBufMgr bufs .fresh closed.pages.files⟩

theorem freshPool_idle {bufs : Nat} (hbufs : 0 < bufs) (closed : World (BufMgr Bool Page (Bool → BlobFile Page)) FrameId) :
    Idle twoFiles (P3.hash Bool.toNat) (fun f => id f = true) (freshPool bufs closed).pages := idle_newBufMgr hbufs _ _

/-- The sessions over these two files, with the arguments of the callers. -/
abbrev TwoFilesSession : Log → World (BufMgr Bool Page (Bool → BlobFile Page)) FrameId → Prop :=
  Session twoFiles (P3.hash Bool.toNat) (fun f => id f = true) (fun files => files true) (fun _ _ _ call => call.Valid) true

/-- The constructor with `spread` for the pairs of the relation, and that it returned. -/
abbrev builtLog : Log := [(.construct (fun _ => 0) 0 0 .INTEGER spread, .ok none)]

/-- The index over `spread` is built over a pool of six frames, and opened again over a pool of one frame. -/
structure TwoPools (w closed w' : World (BufMgr Bool Page (Bool → BlobFile Page)) FrameId) (u' : World PageStore PageId) :
    Prop where
  builds : Constructs twoFiles (P3.hash Bool.toNat) (fun f => id f = true)
    true (fun _ => 0) 0 0 .INTEGER spread (newWorld 6) w
  closes : destroy twoFilesPool w = .ok () closed
  opens : reopen twoFilesPool (getFirstPageNo fun files => files true) 0 .INTEGER (freshPool 1 closed) = .ok () w'
  plain : PlainSession ⟨uninitialized, created⟩ (builtLog ++ [(.reopen 0 .INTEGER, .ok none)]) u'
  ended : w.index.scanExecuting = false
  finds : ∃ v, startScan twoFilesPool 2 (-340) .GTE (-300) .LTE w = .ok () v
  fails : ∃ v, startScan twoFilesPool 2 (-340) .GTE (-300) .LTE w' = .error .noSuchKeyFound v
  finds_plain : ∃ v, startScan layer 2 (-340) .GTE (-300) .LTE u' = .ok () v

/-- The index after the constructor, over the pool and over the plain store. -/
private theorem built_spread : ∃ w u h t n sep a b,
    Constructs twoFiles (P3.hash Bool.toNat) (fun f => id f = true) true (fun _ => 0) 0 0 .INTEGER spread (newWorld 6) w ∧
      construct layer (fun _ => 0) 0 0 .INTEGER spread ⟨uninitialized, created⟩ = .ok () u ∧
      Together twoFiles (P3.hash Bool.toNat) (fun f => id f = true) (fun files => files true) true h t u w ∧
      (∃ t', SplitOnce u t' n sep a b ∧ t'.entries = contents spread) ∧ w.index.scanExecuting = false ∧ Ahead 3 w.pages ∧
      Roomy twoFiles (P3.hash Bool.toNat) (fun f => id f = true) (fun files => files true) true 6 [] [] w.pages := by
  have hL : Hosts twoFiles (fun f => id f = true) fun files => files true := blobFiles_hosts id true
  have hnew : Idle twoFiles (P3.hash Bool.toNat) (fun f => id f = true) (newWorld 6).pages := newWorld_idle (by decide)
  have hframes : spread.length / 682 + 5 ≤ (newWorld 6).pages.numBufs := by
    rw [spread_length]
    decide
  obtain ⟨w, hconstruct, hroomy, hempty⟩ : ∃ w, construct twoFilesPool (fun _ => 0) 0 0 .INTEGER spread
        (newWorld 6) = .ok () w ∧
      Roomy twoFiles (P3.hash Bool.toNat) (fun f => id f = true) (fun files => files true) true 6 [] [] w.pages ∧
      ∀ i g p, ¬ w.pages.Holds i g p :=
    construct_returns hL rfl hnew (fun _ _ _ => P3.not_holds_newBufMgr) rfl spread_valid hframes
  have hbuilds : Constructs twoFiles (P3.hash Bool.toNat) (fun f => id f = true) true (fun _ => 0) 0 0 .INTEGER spread
      (newWorld 6) w := .of_run hconstruct
  obtain ⟨u, h, t, hplain, htogether⟩ := hbuilds.together hL rfl hnew rfl spread_valid uninitialized
  obtain ⟨u', t', n, sep, a, b, hplain', hsplit, hentries⟩ :=
    construct_split uninitialized (fun _ => 0) 0 0 .INTEGER spread_length spread_valid
  obtain ⟨-, rfl⟩ := EStateM.Result.ok.inj (hplain.symm.trans hplain')
  obtain ⟨hexec, -⟩ := (Opens.built hnew rfl hbuilds).steady hL rfl
  have hahead : Ahead 3 w.pages := ahead_of_empty hroomy.steady.agree hempty (by rw [hroomy.numBufs]; decide)
  exact ⟨w, u, h, t, n, sep, a, b, hbuilds, hplain, htogether, ⟨t', hsplit, hentries⟩, hexec, hahead, hroomy⟩

theorem twoPools : ∃ w closed w' u', TwoPools w closed w' u' := by
  have hL : Hosts twoFiles (fun f => id f = true) fun files => files true := blobFiles_hosts id true
  obtain ⟨w, u, h, t, n, sep, a, b, hbuilds, hplain, htogether, ⟨t', hsplit, hentries⟩, hexec, hahead, hroomy⟩ :=
    built_spread
  obtain ⟨l, r, ho⟩ := hsplit.overSpread hentries
  have hf := htogether.follows
  have hfinds := ho.startScan_apart hL rfl ⟨hroomy, hf.mirrors, hahead⟩ (by decide) hf.header hf.root hexec
  obtain ⟨m, hm, hsame, -, ⟨hscan, -⟩ | ⟨-, hclear, hcloses⟩⟩ := destroy_cases hL rfl htogether.sound
  · exact absurd hexec (ne_false_of_eq_true hscan)
  · -- the index is opened again, over one frame
    have hidle := freshPool_idle Nat.one_pos ⟨{ w.index with scanExecuting := false }, m⟩
    have hstart : Mirrors (P3.hash Bool.toNat) (fun files => files true) true u.index.headerPageNum u.pages
        (freshPool 1 ⟨{ w.index with scanExecuting := false }, m⟩).pages := by
      refine (hf.mirrors.same hsame).moved (Steady.agree hm) hclear ?_ hidle rfl
      rfl
    rw [hf.first] at hstart
    have hone : u.pages.Has 1 := hf.first ▸ ⟨hf.tree.header_valid, hf.tree.header_lt⟩
    obtain ⟨w', hopens, hroomy'⟩ : ∃ w', reopen twoFilesPool (getFirstPageNo fun files => files true) 0 .INTEGER
        (freshPool 1 ⟨{ w.index with scanExecuting := false }, m⟩) = .ok () w' ∧
        Roomy twoFiles (P3.hash Bool.toNat) (fun f => id f = true) (fun files => files true) true 1 [] [] w'.pages :=
      reopen_returns hL rfl hidle (fun _ _ _ => P3.not_holds_newBufMgr) hstart hone
    have hopen := hf.reopened hL rfl htogether.sound hcloses rfl hidle rfl { u.index with scanExecuting := false } 0 .INTEGER
    rw [hopens] at hopen
    obtain ⟨_, u', hreopen, htogether', hat, hended, hpages⟩ := hopen.returned
    obtain ⟨l', r', ho'⟩ := (hsplit.of_pages hpages hat.1 hat.2).overSpread hentries
    have hf' := htogether'.follows
    have hfails := ho'.startScan_one hL rfl ⟨hroomy', hf'.mirrors, Nat.zero_le _, fun i hi => absurd hi (Nat.not_lt_zero i)⟩
      hf'.header hf'.root (htogether'.alike.executing.trans hended)
    -- the same steps over the plain store
    have hdestroy : destroy layer u = .ok () ⟨{ u.index with scanExecuting := false }, u.pages⟩ := rfl
    have hbuilt : PlainSession ⟨uninitialized, created⟩ builtLog u :=
      PlainSession.start.returned (by rw [Step.plain, run_bind_ok hplain]; rfl)
    have hsession : PlainSession ⟨uninitialized, created⟩ (builtLog ++ [(.reopen 0 .INTEGER, .ok none)]) u' :=
      hbuilt.returned (by rw [Step.plain, run_bind_ok hdestroy, run_bind_ok hreopen]; rfl)
    exact ⟨w, _, w', u', hbuilds, hcloses, hopens, hsession, hexec, hfinds, hfails, ho'.startScan_plain⟩

theorem TwoPools.built {w closed w' : World (BufMgr Bool Page (Bool → BlobFile Page)) FrameId} (h : TwoPools w closed w' u) :
    TwoFilesSession builtLog w := by
  refine .constructed ?_ (newWorld_idle (by decide : 0 < 6)) ?_ spread_valid h.builds <;> rfl

theorem TwoPools.reopened {w closed w' : World (BufMgr Bool Page (Bool → BlobFile Page)) FrameId}
    (h : TwoPools w closed w' u) :
    TwoFilesSession (builtLog ++ [(.reopen 0 .INTEGER, .ok none)]) w' := by
  refine h.built.reopened h.closes ?_ (freshPool_idle Nat.one_pos closed) ?_ h.opens <;> rfl

/-- The search after the reopening throws, and over the plain store it returns. -/
theorem reopened_scan_differs : ∃ w u, TwoFilesSession (builtLog ++ [(.reopen 0 .INTEGER, .ok none)]) w ∧
    PlainSession ⟨uninitialized, created⟩ (builtLog ++ [(.reopen 0 .INTEGER, .ok none)]) u ∧
    (Call.startScan (-340) .GTE (-300) .LTE).Valid ∧
    outcome ((Call.startScan (-340) .GTE (-300) .LTE).run twoFilesPool (fun _ => 0) 2 w) = .error .noSuchKeyFound ∧
    outcome ((Call.startScan (-340) .GTE (-300) .LTE).run layer (fun _ => 0) 2 u) = .ok none := by
  obtain ⟨w₀, closed, w, u, h⟩ := twoPools
  obtain ⟨v, hfails⟩ := h.fails
  obtain ⟨v', hfinds⟩ := h.finds_plain
  refine ⟨w, u, h.reopened, h.plain, ⟨by decide, by decide⟩, ?_, ?_⟩
  · rw [Call.run, run_bind_error hfails]
    rfl
  · rw [Call.run, run_bind_ok hfinds]
    rfl

/-- The search before the index is closed returns, and after the reopening it throws. -/
theorem reopening_loses_keys : ∃ w closed w', TwoFilesSession builtLog w ∧ w.index.scanExecuting = false ∧
    destroy twoFilesPool w = .ok () closed ∧
    reopen twoFilesPool (getFirstPageNo fun files => files true) 0 .INTEGER (freshPool 1 closed) = .ok () w' ∧
    outcome ((Call.startScan (-340) .GTE (-300) .LTE).run twoFilesPool (fun _ => 0) 2 w) = .ok none ∧
    outcome ((Call.startScan (-340) .GTE (-300) .LTE).run twoFilesPool (fun _ => 0) 2 w') = .error .noSuchKeyFound := by
  obtain ⟨w, closed, w', u, h⟩ := twoPools
  obtain ⟨v, hfinds⟩ := h.finds
  obtain ⟨v', hfails⟩ := h.fails
  refine ⟨w, closed, w', h.built, h.ended, h.closes, h.opens, ?_, ?_⟩
  · rw [Call.run, run_bind_ok hfinds]
    rfl
  · rw [Call.run, run_bind_error hfails]
    rfl

end Pools

end Cs564.BTree
