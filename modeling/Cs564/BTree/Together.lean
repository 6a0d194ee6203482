import Cs564.BTree.Destroy
import Cs564.BTree.Lockstep

/-!
# The index over the pool and over the plain store

`Together` relates an index over the pool to one over the plain store, in which a page stays in memory for ever.  Every
method keeps it and has the same outcome on both, if no search strays from a new root and no page of a search comes into
the frame of the page before (`Together.call`).  The constructor begins it, and an index that is closed and opened again
is together with the same pages.
-/

namespace Cs564.BTree

open P2 (BufMgr)
open P3 (FileLayer BlobFile)
open PageStore

variable {F σ : Type} [DecidableEq F] {L : FileLayer F Page σ} {hash : F → PageId → Nat} {on : F → Prop}
  {blob : σ → BlobFile Page} {file : F} {pins : List (PageId × FrameId)} {unsaved : List PageId}
  {w w' : World (BufMgr F Page σ) FrameId} {u u' : World PageStore PageId} {h : Nat} {t : Branch}

/-- `getFirstPageNo` of the plain store. -/
def PageStore.getFirstPageNo : EStateM Exc PageStore PageId := pure 1

/-! ### The two indices -/

/-- The index over the pool has the pages of the index `u` over the plain store, which is the tree `t`. -/
structure Follows (hash : F → PageId → Nat) (blob : σ → BlobFile Page) (file : F) (h : Nat) (t : Branch)
    (u : World PageStore PageId) (w : World (BufMgr F Page σ) FrameId) : Prop where
  tree : Tree u h t
  links : LeafLinks u.pages
  first : u.index.headerPageNum = 1
  header : w.index.headerPageNum = u.index.headerPageNum
  root : w.index.rootPageNum = u.index.rootPageNum
  mirrors : Mirrors hash blob file u.index.headerPageNum u.pages w.pages

/-- The two indices are moreover at the same place of their scans. -/
structure Together (L : FileLayer F Page σ) (hash : F → PageId → Nat) (on : F → Prop) (blob : σ → BlobFile Page) (file : F)
    (h : Nat) (t : Branch) (u : World PageStore PageId) (w : World (BufMgr F Page σ) FrameId) : Prop where
  follows : Follows hash blob file h t u w
  sound : Sound L hash on blob file w
  alike : Alike u.pages w.index u.index

theorem Tree.has (ht : Tree u h t) {p : PageId} (hp : p ∈ t.pages) : u.pages.Has p :=
  ⟨ht.pages_valid p hp, ht.pages_lt p hp⟩

theorem Together.paired (h' : Together L hash on blob file h t u w) :
    Paired L hash on blob file u.index.headerPageNum u.index.rootPageNum u.pages w u :=
  ⟨h'.alike, ⟨rfl, rfl⟩, rfl, h'.sound, h'.follows.mirrors⟩

/-- A scan changes no pages. -/
theorem Together.of_paired (h' : Together L hash on blob file h t u w)
    (hpaired : Paired L hash on blob file u.index.headerPageNum u.index.rootPageNum u.pages w' u') :
    Together L hash on blob file h t u' w' := by
  obtain ⟨halike, ⟨hheader, hroot⟩, hpages, hsteady, hmirrors⟩ := hpaired
  obtain ⟨that, s⟩ := u'
  dsimp only at hpages hheader hroot halike
  subst hpages
  refine ⟨⟨h'.follows.tree.of_index rfl hheader hroot, h'.follows.links, hheader.trans h'.follows.first,
    halike.header, halike.root, ?_⟩, hsteady, halike⟩
  rw [hheader]
  exact hmirrors

/-- Where no scan is executing there is nothing more to say. -/
theorem Follows.together (hf : Follows hash blob file h t u w) (hsound : Sound L hash on blob file w)
    (hexec : w.index.scanExecuting = false) (hexec' : u.index.scanExecuting = false) :
    Together L hash on blob file h t u w := by
  have hno : ¬ u.index.scanExecuting = true := ne_true_of_eq_false hexec'
  exact ⟨hf, hsound, hf.header, hf.root, hexec.trans hexec'.symm, fun h => absurd h hno, fun h => absurd h hno⟩

section Insertions

variable (hL : Hosts L on blob) (hfile : on file)
include hL hfile

/-- An insertion over the pool is one over the plain store. -/
theorem Follows.insertEntry (hf : Follows hash blob file h t u w) (hw : Steady L hash on blob file pins unsaved w.pages)
    (depth : IndexMetaInfo → Nat) (key : Int) {rid : RecordId} (hrid : rid.page_number ≠ INVALID_NUMBER) :
    Matches Exc.GivesUp
      (fun _ _ w' u' => (∃ h' t', Follows hash blob file h' t' u' w') ∧ Steady L hash on blob file pins unsaved w'.pages ∧
        LeavesKept u.pages u'.pages ∧ BTree.insertEntry layer key rid u = .ok () u' ∧
        ∃ r, w'.index = { w.index with rootPageNum := r } ∧ u'.index = { u.index with rootPageNum := r })
      (fun e _ _ => e = .outOfFuel)
      (insertEntryWithin (poolLayer L hash file) depth key rid w) (insertEntryWithin layer depth key rid u) := by
  have ht := hf.tree
  have hpath : ∀ q ∈ insertPath u.pages key (depth (u.pages.pages u.index.headerPageNum).asMetaInfo) u.index.rootPageNum
      (decide ((u.pages.pages u.index.headerPageNum).asMetaInfo.height = 1)), u.pages.Has q := by
    intro q hq
    rw [ht.rootPageNum, ht.isRootLeaf_eq] at hq
    exact ht.has (ht.subtree.insertPath_mem ht.sorted key _ q hq)
  have hsim : Matches Exc.GivesUp _ (fun e _ _ => e = .outOfFuel) (insertEntryWithin (poolLayer L hash file) depth key rid w)
      (insertEntryWithin layer depth key rid u) :=
    insertEntryWithin_mirrored hL hfile ht.header_valid (fun _ _ => rfl) depth key rid hw.unsaved hf.header hf.root
      ⟨ht.header_valid, ht.header_lt⟩ hpath w u ⟨rfl, rfl, rfl, hw, hf.mirrors⟩
  cases hx : insertEntryWithin (poolLayer L hash file) depth key rid w with
  | error e w' =>
    rw [hx] at hsim
    exact hsim
  | ok a w' =>
    rw [hx] at hsim
    cases hy : insertEntryWithin layer depth key rid u with
    | error e u' =>
      rw [hy] at hsim
      exact hsim.elim
    | ok b u' =>
      rw [hy] at hsim
      obtain ⟨r, s', hindex, hindex', rfl, hsteady, hmirrors⟩ := hsim
      obtain ⟨r', s, h', t', hrun, ht', -⟩ := ht.insertEntry key hrid
      obtain rfl := insertEntryWithin_ok layer hy hrun
      have hkept := ht.leavesKept hf.links hrid hrun
      refine ⟨⟨h', t', ht', hkept.links, hf.first, ?_, ?_, hmirrors⟩, hsteady, hkept, hrun, r, hindex, hindex'⟩
      · rw [hindex]
        exact hf.header
      · rw [hindex]
        exact (congrArg BTreeIndex.rootPageNum hindex').symm

theorem Together.insertEntry (h' : Together L hash on blob file h t u w) (depth : IndexMetaInfo → Nat) (key : Int)
    {rid : RecordId} (hrid : rid.page_number ≠ INVALID_NUMBER) :
    Matches Exc.GivesUp (fun _ _ w' u' => ∃ h' t', Together L hash on blob file h' t' u' w')
      (fun e w' u' => e = .outOfFuel ∨ ∃ h' t', Together L hash on blob file h' t' u' w')
      (insertEntryWithin (poolLayer L hash file) depth key rid w) (insertEntryWithin layer depth key rid u) := by
  refine (h'.follows.insertEntry hL hfile h'.sound depth key hrid).conseq (fun _ _ w' u' hp => ?_) fun e _ _ he => .inl he
  obtain ⟨⟨h₁, t₁, hfollows⟩, hsteady, hkept, -, r, hindex, hindex'⟩ := hp
  refine ⟨h₁, t₁, hfollows, ?_, hfollows.header, hfollows.root, ?_, ?_, ?_⟩
  · rw [Sound, hindex]
    exact hsteady
  · rw [hindex, hindex']
    exact h'.alike.executing
  · rw [hindex, hindex']
    exact fun hexec => { h'.alike.scan hexec with }
  · rw [hindex']
    exact fun hexec => hkept.kept _ (h'.alike.leaf hexec)

end Insertions

/-! ### Calls -/

/-- The arguments of the callers: `int`s and record ids of records. -/
def Call.Valid : Call → Prop
  | .insertEntry key rid => IsInt key ∧ rid.page_number ≠ INVALID_NUMBER
  | .startScan low _ high _ => IsInt low ∧ IsInt high
  | .scanNext => True
  | .endScan => True

/-- The data members, and the pages of the file as the index sees them. -/
def shown (hash : F → PageId → Nat) (blob : σ → BlobFile Page) (file : F) (w : World (BufMgr F Page σ) FrameId) :
    World PageStore PageId where
  index := { w.index with currentPageData := w.index.currentPageNum }
  pages := ⟨(blob w.pages.files).num_pages, fun p => (seen hash blob file w.pages p).getD .fresh⟩

/-- The search of `startScan` does not stray from the root, and no page of it comes into the frame of the page before. -/
def SearchClear (L : FileLayer F Page σ) (hash : F → PageId → Nat) (blob : σ → BlobFile Page) (file : F) (low : Int)
    (fuel : Nat) (w : World (BufMgr F Page σ) FrameId) : Prop :=
  ¬ StrayRoot (shown hash blob file w) low ∧
    SearchApart L hash file w.index.headerPageNum w.index.rootPageNum
      (searchPath (shown hash blob file w).pages w.index.headerPageNum w.index.rootPageNum low fuel)
      (atSearch hash file w.index w.pages)

/-- The calls whose searches are so. -/
def Call.Clear (L : FileLayer F Page σ) (hash : F → PageId → Nat) (blob : σ → BlobFile Page) (file : F) (fuel : Nat)
    (w : World (BufMgr F Page σ) FrameId) : Call → Prop
  | .startScan low lowOp high highOp => ScanArgs low lowOp high highOp → SearchClear L hash blob file low fuel w
  | .insertEntry .. => True
  | .scanNext => True
  | .endScan => True

section Shown

/-- The pages on the way of a search decide where it goes. -/
private theorem Subtree.scanPath_congr {s s' : PageStore} {h : Nat} {top : Bool} {t : Branch} {low : Int}
    (ht : Subtree s (h + 1) top t) (hsame : ∀ p ∈ t.pages, s'.pages p = s.pages p) (hlow : low ≤ INT_MAX)
    (hstray : ∀ n, s.pages t.page = .nonLeaf n → ¬ n.Stray low) (fuel : Nat) :
    scanPath s' low fuel t.page = scanPath s low fuel t.page := by
  induction fuel generalizing h top t with
  | zero => rfl
  | succ fuel ih =>
    have htop := hsame _ ht.page_mem
    obtain ⟨n, keys, subs, hn, hsubs⟩ : ∃ n keys subs, IsNode s top (h == 0) t n keys subs ∧
        ∀ u ∈ subs, Subtree s h false u := ht
    obtain ⟨u, hu, hchild⟩ := hn.scanChild_kid hlow (hstray n hn.page)
    rw [scanPath, scanPath, htop, hn.page, asNonLeaf_nonLeaf, hchild]
    cases h with
    | zero =>
      have hlevel : n.level = 1 := hn.level
      rw [if_pos hlevel, if_pos hlevel]
    | succ h =>
      have hsub := hsubs u hu
      rw [ih hsub (fun p hp => hsame p (hn.sub_pages hu p hp)) fun m hm => hsub.not_stray hm]

theorem Mirrors.shown {first : PageId} {s : PageStore} {p : PageId} (hm : Mirrors hash blob file first s w.pages)
    (hp : s.Has p) : (shown hash blob file w).pages.pages p = s.pages p := by
  show (BTree.seen hash blob file w.pages p).getD .fresh = s.pages p
  rw [hm.seen p, page?, if_pos hp]
  rfl

/-- The condition on the search, for the plain store. -/
private theorem Follows.search (hf : Follows hash blob file h t u w) {low : Int} (hlow : low ≤ INT_MAX) {fuel : Nat}
    (hclear : SearchClear L hash blob file low fuel w) : ¬ StrayRoot u low ∧
      SearchApart L hash file u.index.headerPageNum u.index.rootPageNum
        (searchPath u.pages u.index.headerPageNum u.index.rootPageNum low fuel) (atSearch hash file w.index w.pages) := by
  have ht := hf.tree
  have hroot : (shown hash blob file w).pages.pages u.index.rootPageNum = u.pages.pages u.index.rootPageNum := by
    rw [ht.rootPageNum]
    exact hf.mirrors.shown (ht.has ht.subtree.page_mem)
  have hheader : (shown hash blob file w).pages.pages u.index.headerPageNum = u.pages.pages u.index.headerPageNum :=
    hf.mirrors.shown ⟨ht.header_valid, ht.header_lt⟩
  obtain ⟨hstray, hapart⟩ := hclear
  have hstray' : ¬ StrayRoot u low := by
    rw [StrayRoot, ← hroot, ← hf.root]
    exact hstray
  refine ⟨hstray', ?_⟩
  rw [hf.header, hf.root] at hapart
  have hpath : searchPath (shown hash blob file w).pages u.index.headerPageNum u.index.rootPageNum low fuel =
      searchPath u.pages u.index.headerPageNum u.index.rootPageNum low fuel := by
    rw [searchPath, searchPath, hheader]
    by_cases hleaf : (u.pages.pages u.index.headerPageNum).asMetaInfo.height = 1
    · rw [if_pos hleaf, if_pos hleaf]
    · rw [if_neg hleaf, if_neg hleaf, ht.rootPageNum]
      cases h with
      | zero => exact absurd (of_decide_eq_true ht.isRootLeaf_eq) hleaf
      | succ h =>
        refine ht.subtree.scanPath_congr (fun p hp => hf.mirrors.shown (ht.has hp)) hlow (fun n hn hn' => hstray' ?_) fuel
        rw [StrayRoot, ht.rootPageNum, hn]
        exact hn'
  rw [← hpath]
  exact hapart

end Shown

section Calls

variable (hL : Hosts L on blob) (hfile : on file)
include hL hfile

/-- Every call with a clear search does the same on both. -/
theorem Together.call (h' : Together L hash on blob file h t u w) {call : Call} (hvalid : call.Valid) {fuel : Nat}
    (hclear : call.Clear L hash blob file fuel w) (depth : IndexMetaInfo → Nat) :
    Matches Exc.GivesUp (fun a b w' u' => a = b ∧ ∃ h' t', Together L hash on blob file h' t' u' w')
      (fun e w' u' => e = .outOfFuel ∨ ∃ h' t', Together L hash on blob file h' t' u' w')
      (call.run (poolLayer L hash file) depth fuel w) (call.run layer depth fuel u) := by
  -- what a method of the scan keeps
  have hscan : ∀ {α : Type} {pre : World (BufMgr F Page σ) FrameId → World PageStore PageId → Prop}
      {x : EStateM Exc (World (BufMgr F Page σ) FrameId) α} {y : EStateM Exc (World PageStore PageId) α}
      (f : α → Option RecordId),
      KeepsPaired L hash on blob file u.index.headerPageNum u.index.rootPageNum u.pages pre x y → pre w u →
      Matches Exc.GivesUp (fun a b w' u' => a = b ∧ ∃ h' t', Together L hash on blob file h' t' u' w')
        (fun e w' u' => e = .outOfFuel ∨ ∃ h' t', Together L hash on blob file h' t' u' w')
        ((x >>= fun a => pure (f a)) w) ((y >>= fun a => pure (f a)) u) := by
    intro α pre x y f hkeeps hpre
    have htogether : Simulates Exc.GivesUp pre x y
        (fun a b w' u' => a = b ∧ ∃ h' t', Together L hash on blob file h' t' u' w')
        (fun e w' u' => e = .outOfFuel ∨ ∃ h' t', Together L hash on blob file h' t' u' w') :=
      hkeeps.conseq (fun _ _ h => h) (fun a b w' u' hp => ⟨hp.1, h, t, h'.of_paired hp.2⟩) fun e w' u' hp =>
        hp.imp id fun hp => ⟨h, t, h'.of_paired hp⟩
    refine (htogether.bind_of fun a b hab => ?_) w u hpre
    subst hab
    exact .pure fun _ _ h => ⟨rfl, h⟩
  cases call with
  | insertEntry key rid =>
    have hinsert : Simulates Exc.GivesUp (fun w₀ u₀ => w₀ = w ∧ u₀ = u)
        (insertEntryWithin (poolLayer L hash file) depth key rid) (insertEntryWithin layer depth key rid)
        (fun _ _ w' u' => ∃ h' t', Together L hash on blob file h' t' u' w')
        (fun e w' u' => e = .outOfFuel ∨ ∃ h' t', Together L hash on blob file h' t' u' w') := by
      rintro _ _ ⟨rfl, rfl⟩
      exact h'.insertEntry hL hfile depth key hvalid.2
    exact (hinsert.bind fun _ _ => .pure fun _ _ h => ⟨rfl, h⟩) w u ⟨rfl, rfl⟩
  | startScan low lowOp high highOp =>
    have hsearch := fun hargs => h'.follows.search hvalid.1.2 (hclear hargs)
    refine hscan (fun _ => none) (startScan_paired hL hfile h'.follows.links fuel h'.follows.tree rfl ⟨rfl, rfl⟩ hvalid.1
      hvalid.2 fun hargs => ?_) ⟨h'.paired, fun hargs => (hsearch hargs).2⟩
    exact (hsearch hargs).1
  | scanNext => exact hscan some (scanNext_paired hL hfile h'.follows.links) h'.paired
  | endScan => exact hscan (fun _ => none) endScan_paired h'.paired

end Calls

/-! ### The constructor and the destructor -/

section Constructor

variable {this : BTreeIndex FrameId} {that : BTreeIndex PageId} {first : PageId} {s : PageStore}
  {exc : Exc → World (BufMgr F Page σ) FrameId → World PageStore PageId → Prop} (hL : Hosts L on blob) (hfile : on file)
include hL hfile

/-- The two pages of a new index stay pinned. -/
theorem constructPages_mirrored (hfuel : ∀ w u, exc .outOfFuel w u) (relationName : Nat → Nat) (nameLength : Nat)
    (attrByteOffset : Int) (attrType : Datatype) :
    Simulates Exc.GivesUp (Both this that (Mirrored L hash on blob file INVALID_NUMBER [] [] created))
      (constructPages (poolLayer L hash file) relationName nameLength attrByteOffset attrType)
      (constructPages layer relationName nameLength attrByteOffset attrType)
      (fun ids ids' w u => (ids = (1, 2) ∧ ids' = (1, 2)) ∧ AtFile 1 2 w.index ∧ w.index.scanExecuting = false ∧
        ∃ i j s, Mirrored L hash on blob file 1 [(2, j), (1, i)] [2, 1] s w.pages u.pages) exc := by
  rw [constructPages, constructPages]
  refine Simulates.bind_of (onPages_both hfuel (allocPage_mirrored hL hfile)) fun new _ hnew => ?_
  obtain ⟨p, i⟩ := new
  obtain ⟨hid, rfl⟩ := hnew
  obtain rfl : p = 1 := hid
  refine Simulates.bind (setIndex_both _ _) fun _ _ => ?_
  refine Simulates.bind_of (onPages_both hfuel (deref_mirrored List.mem_cons_self)) fun page _ hpage => ?_
  obtain ⟨rfl, rfl⟩ := hpage
  refine Simulates.bind (onPages_both' hfuel (assign_mirrored hfile List.mem_cons_self _)) fun _ _ => ?_
  refine Simulates.bind_of (onPages_both hfuel (allocPage_mirrored hL hfile)) fun root _ hroot => ?_
  obtain ⟨q, j⟩ := root
  obtain ⟨hid, rfl⟩ := hroot
  obtain rfl : q = 2 := hid
  refine Simulates.bind (onPages_both' hfuel (assign_mirrored hfile (List.mem_cons_of_mem _ List.mem_cons_self) _)) fun _ _ => ?_
  refine Simulates.bind (setIndex_both _ _) fun _ _ => ?_
  refine Simulates.bind_of (onPages_both hfuel (deref_mirrored List.mem_cons_self)) fun page _ hpage => ?_
  obtain ⟨rfl, rfl⟩ := hpage
  refine Simulates.bind (onPages_both' hfuel (assign_mirrored hfile List.mem_cons_self _)) fun _ _ => ?_
  refine .pure fun w u h => ⟨⟨rfl, rfl⟩, ?_, ?_, i, j, _, h.2.2.1, ?_, ?_⟩
  · rw [h.1]
    exact ⟨rfl, rfl⟩
  · rw [h.1]
  · refine h.2.2.2.1.mono (fun p hp => ?_) fun p hp => hp
    simp only [List.mem_cons] at hp ⊢
    tauto
  · exact h.2.2.2.2

/-- `flushFile` when no page is pinned. -/
theorem flushFile_mirrored {exc : Exc → BufMgr F Page σ → PageStore → Prop} :
    Simulates Exc.GivesUp (Mirrored L hash on blob file first [] [] s) (poolLayer L hash file).flushFile layer.flushFile
      (fun _ _ mgr t => Mirrored L hash on blob file first [] [] s mgr t ∧ ∀ i p, ¬ mgr.Holds i file p) exc := by
  refine Simulates.of_ok (a := ()) (b := ()) fun mgr t hm => ?_
  obtain ⟨rfl, hsteady, hmirrors⟩ := hm
  obtain ⟨m, hm, hsame, -, ⟨i, p, hi, hpos, -⟩ | ⟨hrun, hclear⟩⟩ := hsteady.flushFile hL hfile file
  · exact absurd (hm.mem_of_pos hi hpos) List.not_mem_nil
  · refine ⟨m, t, ?_, rfl, ⟨rfl, hm, hmirrors.same hsame⟩, hclear⟩
    show onPool (P3.flushFile L hash file) mgr = _
    rw [onPool, hrun]

/-- The two pages are given back. -/
theorem constructEnd_mirrored (hfuel : ∀ w u, exc .outOfFuel w u) {p q : PageId} {i j : FrameId} :
    Simulates Exc.GivesUp (Both this that (Mirrored L hash on blob file first [(q, j), (p, i)] [q, p] s))
      (constructEnd (poolLayer L hash file) p q) (constructEnd layer p q)
      (fun _ _ => Both this that (Mirrored L hash on blob file first [] [] s)) exc := by
  rw [constructEnd, constructEnd]
  refine Simulates.bind ((onPages_both' hfuel (unPinPage_mirrored true [q] (fun r hr => ?_) fun r hr => ?_)).weaken
    fun w u h => ⟨h.1, h.2.1, h.2.2.perm (List.Perm.swap ..)⟩) fun _ _ => ?_
  · simp only [List.mem_cons] at hr ⊢
    tauto
  · exact hr
  · refine Simulates.bind (onPages_both' hfuel (unPinPage_mirrored true [] (fun r hr => ?_) fun r hr =>
      absurd hr List.not_mem_nil)) fun _ _ => ?_
    · exact .inr ⟨List.mem_singleton.mp hr, rfl⟩
    · refine onPages_both' hfuel ((flushFile_mirrored hL hfile).conseq (fun _ _ h => h)
        (fun _ _ _ _ h => h.1) fun _ _ _ h => h)

omit hL hfile in
theorem insertAll_concat {ρ Ptr : Type} {M : PageLayer ρ Ptr} {entries : List (Int × RecordId)} {key : Int} {rid : RecordId}
    {w w₁ w₂ : World ρ Ptr} (before : insertAll M entries w = .ok () w₁)
    (last : BTree.insertEntry M key rid w₁ = .ok () w₂) :
    insertAll M (entries ++ [(key, rid)]) w = .ok () w₂ := by
  induction entries generalizing w with
  | nil =>
    obtain ⟨-, rfl⟩ := EStateM.Result.ok.inj before
    rw [List.nil_append, insertAll, run_bind_ok last]
    rfl
  | cons e entries ih =>
    obtain ⟨_, w₀, hfirst, hrest⟩ := bind_ok_cases before
    rw [List.cons_append, insertAll, run_bind_ok hfirst]
    exact ih hrest

/-- The insertions of the constructor, by induction on them. -/
theorem Feeds.follows {entries : List (Int × RecordId)} (feeds : Feeds L hash on file entries w w')
    (hvalid : ∀ e ∈ entries, e.2.page_number ≠ INVALID_NUMBER) (hf : Follows hash blob file h t u w)
    (hw : Steady L hash on blob file pins unsaved w.pages) :
    ∃ u' h' t' r, BTree.insertAll layer entries u = .ok () u' ∧ Follows hash blob file h' t' u' w' ∧
      Steady L hash on blob file pins unsaved w'.pages ∧ u'.index = { u.index with rootPageNum := r } := by
  induction feeds with
  | none => exact ⟨u, h, t, u.index.rootPageNum, rfl, hf, hw, rfl⟩
  | @insert entries _ _ _ before key rid run ih =>
    obtain ⟨u₁, h₁, t₁, r₁, hrun, hf₁, hw₁, hindex₁⟩ := ih (fun e he => hvalid e (List.mem_append_left _ he)) hf hw
    have hrid : rid.page_number ≠ INVALID_NUMBER := hvalid (key, rid) (by simp)
    have hinsert := hf₁.insertEntry hL hfile hw₁ (fun metaInfo => metaInfo.height.toNat) key hrid
    rw [← BTree.insertEntry, run] at hinsert
    obtain ⟨_, u₂, hlast, ⟨h₂, t₂, hf₂⟩, hw₂, -, -, r₂, -, hindex₂⟩ := hinsert.returned
    refine ⟨u₂, h₂, t₂, r₂, insertAll_concat hrun hlast, hf₂, hw₂, ?_⟩
    rw [hindex₂, hindex₁]
  | other before step ih =>
    obtain ⟨u₁, h₁, t₁, r₁, hrun, hf₁, hw₁, hindex₁⟩ := ih hvalid hf hw
    obtain ⟨hw₂, hsame⟩ := hw₁.other hL hfile step
    exact ⟨u₁, h₁, t₁, r₁, hrun, { hf₁ with mirrors := hf₁.mirrors.same hsame }, hw₂, hindex₁⟩

omit [DecidableEq F] hL hfile in
theorem constructPages_eq (index : BTreeIndex PageId) (relationName : Nat → Nat) (nameLength : Nat)
    (attrByteOffset : Int) (attrType : Datatype) :
    constructPages layer relationName nameLength attrByteOffset attrType ⟨index, created⟩ =
      .ok (1, 2) ⟨newIndex index attrByteOffset attrType,
        newPages (newMeta relationName nameLength attrByteOffset attrType)⟩ := by
  simp only [constructPages, run_bind, onPages, layer_allocPage, deref_layer, assign_layer, run_setIndex]
  rfl

omit hL in
/-- A new index file has no pages. -/
theorem Idle.mirrors (idle : Idle L hash on w.pages) (hcreated : blob w.pages.files = .create Page) :
    Mirrors hash blob file INVALID_NUMBER created w.pages := by
  refine ⟨Nat.one_pos, by rw [hcreated]; rfl, by rw [hcreated]; rfl, by rw [hcreated]; rfl, fun p => ?_⟩
  rw [seen_absent idle.agree fun i hi => idle.absent i file p hi hfile, hcreated, page?, if_neg]
  · rfl
  · exact fun hp => absurd (Nat.lt_one_iff.mp hp.2) hp.1

/-- What the constructor builds over the pool is what it builds over the plain store. -/
theorem Constructs.together {relationName : Nat → Nat} {nameLength : Nat} {attrByteOffset : Int} {attrType : Datatype}
    {entries : List (Int × RecordId)} (idle : Idle L hash on w.pages) (hcreated : blob w.pages.files = .create Page)
    (hvalid : ∀ e ∈ entries, e.2.page_number ≠ INVALID_NUMBER)
    (run : Constructs L hash on file relationName nameLength attrByteOffset attrType entries w w')
    (index : BTreeIndex PageId) :
    ∃ u h t, construct layer relationName nameLength attrByteOffset attrType entries ⟨index, created⟩ = .ok () u ∧
      Together L hash on blob file h t u w' := by
  obtain @⟨ids, w₁, w₂, begins, feeds, ends⟩ := run
  have hstart : Mirrors hash blob file INVALID_NUMBER created w.pages := idle.mirrors hfile hcreated
  have hpages : Simulates Exc.GivesUp (Both w.index index (Mirrored L hash on blob file INVALID_NUMBER [] [] created)) _ _ _
      fun e _ _ => e = .outOfFuel :=
    constructPages_mirrored hL hfile (fun _ _ => rfl) relationName nameLength attrByteOffset attrType
  obtain ⟨_, u₁, hbegins, ⟨rfl, rfl⟩, hat, hexec, i, j, s, hm⟩ := hpages.ok_run
    (⟨rfl, rfl, rfl, idle.steady hfile, hstart⟩ : Both _ _ _ w ⟨index, created⟩) begins
  obtain ⟨-, rfl⟩ := EStateM.Result.ok.inj (hbegins.symm.trans (constructPages_eq ..))
  obtain ⟨rfl, hsteady, hmirrors⟩ := hm
  have hf₁ := (⟨tree_new index attrByteOffset attrType _, leafLinks_new _, rfl, hat.1, hat.2, hmirrors⟩ :
    Follows hash blob file 0 _ _ _)
  obtain ⟨u₂, h₂, t₂, r, hinserts, hf₂, hw₂, hindex⟩ := feeds.follows hL hfile hvalid hf₁ hsteady
  obtain ⟨⟨r', hindex'⟩, -⟩ := feeds.steady hL hfile hsteady
  have hend : Simulates Exc.GivesUp (Both w₂.index u₂.index
      (Mirrored L hash on blob file 1 [(2, j), (1, i)] [2, 1] u₂.pages)) _ _ _
      fun e _ _ => e = .outOfFuel := constructEnd_mirrored hL hfile fun _ _ => rfl
  have hfirst : u₂.index.headerPageNum = 1 := hf₂.first
  obtain ⟨_, u₃, hlast, hw₃, hu₃, hpages₃, hsteady₃, hmirrors₃⟩ := hend.ok_run
    ⟨rfl, rfl, rfl, hw₂, hfirst ▸ hf₂.mirrors⟩ ends
  obtain ⟨that, pages⟩ := u₃
  dsimp only at hu₃ hpages₃ hmirrors₃ hsteady₃
  subst hu₃ hpages₃
  refine ⟨_, h₂, t₂, ?_, Follows.together ⟨hf₂.tree, hf₂.links, hf₂.first, ?_, ?_, ?_⟩ ?_ ?_ ?_⟩
  · rw [construct, run_bind_ok hbegins]
    dsimp only
    rw [run_bind_ok hinserts]
    exact hlast
  · rw [hw₃]
    exact hf₂.header
  · rw [hw₃]
    exact hf₂.root
  · rw [hf₂.first]
    exact hmirrors₃
  · rw [Sound, hw₃, hindex', scanPins, if_neg (ne_true_of_eq_false hexec)]
    exact hsteady₃
  · rw [hw₃, hindex']
    exact hexec
  · rw [hindex]
    rfl

omit hL hfile in
private theorem getFirstPageNo_mirrored {exc : Exc → BufMgr F Page σ → PageStore → Prop} :
    Simulates Exc.GivesUp (Mirrored L hash on blob file 1 pins unsaved s)
      (BTree.getFirstPageNo blob) PageStore.getFirstPageNo
      (fun p q mgr t => (p = 1 ∧ q = 1) ∧ Mirrored L hash on blob file 1 pins unsaved s mgr t) exc := by
  refine Simulates.of_ok (a := 1) (b := 1) fun mgr t hm => ⟨mgr, t, ?_, rfl, ⟨rfl, rfl⟩, hm⟩
  rw [BTree.getFirstPageNo, BlobFile.getFirstPageNo, hm.2.2.live, hm.2.2.first]
  rfl

/-- An index file is opened. -/
theorem reopen_mirrored (hfuel : ∀ w u, exc .outOfFuel w u) (hone : s.Has 1) (attrByteOffset : Int) (attrType : Datatype) :
    Simulates Exc.GivesUp (Both this that (Mirrored L hash on blob file 1 [] [] s))
      (reopen (poolLayer L hash file) (BTree.getFirstPageNo blob) attrByteOffset attrType)
      (reopen layer PageStore.getFirstPageNo attrByteOffset attrType)
      (fun _ _ w u => AtFile 1 (s.pages 1).asMetaInfo.rootPageNo w.index ∧
        AtFile 1 (s.pages 1).asMetaInfo.rootPageNo u.index ∧ w.index.scanExecuting = false ∧
        u.index.scanExecuting = false ∧ Mirrored L hash on blob file 1 [] [] s w.pages u.pages) exc := by
  rw [reopen, reopen]
  refine Simulates.bind (setIndex_both _ _) fun _ _ => ?_
  refine Simulates.bind_of (onPages_both hfuel getFirstPageNo_mirrored) fun p _ hp => ?_
  obtain ⟨rfl, rfl⟩ := hp
  refine Simulates.bind (setIndex_both _ _) fun _ _ => ?_
  refine Simulates.bind_of (onPages_both hfuel (readPage_mirrored hL hfile hone)) fun i _ hq => ?_
  subst hq
  refine Simulates.bind_of (onPages_both hfuel (deref_mirrored List.mem_cons_self)) fun page _ hpage => ?_
  obtain ⟨rfl, rfl⟩ := hpage
  refine Simulates.bind (setIndex_both _ _) fun _ _ => ?_
  refine (onPages_both' hfuel (unPinPage_mirrored false []
    (fun _ hr => .inl hr) fun _ hr => absurd hr List.not_mem_nil)).conseq
    (fun _ _ h => h) (fun _ _ w u h => ?_) fun _ _ _ h => h
  obtain ⟨hw, hu, hm⟩ := h
  rw [hw, hu]
  exact ⟨⟨rfl, rfl⟩, ⟨rfl, rfl⟩, rfl, rfl, hm⟩

omit hL hfile in
/-- The pages are in the file, and another pool finds them there. -/
theorem Mirrors.moved {mgr m : BufMgr F Page σ} (hm : Mirrors hash blob file first s mgr) (hagree : mgr.Agree hash)
    (hclear : ∀ i p, ¬ mgr.Holds i file p) {file' : F} (hfile' : on file') (idle : Idle L hash on m)
    (kept : blob m.files = blob mgr.files) : Mirrors hash blob file' first s m := by
  refine ⟨hm.pos, by rw [kept]; exact hm.live, by rw [kept]; exact hm.numPages, by rw [kept]; exact hm.first, fun p => ?_⟩
  rw [seen_absent idle.agree fun i hi => idle.absent i file' p hi hfile', kept, ← hm.seen p]
  exact (seen_absent hagree fun i => hclear i p).symm

/-- A closed index is opened again as it was. -/
theorem Follows.reopened (hf : Follows hash blob file h t u w) (hsound : Sound L hash on blob file w)
    {closed : World (BufMgr F Page σ) FrameId} (hclose : destroy (poolLayer L hash file) w = .ok () closed) {file' : F}
    (hfile' : on file') {start : World (BufMgr F Page σ) FrameId} (idle : Idle L hash on start.pages)
    (kept : blob start.pages.files = blob closed.pages.files) (that : BTreeIndex PageId) (attrByteOffset : Int)
    (attrType : Datatype) :
    Matches Exc.GivesUp (fun _ _ w' u' => Together L hash on blob file' h t u' w' ∧ AtFile u.index.headerPageNum
        u.index.rootPageNum u'.index ∧ u'.index.scanExecuting = false ∧ u'.pages = u.pages) (fun e _ _ => e = .outOfFuel)
      (reopen (poolLayer L hash file') (BTree.getFirstPageNo blob) attrByteOffset attrType start)
      (reopen layer PageStore.getFirstPageNo attrByteOffset attrType ⟨that, u.pages⟩) := by
  obtain ⟨m, hm, hsame, -, ⟨-, herror⟩ | ⟨-, hclear, hok⟩⟩ := destroy_cases hL hfile hsound
  · rw [herror] at hclose
    cases hclose
  · rw [hok] at hclose
    obtain ⟨-, rfl⟩ := EStateM.Result.ok.inj hclose
    have hstart : Mirrors hash blob file' u.index.headerPageNum u.pages start.pages :=
      (hf.mirrors.same hsame).moved (Steady.agree hm) hclear hfile' idle kept
    have hone : u.pages.Has 1 := hf.first ▸ ⟨hf.tree.header_valid, hf.tree.header_lt⟩
    have hroot : (u.pages.pages 1).asMetaInfo.rootPageNo = u.index.rootPageNum := by
      obtain ⟨m, hm, -, hpage⟩ := hf.tree.header
      rw [hf.first] at hm
      rw [hm, asMetaInfo_metaInfo, hpage, hf.tree.rootPageNum]
    have hopen : Simulates Exc.GivesUp (Both start.index that (Mirrored L hash on blob file' 1 [] [] u.pages)) _ _ _
        fun e _ _ => e = .outOfFuel := reopen_mirrored hL hfile' (fun _ _ => rfl) hone attrByteOffset attrType
    refine (hopen start ⟨that, u.pages⟩ ⟨rfl, rfl, rfl, idle.steady hfile', hf.first ▸ hstart⟩).conseq
      (fun _ _ w' u' hp => ?_) fun _ _ _ he => he
    obtain ⟨hat, hat', hexec, hexec', hpages, hsteady, hmirrors'⟩ := hp
    rw [hroot] at hat hat'
    obtain ⟨that', pages⟩ := u'
    dsimp only at hat' hexec' hpages
    subst hpages
    have hheader := hat'.1.trans hf.first.symm
    refine ⟨Follows.together ⟨hf.tree.of_index rfl hheader hat'.2, hf.links, hat'.1, ?_, ?_, ?_⟩ ?_ hexec hexec',
      ⟨hheader, hat'.2⟩, hexec', rfl⟩
    · exact hat.1.trans hat'.1.symm
    · exact hat.2.trans hat'.2.symm
    · rw [hat'.1]
      exact hmirrors'
    · exact hsteady.sound_idle hexec

end Constructor

end Cs564.BTree
