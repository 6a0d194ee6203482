import Cs564.BTree.Together
import Mathlib.Algebra.Group.Action.Defs
import Mathlib.Algebra.Order.BigOperators.Group.List
import Mathlib.Algebra.Order.Group.Nat
import Mathlib.Data.Finset.Card

/-!
# Frames enough

A pool that only the index uses is full only if the index has pinned a page in every frame (`Roomy.free`).  An insertion
into a tree with `h` levels above its leaves takes at most `h + 3` pins, and the levels are few (`Tree.height_le`), so the
constructor returns if the pool has five frames, and one more for every 682 pairs (`construct_returns`).
-/

namespace Cs564.BTree

open P2 (BufError BufMgr)
open P2.BufMgr
open P3 (FileLayer BlobFile Takeable)
open PageStore

variable {F σ : Type} [DecidableEq F] {L : FileLayer F Page σ} {hash : F → PageId → Nat} {on : F → Prop}
  {blob : σ → BlobFile Page} {file : F} {bufs : Nat} {pins pins' : List (PageId × FrameId)} {unsaved unsaved' : List PageId}
  {mgr m : BufMgr F Page σ} {p : PageId} {i : FrameId}

/-- The pool has `bufs` frames, and no pages but those of the index object. -/
structure Roomy (L : FileLayer F Page σ) (hash : F → PageId → Nat) (on : F → Prop) (blob : σ → BlobFile Page) (file : F)
    (bufs : Nat) (pins : List (PageId × FrameId)) (unsaved : List PageId) (mgr : BufMgr F Page σ) : Prop where
  steady : Steady L hash on blob file pins unsaved mgr
  numBufs : mgr.numBufs = bufs
  own : ∀ i g p, mgr.Holds i g p → g = file

/-! ### The calls of the manager -/

section Calls

/-- A frame that cannot be taken has a pinned page. -/
private theorem exists_holds (h : mgr.Agree hash) (hi : i < mgr.numBufs) (hkept : ¬ Takeable mgr i) :
    ∃ g, mgr.Holds i g (mgr.bufDescTable i).pageNo ∧ 0 < (mgr.bufDescTable i).pinCnt := by
  obtain ⟨hvalid, hpins⟩ := not_or.mp hkept
  have hvalid' : (mgr.bufDescTable i).valid = true := Bool.eq_true_of_not_eq_false hvalid
  obtain ⟨g, hg⟩ := (h.tidy i hi).named hvalid'
  exact ⟨g, ⟨hi, hvalid', hg, rfl⟩, Nat.pos_of_ne_zero hpins⟩

/-- With more frames than pins there is a frame that can be taken. -/
theorem Roomy.free (h : Roomy L hash on blob file bufs pins unsaved mgr) (hfits : pins.length < bufs) :
    ∃ i, i < mgr.numBufs ∧ Takeable mgr i := by
  by_contra hno
  have hheld : ∀ i, i < bufs → mgr.Holds i file (mgr.bufDescTable i).pageNo ∧ 0 < (mgr.bufDescTable i).pinCnt := by
    intro i hi
    have hlt : i < mgr.numBufs := h.numBufs.symm ▸ hi
    obtain ⟨g, hg, hpos⟩ := exists_holds h.steady.agree hlt fun htake => hno ⟨i, hlt, htake⟩
    obtain rfl := h.own i g _ hg
    exact ⟨hg, hpos⟩
  -- the frames have different pages, all of them pinned
  have hpinned : ∀ i ∈ Finset.range bufs, (mgr.bufDescTable i).pageNo ∈ (pages pins).toFinset := by
    intro i hi
    obtain ⟨hholds, hpos⟩ := hheld i (Finset.mem_range.mp hi)
    exact List.mem_toFinset.mpr (h.steady.mem_of_pos hholds hpos)
  have hinj : Set.InjOn (fun i => (mgr.bufDescTable i).pageNo) (Finset.range bufs) := by
    intro i hi j hj hij
    have hholds := (hheld i (Finset.mem_range.mp hi)).1
    have hholds' := (hheld j (Finset.mem_range.mp hj)).1
    dsimp only at hij
    rw [← hij] at hholds'
    exact h.steady.agree.unique hholds hholds'
  have hcard := Finset.card_le_card_of_injOn _ hpinned hinj
  have hle : (pages pins).toFinset.card ≤ pins.length := (List.toFinset_card_le _).trans_eq (List.length_map _)
  rw [Finset.card_range] at hcard
  omega

private theorem Roomy.of_holds (h : Roomy L hash on blob file bufs pins unsaved mgr)
    (hsteady : Steady L hash on blob file pins' unsaved' m) (hnum : m.numBufs = mgr.numBufs)
    (hholds : ∀ i g p, m.Holds i g p → g = file ∨ mgr.Holds i g p) : Roomy L hash on blob file bufs pins' unsaved' m where
  steady := hsteady
  numBufs := hnum.trans h.numBufs
  own i g p hi := (hholds i g p hi).elim id (h.own i g p)

private theorem Roomy.unPinPage (dirty : Bool) (hsub : ∀ q ∈ unsaved, q ∈ unsaved' ∨ q = p ∧ dirty = true)
    (hpinned : ∀ q ∈ unsaved', q ∈ pages pins) {exc : Exc → BufMgr F Page σ → Prop} :
    Triple (Roomy L hash on blob file bufs ((p, i) :: pins) unsaved) ((poolLayer L hash file).unPinPage p dirty)
      (fun _ => Roomy L hash on blob file bufs pins unsaved') exc := by
  intro mgr h
  have hunpin : Triple (Steady L hash on blob file ((p, i) :: pins) unsaved) ((poolLayer L hash file).unPinPage p dirty)
      (fun _ => Steady L hash on blob file pins unsaved') exc := unPinPage_pins dirty unsaved' hsub hpinned
  have hsteady := hunpin mgr h.steady
  have hspec := P3.unPinPage_spec h.steady.agree file p dirty
  cases hrun : (poolLayer L hash file).unPinPage p dirty mgr with
  | error e m =>
    rw [hrun] at hsteady
    exact hsteady
  | ok _ m =>
    rw [hrun] at hsteady
    have hcall : P3.unPinPage hash file p dirty mgr = .ok () m := onPool_ok hrun
    rw [hcall] at hspec
    cases hspec with
    | @unpinned k holds =>
      refine h.of_holds hsteady rfl fun j g q hj => .inr ?_
      have hiff : (mgr.withDesc k ((mgr.bufDescTable k).unpinned dirty)).Holds j g q ↔ mgr.Holds j g q :=
        holds_withDesc rfl rfl rfl
      exact hiff.mp hj

variable (hL : Hosts L on blob) (hfile : on file)
include hL hfile

private theorem Roomy.readPage (p : PageId) (hfits : pins.length < bufs) :
    Triple (Roomy L hash on blob file bufs pins unsaved) ((poolLayer L hash file).readPage p)
      (fun i => Roomy L hash on blob file bufs ((p, i) :: pins) unsaved) fun e _ => e ≠ .bufferExceeded := by
  intro mgr h
  have hsteady := readPage_pins hL hfile p mgr h.steady
  have hspec := P3.readPage_spec h.steady.agree h.steady.writable file p
  cases hrun : (poolLayer L hash file).readPage p mgr with
  | error e m =>
    obtain ⟨e', hcall, rfl⟩ := onPool_error hrun
    rw [hcall] at hspec
    cases hspec with
    | exceeded absent t full =>
      obtain ⟨i, hi, htake⟩ := h.free hfits
      exact absurd htake (full i hi)
    | failed absent freed run => exact fun hexceeded => by cases Exc.ofBufError_exceeded hexceeded
  | ok i m =>
    rw [hrun] at hsteady
    rw [onPool_ok hrun] at hspec
    cases hspec with
    | hit holds =>
      refine h.of_holds hsteady rfl fun j g q hj => .inr ?_
      have hiff : (mgr.withDesc i (mgr.bufDescTable i).pinned).Holds j g q ↔ mgr.Holds j g q := holds_withDesc rfl rfl rfl
      exact hiff.mp hj
    | @loaded _ m' page files table absent freed run loads =>
      refine h.of_holds hsteady freed.numBufs fun j g q hj => ?_
      have hlt : i < (m'.withFiles files).numBufs := loads.lt
      rcases (holds_occupy hlt).mp hj with ⟨-, hg, -⟩ | ⟨-, hj⟩
      · exact .inl hg
      · exact .inr (freed.holds_iff.mp hj).2

private theorem Roomy.allocPage (hfits : pins.length < bufs) :
    Triple (Roomy L hash on blob file bufs pins unsaved) (poolLayer L hash file).allocPage
      (fun new => Roomy L hash on blob file bufs (new :: pins) unsaved) fun e _ => e ≠ .bufferExceeded := by
  intro mgr h
  have hsteady := allocPage_pins hL hfile mgr h.steady
  have hspec := P3.allocPage_spec h.steady.agree h.steady.writable file
  cases hrun : (poolLayer L hash file).allocPage mgr with
  | error e m =>
    obtain ⟨e', hcall, rfl⟩ := onPool_error hrun
    rw [hcall] at hspec
    cases hspec with
    | exceeded t full =>
      obtain ⟨i, hi, htake⟩ := h.free hfits
      exact absurd htake (full i hi)
    | failed freed run => exact fun hexceeded => by cases Exc.ofBufError_exceeded hexceeded
    | present freed run holds => exact fun hexceeded => by cases Exc.ofBufError_exceeded hexceeded
  | ok new m =>
    rw [hrun] at hsteady
    rw [onPool_ok hrun] at hspec
    cases hspec with
    | @allocated i m' new files table freed run loads =>
      refine h.of_holds hsteady freed.numBufs fun j g q hj => ?_
      have hlt : i < (m'.withFiles files).numBufs := loads.lt
      rcases (holds_occupy hlt).mp hj with ⟨-, hg, -⟩ | ⟨-, hj⟩
      · exact .inl hg
      · exact .inr (freed.holds_iff.mp hj).2

/-- The pins fit as long as they are fewer than the frames. -/
theorem roomy_books (bufs : Nat) : Books (poolLayer L hash file) (Roomy L hash on blob file bufs)
    (fun pins => pins.length < bufs) (fun _ e _ => e ≠ .bufferExceeded) where
  readPage p hfits := Roomy.readPage hL hfile p hfits
  allocPage hfits := Roomy.allocPage hL hfile hfits
  unPinPage dirty _ hsub hpinned := Roomy.unPinPage dirty hsub hpinned
  assign hmem page := fun _ h => ⟨h.steady.assigned hfile hmem page, h.numBufs, h.own⟩
  perm h hp := ⟨h.steady.perm hp, h.numBufs, h.own⟩
  unsaved h := h.steady.unsaved
  pop h := h
  outOfFuel := nofun

/-- `flushFile` when no page is pinned. -/
private theorem Roomy.flushFile {exc : Exc → BufMgr F Page σ → Prop} :
    Triple (Roomy L hash on blob file bufs [] []) (poolLayer L hash file).flushFile
      (fun _ m => Roomy L hash on blob file bufs [] [] m ∧ ∀ i g p, ¬ m.Holds i g p) exc := by
  refine Triple.of_ok (a := ()) fun mgr h => ?_
  have hdrops : ∀ {k m m'}, Roomy L hash on blob file bufs [] [] m → m.Agree hash → P3.Drops L hash k m m' →
      Roomy L hash on blob file bufs [] [] m' := by
    intro k m m' hm hagree hdrop
    obtain ⟨i, p, hdropped⟩ := hdrop
    have hfreed : P3.Freed L hash m i m' := .evicted (Touched.refl hagree.hand) hdropped
    exact hm.of_holds (hm.steady.freed hL hfreed) hfreed.numBufs fun j g q hj => .inr (hfreed.holds_iff.mp hj).2
  obtain ⟨m, -, -, hm, ⟨i, p, hi, hpos, -⟩ | ⟨hrun, hclear⟩⟩ :=
    P3.flushFile_cases (fun hm => hm.steady.writable) hdrops h.steady.agree h file
  · exact absurd (hm.steady.mem_of_pos hi hpos) List.not_mem_nil
  · refine ⟨m, ?_, hm, fun i g p hi => ?_⟩
    · show onPool (P3.flushFile L hash file) mgr = _
      rw [onPool, hrun]
    · obtain rfl := hm.own i g p hi
      exact hclear i p hi

end Calls

/-! ### The height -/

section Height

variable {s : PageStore} {u : World PageStore PageId} {h : Nat} {t : Branch}

/-- The entries of the subtrees of a node. -/
private theorem IsNode.length_ge {root aboveLeaves : Bool} {n : NonLeafNodeInt} {keys : List Int} {subs : List Branch}
    {k : Nat} (hn : IsNode s root aboveLeaves t n keys subs) (hsubs : ∀ v ∈ subs, k ≤ v.entries.length) :
    subs.length * k ≤ t.entries.length := by
  have hsum := List.card_nsmul_le_sum (subs.map fun v => v.entries.length) k fun x hx => by
    obtain ⟨v, hv, rfl⟩ := List.mem_map.mp hx
    exact hsubs v hv
  rw [List.length_map, smul_eq_mul] at hsum
  rw [hn.entries_eq, List.length_flatten, List.map_map]
  exact hsum

private theorem Subtree.height_le (ht : Subtree s h false t) : 341 * (h + 1) ≤ t.entries.length := by
  induction h generalizing t with
  | zero => exact ht.length_ge
  | succ h ih =>
    obtain ⟨n, keys, subs, hn, hsubs⟩ := ht
    have hle := hn.length_ge fun v hv => ih (hsubs v hv)
    have hmany : 512 * (341 * (h + 1)) ≤ subs.length * (341 * (h + 1)) := Nat.mul_le_mul_right _ (hn.half rfl)
    have hgrows : 341 * (h + 1 + 1) ≤ 512 * (341 * (h + 1)) := by omega
    exact hgrows.trans (hmany.trans hle)

/-- A tree has at least 682 entries for every level above its leaves. -/
theorem Tree.height_le (ht : Tree u h t) : 682 * h ≤ t.entries.length := by
  cases h with
  | zero => exact Nat.zero_le _
  | succ h =>
    obtain ⟨n, keys, subs, hn, hsubs⟩ : ∃ n keys subs, IsNode u.pages true (h == 0) t n keys subs ∧
        ∀ v ∈ subs, Subtree u.pages h false v := ht.subtree
    have hle := hn.length_ge fun v hv => (hsubs v hv).height_le
    have htwo : 2 * (341 * (h + 1)) ≤ subs.length * (341 * (h + 1)) := Nat.mul_le_mul_right _ hn.two
    have heq : 682 * (h + 1) = 2 * (341 * (h + 1)) := by omega
    exact heq.le.trans (htwo.trans hle)

end Height

/-! ### Calls that return -/

section Returns

variable {s : PageStore} {first : PageId} {u : World PageStore PageId} {w : World (BufMgr F Page σ) FrameId} {h : Nat}
  {t : Branch}

theorem Roomy.unpinned (hroomy : Roomy L hash on blob file bufs ((p, i) :: pins) [] mgr)
    (hm : Mirrors hash blob file first s mgr) :
    ∃ m, (poolLayer L hash file).unPinPage p false mgr = .ok () m ∧ Roomy L hash on blob file bufs pins [] m ∧
      Mirrors hash blob file first s m ∧ m.bufPool = mgr.bufPool := by
  have hunpin : Triple (Roomy L hash on blob file bufs ((p, i) :: pins) []) ((poolLayer L hash file).unPinPage p false)
      (fun _ => Roomy L hash on blob file bufs pins []) fun _ _ => False :=
    Roomy.unPinPage false (fun q hq => absurd hq List.not_mem_nil) fun q hq => absurd hq List.not_mem_nil
  have hroomy' := hunpin mgr hroomy
  have hstate : stateAfter ((poolLayer L hash file).unPinPage p false mgr) =
      stateAfter (P3.unPinPage hash file p false mgr) := stateAfter_onPool ..
  have hsame : SameFile hash blob file mgr _ := unPinPage_same hroomy.steady.agree p false
  have hbytes : (stateAfter (P3.unPinPage hash file p false mgr)).bufPool = mgr.bufPool :=
    unPinPage_bufPool hroomy.steady.agree p false
  cases hrun : (poolLayer L hash file).unPinPage p false mgr with
  | error e m =>
    rw [hrun] at hroomy'
    exact hroomy'.elim
  | ok _ m =>
    rw [hrun] at hroomy' hstate
    obtain rfl : m = _ := hstate
    exact ⟨_, rfl, hroomy', hm.same hsame, hbytes⟩

variable (hL : Hosts L on blob) (hfile : on file)
include hL hfile

/-- With a frame to spare, a page of the file is read. -/
theorem Roomy.read (hroomy : Roomy L hash on blob file bufs pins unsaved mgr) (hm : Mirrors hash blob file first s mgr)
    (hfits : pins.length < bufs) (hp : s.Has p) :
    ∃ i m, (poolLayer L hash file).readPage p mgr = .ok i m ∧ Roomy L hash on blob file bufs ((p, i) :: pins) unsaved m ∧
      Mirrors hash blob file first s m ∧ m.bufPool i = s.pages p := by
  have hread := Roomy.readPage hL hfile p hfits mgr hroomy
  have hsim : Simulates Exc.GivesUp (Mirrored L hash on blob file first pins unsaved s) _ _ _ fun e _ _ => e = .outOfFuel :=
    readPage_mirrored hL hfile hp
  have hmatches : Matches Exc.GivesUp _ _ _ (.ok p s) := hsim mgr s ⟨rfl, hroomy.steady, hm⟩
  obtain ⟨i, m, hrun, -, -, hsteady, hmirrors⟩ := hmatches.returns fun e m hrun => by
    rw [hrun] at hread
    exact hread
  rw [hrun] at hread
  refine ⟨i, m, hrun, hread, hmirrors, ?_⟩
  exact (hmirrors.held hsteady.agree (hsteady.pinned (p, i) List.mem_cons_self)).2

/-- With three pins to spare on top of the height, an insertion returns. -/
private theorem Follows.insertEntry_returns (hf : Follows hash blob file h t u w)
    (hroomy : Roomy L hash on blob file bufs pins unsaved w.pages) (hfits : pins.length + h + 3 ≤ bufs) (key : Int)
    {rid : RecordId} (hrid : rid.page_number ≠ INVALID_NUMBER) :
    ∃ w' u' h' t', BTree.insertEntry (poolLayer L hash file) key rid w = .ok () w' ∧ Follows hash blob file h' t' u' w' ∧
      t'.entries.length = t.entries.length + 1 ∧ Roomy L hash on blob file bufs pins unsaved w'.pages := by
  have ht := hf.tree
  obtain ⟨r, s', h₁, t₁, hplain, ht₁, hentries⟩ := ht.insertEntry key hrid
  obtain ⟨i, m, hheader, hroomy₁, -, hpage⟩ :=
    hroomy.read hL hfile hf.mirrors (by omega) ⟨ht.header_valid, ht.header_lt⟩
  rw [← hf.header] at hheader hroomy₁
  -- so deep does the recursion go
  have hdepth : ((poolLayer L hash file).load i m).asMetaInfo.height.toNat = h + 1 := by
    obtain ⟨metaInfo, hmeta, hheight, -⟩ := ht.header
    have hload : (poolLayer L hash file).load i m = m.bufPool i := rfl
    rw [hload, hpage, hmeta, asMetaInfo_metaInfo, hheight]
    omega
  have hends := (roomy_books hL hfile bufs).insertEntryWithin (fun metaInfo => metaInfo.height.toNat) key rid hheader hroomy₁
    hroomy.steady.unsaved fun more hmore => by
      rw [List.length_append]
      omega
  have hmatches := hf.insertEntry hL hfile hroomy.steady (fun metaInfo => metaInfo.height.toNat) key hrid
  rw [← BTree.insertEntry] at hends hmatches
  rw [← BTree.insertEntry, hplain] at hmatches
  obtain ⟨_, w', hrun, ⟨h', t', hf'⟩, -⟩ := hmatches.returns fun e m hrun => by
    rw [hrun] at hends
    exact hends
  rw [hrun] at hends
  refine ⟨w', _, h', t', hrun, hf', ?_, hends.2⟩
  have hsame : t'.entries = t₁.entries := Option.some.inj (hf'.tree.leafWalk_eq.symm.trans ht₁.leafWalk_eq)
  rw [hsame, hentries]
  exact length_insertBehind ..

/-- The insertions of the constructor return, by induction on them. -/
private theorem Follows.insertAll_returns {entries : List (Int × RecordId)} (hf : Follows hash blob file h t u w)
    (hvalid : ∀ e ∈ entries, e.2.page_number ≠ INVALID_NUMBER) (hroomy : Roomy L hash on blob file bufs pins unsaved w.pages)
    (hfits : pins.length + (t.entries.length + entries.length) / 682 + 3 ≤ bufs) :
    ∃ w', insertAll (poolLayer L hash file) entries w = .ok () w' ∧
      Roomy L hash on blob file bufs pins unsaved w'.pages := by
  induction entries generalizing u w h t with
  | nil => exact ⟨w, rfl, hroomy⟩
  | cons e entries ih =>
    have hheight := hf.tree.height_le
    rw [List.length_cons] at hfits
    obtain ⟨w₁, u₁, h₁, t₁, hrun, hf₁, hlength, hroomy₁⟩ :=
      hf.insertEntry_returns hL hfile hroomy (by omega) e.1 (hvalid e List.mem_cons_self)
    obtain ⟨w', hrest, hroomy'⟩ := ih hf₁ (fun x hx => hvalid x (List.mem_cons_of_mem _ hx)) hroomy₁ (by omega)
    refine ⟨w', ?_, hroomy'⟩
    rw [insertAll, run_bind_ok hrun]
    exact hrest

/-- Over an empty pool with five frames, and one more for every 682 pairs, the constructor returns. -/
theorem construct_returns {relationName : Nat → Nat} {nameLength : Nat} {attrByteOffset : Int} {attrType : Datatype}
    {entries : List (Int × RecordId)} (idle : Idle L hash on w.pages) (hempty : ∀ i g p, ¬ w.pages.Holds i g p)
    (hcreated : blob w.pages.files = .create Page) (hvalid : ∀ e ∈ entries, e.2.page_number ≠ INVALID_NUMBER)
    (hfits : entries.length / 682 + 5 ≤ w.pages.numBufs) :
    ∃ w', construct (poolLayer L hash file) relationName nameLength attrByteOffset attrType entries w = .ok () w' ∧
      Roomy L hash on blob file w.pages.numBufs [] [] w'.pages ∧ ∀ i g p, ¬ w'.pages.Holds i g p := by
  have hfive : 5 ≤ w.pages.numBufs := (Nat.le_add_left ..).trans hfits
  have hstart : Mirrors hash blob file INVALID_NUMBER created w.pages := idle.mirrors hfile hcreated
  have hroomy : Roomy L hash on blob file w.pages.numBufs [] [] w.pages :=
    ⟨idle.steady hfile, rfl, fun i g p hi => absurd hi (hempty i g p)⟩
  have hbooks : Books (poolLayer L hash file) (Roomy L hash on blob file w.pages.numBufs) _ _ := roomy_books hL hfile _
  have hpages := hbooks.constructPages (Nat.lt_of_lt_of_le (by decide : 0 < 5) hfive)
    (fun _ => Nat.lt_of_lt_of_le (by decide : 1 < 5) hfive) relationName nameLength attrByteOffset attrType w hroomy
  have hsim : Simulates Exc.GivesUp (Both w.index uninitialized (Mirrored L hash on blob file INVALID_NUMBER [] [] created))
      _ _ _ fun e _ _ => e = .outOfFuel :=
    constructPages_mirrored hL hfile (fun _ _ => rfl) relationName nameLength attrByteOffset attrType
  have hmatches := hsim w ⟨uninitialized, created⟩ ⟨rfl, rfl, rfl, hroomy.steady, hstart⟩
  rw [constructPages_eq] at hmatches
  obtain ⟨_, w₁, hbegins, ⟨rfl, -⟩, hat, -, i, j, s, rfl, -, hmirrors⟩ := hmatches.returns fun e m hrun => by
    rw [hrun] at hpages
    exact hpages
  rw [hbegins] at hpages
  obtain ⟨-, -, i', j', hroomy₁⟩ := hpages
  have hf₁ := (⟨tree_new uninitialized attrByteOffset attrType _, leafLinks_new _, rfl, hat.1, hat.2, hmirrors⟩ :
    Follows hash blob file 0 _ _ _)
  obtain ⟨w₂, hinserts, hroomy₂⟩ := hf₁.insertAll_returns hL hfile hvalid hroomy₁ (by
    have hnone : (Branch.leaf 2 []).entries.length = 0 := rfl
    rw [hnone, List.length_cons, List.length_singleton, Nat.zero_add]
    omega)
  have hend : Triple (At w₂.index (Roomy L hash on blob file w.pages.numBufs [(2, j'), (1, i')] [2, 1, 1])) _ _
      fun _ _ => False :=
    hbooks.constructEnd (Roomy.flushFile hL hfile)
  have hlast := hend w₂ ⟨rfl, hroomy₂⟩
  cases hends : constructEnd (poolLayer L hash file) 1 2 w₂ with
  | error e w₃ =>
    rw [hends] at hlast
    exact hlast.elim
  | ok _ w₃ =>
    rw [hends] at hlast
    refine ⟨w₃, ?_, hlast.2⟩
    rw [construct, run_bind_ok hbegins]
    dsimp only
    rw [run_bind_ok hinserts]
    exact hends

/-- Over an empty pool, an index is opened again. -/
theorem reopen_returns {attrByteOffset : Int} {attrType : Datatype} (idle : Idle L hash on w.pages)
    (hempty : ∀ i g p, ¬ w.pages.Holds i g p) (hm : Mirrors hash blob file 1 s w.pages) (hone : s.Has 1) :
    ∃ w', reopen (poolLayer L hash file) (getFirstPageNo blob) attrByteOffset attrType w = .ok () w' ∧
      Roomy L hash on blob file w.pages.numBufs [] [] w'.pages := by
  have hroomy : Roomy L hash on blob file w.pages.numBufs [] [] w.pages :=
    ⟨idle.steady hfile, rfl, fun i g p hi => absurd hi (hempty i g p)⟩
  obtain ⟨i, m, hread, hroomy₁, hm₁, -⟩ := hroomy.read hL hfile hm idle.agree.pos hone
  obtain ⟨m', hunpin, hroomy', -, -⟩ := hroomy₁.unpinned hm₁
  have hfirst : getFirstPageNo blob w.pages = .ok 1 w.pages := by
    rw [getFirstPageNo, BlobFile.getFirstPageNo, hm.live, hm.first]
    rfl
  have hderef : deref (poolLayer L hash file) i m = .ok (m.bufPool i) m := rfl
  refine ⟨⟨{ w.index with attributeType := attrType, attrByteOffset := attrByteOffset, scanExecuting := false
                          headerPageNum := 1, rootPageNum := (m.bufPool i).asMetaInfo.rootPageNo }, m'⟩, ?_, hroomy'⟩
  simp only [reopen, run_bind, run_setIndex, onPages, hfirst, hread, hderef, hunpin]

end Returns

end Cs564.BTree
