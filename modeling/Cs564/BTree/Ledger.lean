import Cs564.BTree.Pool

/-!
# The pins of the index

`Steady pins unsaved` says which pins the index holds on the pages of its file, in any order, each with the frame that it
points into, and which of these pages it has changed since they were last marked as dirty.  A page that is not among the
latter is in the file, or its frame is dirty.  The calls of the manager move along these two lists, whatever other pages
are in the pool and whatever is evicted.
-/

namespace Cs564.BTree

open P2 (BufError BufHashTbl BufDesc BufMgr BufM Loads)
open P2.BufMgr
open P3 (FileLayer BlobFile Freed Writable)

variable {F σ : Type} [DecidableEq F]

/-- The pages that are pinned. -/
def pages (pins : List (PageId × FrameId)) : List PageId := pins.map Prod.fst

theorem pages_cons (p : PageId) (i : FrameId) (pins : List (PageId × FrameId)) :
    pages ((p, i) :: pins) = p :: pages pins := rfl

/-- The pool and the files when the index on `file` holds the pins `pins` and has not marked its changes of the pages
`unsaved`. -/
structure Steady (L : FileLayer F Page σ) (hash : F → PageId → Nat) (on : F → Prop) (blob : σ → BlobFile Page) (file : F)
    (pins : List (PageId × FrameId)) (unsaved : List PageId) (mgr : BufMgr F Page σ) : Prop where
  agree : mgr.Agree hash
  storable : Storable L on mgr
  alone : ∀ i g p, mgr.Holds i g p → on g → g = file
  pinned : ∀ x ∈ pins, mgr.Holds x.2 file x.1
  count : ∀ i p, mgr.Holds i file p → (mgr.bufDescTable i).pinCnt = (pages pins).count p
  saved : ∀ i p, mgr.Holds i file p → (mgr.bufDescTable i).dirty = false → p ∉ unsaved →
    (blob mgr.files).failed = false → (blob mgr.files).pages p = some (mgr.bufPool i)
  unsaved : ∀ p ∈ unsaved, p ∈ pages pins

variable {L : FileLayer F Page σ} {hash : F → PageId → Nat} {on : F → Prop} {blob : σ → BlobFile Page} {file : F}
  {pins : List (PageId × FrameId)} {unsaved : List PageId} {mgr m : BufMgr F Page σ} {i j : FrameId} {p q : PageId}

namespace Steady

/-- The pins in another order. -/
theorem perm (h : Steady L hash on blob file pins unsaved mgr) {pins' : List (PageId × FrameId)} (hp : pins'.Perm pins) :
    Steady L hash on blob file pins' unsaved mgr where
  agree := h.agree
  storable := h.storable
  alone := h.alone
  pinned x hx := h.pinned x (hp.mem_iff.mp hx)
  count i p hi := (h.count i p hi).trans ((hp.map Prod.fst).count_eq p).symm
  saved := h.saved
  unsaved p hp' := (hp.map Prod.fst).mem_iff.mpr (h.unsaved p hp')

/-- More pages may count as changed, as long as they are pinned. -/
theorem mono (h : Steady L hash on blob file pins unsaved mgr) {unsaved' : List PageId} (hsub : ∀ p ∈ unsaved, p ∈ unsaved')
    (hpinned : ∀ p ∈ unsaved', p ∈ pages pins) : Steady L hash on blob file pins unsaved' mgr where
  agree := h.agree
  storable := h.storable
  alone := h.alone
  pinned := h.pinned
  count := h.count
  saved i p hi hdirty hp hlive := h.saved i p hi hdirty (fun hmem => hp (hsub p hmem)) hlive
  unsaved := hpinned

theorem writable (h : Steady L hash on blob file pins unsaved mgr) : Writable L mgr :=
  fun i g p hi => h.storable.accepts i g p hi (mgr.bufPool i)

/-- A pinned page has pins. -/
theorem pos_of_mem (h : Steady L hash on blob file pins unsaved mgr) (hi : mgr.Holds i file p) (hmem : p ∈ pages pins) :
    0 < (mgr.bufDescTable i).pinCnt := by
  rw [h.count i p hi]
  exact List.count_pos_iff.mpr hmem

theorem mem_of_pos (h : Steady L hash on blob file pins unsaved mgr) (hi : mgr.Holds i file p)
    (hpos : 0 < (mgr.bufDescTable i).pinCnt) : p ∈ pages pins := by
  rw [h.count i p hi] at hpos
  exact List.count_pos_iff.mp hpos

omit [DecidableEq F] in
theorem mem_pages {x : PageId × FrameId} (hx : x ∈ pins) : x.1 ∈ pages pins := List.mem_map_of_mem hx

/-- The frames of the index file stay as they are, but unpinned pages may leave the pool. -/
theorem shrink (h : Steady L hash on blob file pins unsaved mgr) (hagree : m.Agree hash)
    (hstorable : Storable L on m) (halone : ∀ i g p, m.Holds i g p → on g → g = file)
    (hsub : ∀ i p, m.Holds i file p → mgr.Holds i file p ∧ mgr.SameFrame m i)
    (hkeep : ∀ i p, mgr.Holds i file p → 0 < (mgr.bufDescTable i).pinCnt → m.Holds i file p)
    (hblob : (blob m.files).failed = false → (blob mgr.files).failed = false ∧
      ∀ i p, m.Holds i file p → (blob m.files).pages p = (blob mgr.files).pages p) :
    Steady L hash on blob file pins unsaved m where
  agree := hagree
  storable := hstorable
  alone := halone
  pinned x hx := hkeep _ _ (h.pinned x hx) (h.pos_of_mem (h.pinned x hx) (mem_pages hx))
  count i p hi := by
    obtain ⟨hold, hsame⟩ := hsub i p hi
    rw [hsame.pinCnt]
    exact h.count i p hold
  saved i p hi hdirty hp hlive := by
    obtain ⟨hold, hsame⟩ := hsub i p hi
    obtain ⟨hlive', hpages⟩ := hblob hlive
    rw [hpages i p hi, hsame.page]
    exact h.saved i p hold (hsame.dirty.symm.trans hdirty) hp hlive'
  unsaved := h.unsaved

/-- The clock hand and reference bits move. -/
theorem touched (h : Steady L hash on blob file pins unsaved mgr) (t : mgr.Touched m) :
    Steady L hash on blob file pins unsaved m := by
  have hsame : ∀ i, mgr.SameFrame m i := fun i => ⟨by rw [t.desc i], by rw [t.desc i], by rw [t.bufPool]⟩
  have hstorable : Storable L on m := by
    refine h.storable.sub (fun haccepts => ?_) fun i g p hi => ⟨t.holds_iff.mp hi, fun _ => (hsame i).page⟩
    rw [t.files]
    exact haccepts
  refine h.shrink (h.agree.touched t) hstorable (fun i g p hi => h.alone i g p (t.holds_iff.mp hi))
    (fun i p hi => ⟨t.holds_iff.mp hi, hsame i⟩) (fun i p hi _ => t.holds_iff.mpr hi) fun hlive => ?_
  rw [t.files] at hlive ⊢
  exact ⟨hlive, fun _ _ _ => rfl⟩

end Steady

/-! ### Blob files -/

section Blob

variable {P : Type} {b : BlobFile P}

theorem readPage_pages (fresh : P) (p : PageId) : (b.readPage fresh p).2.pages = b.pages := by
  unfold BlobFile.readPage
  split
  · rfl
  · split <;> rfl

/-- A read of a live file leaves it live if and only if the page is there. -/
theorem readPage_live {fresh : P} {p : PageId} (hlive : (b.readPage fresh p).2.failed = false) :
    b.failed = false ∧ b.pages p = some (b.readPage fresh p).1 := by
  unfold BlobFile.readPage at hlive ⊢
  by_cases hfailed : b.failed = true
  · rw [if_pos hfailed, hfailed] at hlive
    cases hlive
  · rw [if_neg hfailed] at hlive ⊢
    cases hpage : b.pages p with
    | none =>
      rw [hpage] at hlive
      cases hlive
    | some page => exact ⟨Bool.eq_false_iff.mpr hfailed, rfl⟩

theorem writePage_failed (p : PageId) (page : P) : (b.writePage p page).failed = b.failed := by
  unfold BlobFile.writePage
  split <;> rfl

theorem writePage_numPages (p : PageId) (page : P) : (b.writePage p page).num_pages = b.num_pages := by
  unfold BlobFile.writePage
  split <;> rfl

theorem writePage_first (p : PageId) (page : P) : (b.writePage p page).first_used_page = b.first_used_page := by
  unfold BlobFile.writePage
  split <;> rfl

theorem writePage_of_ne {p q : PageId} (page : P) (hq : q ≠ p) : (b.writePage p page).pages q = b.pages q := by
  unfold BlobFile.writePage
  split
  · rfl
  · exact if_neg hq

theorem writePage_self {p : PageId} {page : P} (hlive : b.failed = false) : (b.writePage p page).pages p = some page := by
  unfold BlobFile.writePage
  rw [hlive]
  exact if_pos rfl

end Blob

/-! ### Frames that are freed -/

section Freed

/-- A page that was written to make room. -/
theorem freed_files (hfreed : Freed L hash mgr i m) : m.files = mgr.files ∨
    ∃ g p, mgr.Holds i g p ∧ L.writePage g p (mgr.bufPool i) mgr.files = .ok () m.files := by
  cases hfreed with
  | empty t => exact .inl t.files
  | @evicted m₁ _ g p t dropped =>
    cases dropped with
    | @drop files table holds unpinned written removed =>
      unfold P3.Written at written
      by_cases hdirty : (m₁.bufDescTable i).dirty = true
      · rw [if_pos hdirty, t.bufPool, t.files] at written
        exact .inr ⟨g, p, t.holds_iff.mp holds, written⟩
      · rw [if_neg hdirty, t.files] at written
        exact .inl written

/-- A page of the index file that was not in the freed frame is as it was in the file, and so is every page of a file
whose stream has failed. -/
theorem freed_blob (hL : Hosts L on blob) (h : Steady L hash on blob file pins unsaved mgr)
    (hfreed : Freed L hash mgr i m) : (blob m.files).failed = (blob mgr.files).failed ∧
      (blob m.files).num_pages = (blob mgr.files).num_pages ∧
      (blob m.files).first_used_page = (blob mgr.files).first_used_page ∧
      ∀ q, ¬ mgr.Holds i file q ∨ (blob mgr.files).failed = true → (blob m.files).pages q = (blob mgr.files).pages q := by
  rcases freed_files hfreed with hfiles | ⟨g, p, hi, hwrite⟩
  · rw [hfiles]
    exact ⟨rfl, rfl, rfl, fun _ _ => rfl⟩
  · by_cases hg : on g
    · obtain rfl : g = file := h.alone i g p hi hg
      obtain ⟨files', hrun, hblob⟩ := hL.writePage hg mgr.files p (mgr.bufPool i)
      rw [hwrite] at hrun
      obtain ⟨-, rfl⟩ := EStateM.Result.ok.inj hrun
      rw [hblob]
      refine ⟨writePage_failed .., writePage_numPages .., writePage_first .., fun q hq => ?_⟩
      rcases hq with hq | hfailed
      · refine writePage_of_ne _ ?_
        rintro rfl
        exact hq hi
      · rw [BlobFile.writePage, if_pos hfailed]
    · have hleads : Leads L g mgr.files m.files := .write hwrite
      rw [hL.elsewhere hg hleads]
      exact ⟨rfl, rfl, rfl, fun _ _ => rfl⟩

/-- Making room takes from no page that it can be written. -/
theorem Storable.freed_accepts (hL : Hosts L on blob) (h : Storable L on mgr) (hfreed : Freed L hash mgr i m) {g : F}
    (haccepts : Accepts L mgr.files g p) : Accepts L m.files g p := by
  rcases freed_files hfreed with hfiles | ⟨k, q, hi, hwrite⟩
  · rw [hfiles]
    exact haccepts
  · by_cases hk : on k
    · have hleads : Leads L k mgr.files m.files := .write hwrite
      exact hL.accepts hk hleads haccepts
    · exact h.harmless i k q hi hk hwrite haccepts

theorem Storable.freed (hL : Hosts L on blob) (h : Storable L on mgr) (hfreed : Freed L hash mgr i m) : Storable L on m := by
  refine h.sub (h.freed_accepts hL hfreed) fun j g p hj => ?_
  obtain ⟨hne, hold⟩ := hfreed.holds_iff.mp hj
  exact ⟨hold, fun _ => (hfreed.same hne).page⟩

theorem Steady.freed (hL : Hosts L on blob) (h : Steady L hash on blob file pins unsaved mgr)
    (hfreed : Freed L hash mgr i m) : Steady L hash on blob file pins unsaved m := by
  obtain ⟨hfailed, -, -, hpages⟩ := freed_blob hL h hfreed
  refine h.shrink (hfreed.agree h.agree) (h.storable.freed hL hfreed)
    (fun j g p hj => h.alone j g p (hfreed.holds_iff.mp hj).2) (fun j p hj => ?_)
    (fun j p hj hpos => (hfreed.protects hj hpos).2) fun hlive => ⟨hfailed ▸ hlive, fun j p hj => ?_⟩
  · obtain ⟨hne, hold⟩ := hfreed.holds_iff.mp hj
    exact ⟨hold, hfreed.same hne⟩
  · obtain ⟨hne, hold⟩ := hfreed.holds_iff.mp hj
    refine hpages p (.inl fun hi => hne ?_)
    exact h.agree.unique hold hi

end Freed

/-! ### The pages as the index sees them -/

section Seen

/-- The page as `readPage` would give it, if the file has it. -/
def seen (hash : F → PageId → Nat) (blob : σ → BlobFile Page) (file : F) (mgr : BufMgr F Page σ) (p : PageId) :
    Option Page :=
  match mgr.hashTable.lookup hash file p with
  | .ok i => some (mgr.bufPool i)
  | .error _ => (blob mgr.files).pages p

theorem seen_held (h : mgr.Agree hash) (hi : mgr.Holds i file p) : seen hash blob file mgr p = some (mgr.bufPool i) := by
  rw [seen, h.lookup_some hi]

theorem seen_absent (h : mgr.Agree hash) (hno : ∀ i, ¬ mgr.Holds i file p) :
    seen hash blob file mgr p = (blob mgr.files).pages p := by
  rw [seen, h.lookup_none hno]

/-- A page that stays in its frame, or leaves it for the file. -/
theorem seen_shrink (h : mgr.Agree hash) (h' : m.Agree hash)
    (hsub : ∀ i, m.Holds i file p → mgr.Holds i file p ∧ m.bufPool i = mgr.bufPool i)
    (hgone : ∀ i, mgr.Holds i file p → ¬ m.Holds i file p → (blob m.files).pages p = some (mgr.bufPool i))
    (habsent : (∀ i, ¬ mgr.Holds i file p) → (blob m.files).pages p = (blob mgr.files).pages p) :
    seen hash blob file m p = seen hash blob file mgr p := by
  by_cases hheld : ∃ i, mgr.Holds i file p
  · obtain ⟨i, hi⟩ := hheld
    rw [seen_held h hi]
    by_cases hi' : m.Holds i file p
    · rw [seen_held h' hi', (hsub i hi').2]
    · rw [seen_absent h' fun j hj => hi' (h.unique (hsub j hj).1 hi ▸ hj), hgone i hi hi']
  · have hno := not_exists.mp hheld
    rw [seen_absent h hno, seen_absent h' fun j hj => hno j (hsub j hj).1, habsent hno]

theorem seen_touched (h : mgr.Agree hash) (t : mgr.Touched m) :
    seen hash blob file m p = seen hash blob file mgr p := by
  refine seen_shrink h (h.touched t) (fun i hi => ⟨t.holds_iff.mp hi, by rw [t.bufPool]⟩) (fun i hi hno => ?_)
    fun _ => by rw [t.files]
  exact absurd (t.holds_iff.mpr hi) hno

/-- The index file is as it was, and as long as its stream is fine so are its pages. -/
structure SameFile (hash : F → PageId → Nat) (blob : σ → BlobFile Page) (file : F) (mgr m : BufMgr F Page σ) : Prop where
  failed : (blob m.files).failed = (blob mgr.files).failed
  numPages : (blob m.files).num_pages = (blob mgr.files).num_pages
  first : (blob m.files).first_used_page = (blob mgr.files).first_used_page
  seen : (blob mgr.files).failed = false → ∀ p, seen hash blob file m p = BTree.seen hash blob file mgr p

theorem SameFile.trans {m' : BufMgr F Page σ} (h : SameFile hash blob file mgr m) (h' : SameFile hash blob file m m') :
    SameFile hash blob file mgr m' where
  failed := h'.failed.trans h.failed
  numPages := h'.numPages.trans h.numPages
  first := h'.first.trans h.first
  seen hlive p := (h'.seen (h.failed.trans hlive) p).trans (h.seen hlive p)

theorem SameFile.touched (h : mgr.Agree hash) (t : mgr.Touched m) : SameFile hash blob file mgr m where
  failed := by rw [t.files]
  numPages := by rw [t.files]
  first := by rw [t.files]
  seen _ _ := seen_touched h t

/-- The page that leaves a freed frame is in the file then. -/
private theorem Steady.freed_seen (hL : Hosts L on blob) (hfile : on file)
    (h : Steady L hash on blob file pins unsaved mgr) (hfreed : Freed L hash mgr i m)
    (hlive : (blob mgr.files).failed = false) (p : PageId) : seen hash blob file m p = seen hash blob file mgr p := by
  have hpages := (freed_blob hL h hfreed).2.2.2
  refine seen_shrink h.agree (hfreed.agree h.agree) (fun j hj => ?_) (fun j hj hno => ?_) fun hno => hpages p (.inl (hno i))
  · obtain ⟨hne, hold⟩ := hfreed.holds_iff.mp hj
    exact ⟨hold, (hfreed.same hne).page⟩
  · obtain rfl : j = i := by
      by_contra hne
      exact hno (hfreed.holds_iff.mpr ⟨hne, hj⟩)
    have hzero : (mgr.bufDescTable j).pinCnt = 0 := by
      rcases hfreed.takeable with hinvalid | hzero
      · exact absurd (hinvalid.symm.trans hj.2.valid) Bool.false_ne_true
      · exact hzero
    have hunpinned : p ∉ pages pins := fun hmem => Nat.ne_of_gt (h.pos_of_mem hj hmem) hzero
    cases hfreed with
    | empty t _ invalid =>
      rw [t.desc j] at invalid
      exact absurd (invalid.symm.trans hj.2.valid) Bool.false_ne_true
    | @evicted m₁ _ g q t dropped =>
      cases dropped with
      | @drop files table holds unpinned written removed =>
        obtain ⟨rfl, rfl⟩ : g = file ∧ q = p := by
          have hg := t.holds_iff.mp holds
          exact ⟨Option.some.inj (hg.2.file.symm.trans hj.2.file), hg.2.pageNo.symm.trans hj.2.pageNo⟩
        unfold P3.Written at written
        by_cases hdirty : (m₁.bufDescTable j).dirty = true
        · rw [if_pos hdirty, t.bufPool, t.files] at written
          obtain ⟨files', hwrite, hblob⟩ := hL.writePage hfile mgr.files q (mgr.bufPool j)
          rw [written] at hwrite
          obtain ⟨-, rfl⟩ := EStateM.Result.ok.inj hwrite
          have hself : (blob files).pages q = some (mgr.bufPool j) := by
            rw [hblob]
            exact writePage_self hlive
          exact hself
        · rw [if_neg hdirty, t.files] at written
          have hclean : (mgr.bufDescTable j).dirty = false := by
            rw [t.desc j] at hdirty
            exact Bool.eq_false_iff.mpr hdirty
          have hfiles : ((m₁.withFiles files).vacate j table).files = mgr.files := written
          rw [hfiles]
          exact h.saved j q hj hclean (fun hmem => hunpinned (h.unsaved q hmem)) hlive

theorem SameFile.freed (hL : Hosts L on blob) (hfile : on file) (h : Steady L hash on blob file pins unsaved mgr)
    (hfreed : Freed L hash mgr i m) : SameFile hash blob file mgr m := by
  obtain ⟨hfailed, hnum, hfirst, -⟩ := freed_blob hL h hfreed
  exact ⟨hfailed, hnum, hfirst, h.freed_seen hL hfile hfreed⟩

/-- The frames and the file of the index are not concerned. -/
theorem Steady.aside (h : Steady L hash on blob file pins unsaved mgr) (hagree : m.Agree hash)
    (hstorable : Storable L on m) (halone : ∀ i g p, m.Holds i g p → on g → g = file)
    (hholds : ∀ i p, m.Holds i file p ↔ mgr.Holds i file p) (hsame : ∀ i p, mgr.Holds i file p → mgr.SameFrame m i)
    (hblob : blob m.files = blob mgr.files) :
    Steady L hash on blob file pins unsaved m ∧ SameFile hash blob file mgr m := by
  constructor
  · refine h.shrink hagree hstorable halone (fun i p hi => ?_) (fun i p hi _ => (hholds i p).mpr hi) fun hlive => ?_
    · have hi' := (hholds i p).mp hi
      exact ⟨hi', hsame i p hi'⟩
    · rw [hblob] at hlive ⊢
      exact ⟨hlive, fun _ _ _ => rfl⟩
  · refine ⟨by rw [hblob], by rw [hblob], by rw [hblob], fun _ p => ?_⟩
    refine seen_shrink h.agree hagree (fun i hi => ?_) (fun i hi hno => ?_) fun _ => by rw [hblob]
    · have hi' := (hholds i p).mp hi
      exact ⟨hi', (hsame i p hi').page⟩
    · exact absurd ((hholds i p).mpr hi) hno

end Seen

end Cs564.BTree
