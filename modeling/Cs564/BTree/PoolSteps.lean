import Cs564.BTree.Ledger

/-!
# The pool step by step

What each call of the manager does to the pins of the index: its own calls move along the lists of `Steady`, and what
other clients do leaves both lists and the pages of the index as they are (`Steady.other`).
-/

namespace Cs564.BTree

open P2 (BufError BufHashTbl BufDesc BufMgr BufM Loads)
open P2.BufMgr
open P3 (FileLayer BlobFile Freed Writable)

variable {F σ : Type} [DecidableEq F]

variable {L : FileLayer F Page σ} {hash : F → PageId → Nat} {on : F → Prop} {blob : σ → BlobFile Page} {file : F}
  {pins : List (PageId × FrameId)} {unsaved : List PageId} {mgr m : BufMgr F Page σ} {i j : FrameId} {p q : PageId}

/-! ### The calls -/

section Calls

omit [DecidableEq F] in
/-- A page is put into a frame. -/
theorem Storable.loaded (h : Storable L on m) {g : F} (hlt : i < m.numBufs) {table : BufHashTbl F} {page : Page} {files : σ}
    (hkept : ∀ {k q}, Accepts L m.files k q → Accepts L files k q) (hnew : Accepts L files g p)
    (hharmless : ¬ on g → Harmless L g p page) : Storable L on ((m.withFiles files).occupy i table g p page) := by
  have hholds : ∀ {j k q}, ((m.withFiles files).occupy i table g p page).Holds j k q ↔
      (j = i ∧ k = g ∧ q = p) ∨ (j ≠ i ∧ m.Holds j k q) := holds_occupy hlt
  refine ⟨fun j k q hj => ?_, fun j k q hj hk => ?_⟩
  · rcases hholds.mp hj with ⟨rfl, rfl, rfl⟩ | ⟨-, hj⟩
    · exact hnew
    · exact hkept (h.accepts j k q hj)
  · rcases hholds.mp hj with ⟨rfl, rfl, rfl⟩ | ⟨hne, hj⟩
    · have hpage : ((m.withFiles files).occupy j table k q page).bufPool j = page := Function.update_self ..
      rw [hpage]
      exact hharmless hk
    · have hpage : ((m.withFiles files).occupy i table g p page).bufPool j = m.bufPool j := Function.update_of_ne hne ..
      rw [hpage]
      exact h.harmless j k q hj hk

/-- A page of the index file is put into a frame, with one pin. -/
theorem Steady.loaded (h : Steady L hash on blob file pins unsaved m) (hfile : on file) {table : BufHashTbl F}
    {page : Page} {files : σ} (loads : Loads hash m i file p table)
    (hkept : ∀ {g q}, Accepts L m.files g q → Accepts L files g q) (hnew : Accepts L files file p)
    (hself : (blob files).failed = false → (blob files).pages p = some page)
    (hothers : (blob files).failed = false → (blob m.files).failed = false ∧
      ∀ q, q ≠ p → (blob files).pages q = (blob m.files).pages q) :
    Steady L hash on blob file ((p, i) :: pins) unsaved ((m.withFiles files).occupy i table file p page) := by
  have hlt : i < (m.withFiles files).numBufs := loads.lt
  have hdesc : ((m.withFiles files).occupy i table file p page).bufDescTable i = .Set file p := occupy_self table page
  have hpage : ((m.withFiles files).occupy i table file p page).bufPool i = page := Function.update_self ..
  have hholds : ∀ {j g q}, ((m.withFiles files).occupy i table file p page).Holds j g q ↔
      (j = i ∧ g = file ∧ q = p) ∨ (j ≠ i ∧ m.Holds j g q) := holds_occupy hlt
  have hfresh : p ∉ pages pins := by
    intro hmem
    obtain ⟨x, hx, rfl⟩ := List.mem_map.mp hmem
    exact loads.absent _ (h.pinned x hx)
  have hsame : ∀ j, j ≠ i → m.SameFrame ((m.withFiles files).occupy i table file p page) j := fun j hj =>
    have hframe : (m.withFiles files).SameFrame _ j := occupy_same (f := file) (p := p) table page hj
    ⟨hframe.pinCnt, hframe.dirty, hframe.page⟩
  have hstorable : Storable L on ((m.withFiles files).occupy i table file p page) :=
    h.storable.loaded hlt hkept hnew fun hnot => absurd hfile hnot
  refine ⟨loads.agree h.agree _ _, hstorable, fun j g q hj hg => ?_, fun x hx => ?_, fun j q hj => ?_,
    fun j q hj hdirty hq hlive => ?_, fun q hq => List.mem_cons_of_mem _ (h.unsaved q hq)⟩
  · rcases hholds.mp hj with ⟨-, rfl, -⟩ | ⟨-, hj⟩
    · rfl
    · exact h.alone j g q hj hg
  · rcases List.mem_cons.mp hx with rfl | hx
    · exact hholds.mpr (.inl ⟨rfl, rfl, rfl⟩)
    · refine hholds.mpr (.inr ⟨?_, h.pinned x hx⟩)
      intro heq
      have hvalid := (h.pinned x hx).2.valid
      rw [heq] at hvalid
      exact Bool.false_ne_true (loads.invalid.symm.trans hvalid)
  · rcases hholds.mp hj with ⟨rfl, -, rfl⟩ | ⟨hne, hold⟩
    · rw [hdesc, pages_cons, List.count_cons_self, List.count_eq_zero_of_not_mem hfresh]
      rfl
    · have hqp : p ≠ q := by
        rintro rfl
        exact loads.absent j hold
      rw [(hsame j hne).pinCnt, pages_cons, List.count_cons_of_ne hqp]
      exact h.count j q hold
  · have hfiles : ((m.withFiles files).occupy i table file p page).files = files := rfl
    rw [hfiles] at hlive ⊢
    rcases hholds.mp hj with ⟨rfl, -, rfl⟩ | ⟨hne, hold⟩
    · rw [hpage]
      exact hself hlive
    · obtain ⟨hlive', hpages⟩ := hothers hlive
      have hqp : q ≠ p := by
        rintro rfl
        exact loads.absent j hold
      rw [hpages q hqp, (hsame j hne).page]
      exact h.saved j q hold ((hsame j hne).dirty.symm.trans hdirty) hq hlive'

/-- Another descriptor of a page of the index file. -/
private theorem Steady.redescribed (h : Steady L hash on blob file pins unsaved mgr) (hi : mgr.Holds i file p)
    {desc : BufDesc F} (hdesc : desc.Is file p) {pins' : List (PageId × FrameId)} {unsaved' : List PageId}
    (hpinned : ∀ x ∈ pins', mgr.Holds x.2 file x.1) (hself : desc.pinCnt = (pages pins').count p)
    (hothers : ∀ q, q ≠ p → (pages pins').count q = (pages pins).count q)
    (hsaved : ∀ q, q ∉ unsaved' → q = p → desc.dirty = false → q ∉ unsaved ∧ (mgr.bufDescTable i).dirty = false)
    (hsaved' : ∀ q, q ∉ unsaved' → q ≠ p → q ∉ unsaved) (hunsaved : ∀ q ∈ unsaved', q ∈ pages pins') :
    Steady L hash on blob file pins' unsaved' (mgr.withDesc i desc) := by
  have hholds : ∀ {j g q}, (mgr.withDesc i desc).Holds j g q ↔ mgr.Holds j g q := holds_withDesc
    (hdesc.valid.trans hi.2.valid.symm) (hdesc.file.trans hi.2.file.symm) (hdesc.pageNo.trans hi.2.pageNo.symm)
  refine ⟨h.agree.withDesc hi hdesc, h.storable.sub id fun j g q hj => ⟨hholds.mp hj, fun _ => rfl⟩,
    fun j g q hj => h.alone j g q (hholds.mp hj), fun x hx => hholds.mpr (hpinned x hx), fun j q hj => ?_,
    fun j q hj hdirty hq hlive => ?_, hunsaved⟩
  · by_cases hqp : q = p
    · subst hqp
      obtain rfl : j = i := h.agree.unique (hholds.mp hj) hi
      rw [withDesc_self]
      exact hself
    · have hji : j ≠ i := by
        rintro rfl
        exact hqp (((hholds.mp hj).2.pageNo).symm.trans hi.2.pageNo)
      rw [withDesc_desc desc hji, hothers q hqp]
      exact h.count j q (hholds.mp hj)
  · by_cases hqp : q = p
    · subst hqp
      obtain rfl : j = i := h.agree.unique (hholds.mp hj) hi
      rw [withDesc_self] at hdirty
      obtain ⟨hmem, hclean⟩ := hsaved q hq rfl hdirty
      exact h.saved j q hi hclean hmem hlive
    · have hji : j ≠ i := by
        rintro rfl
        exact hqp (((hholds.mp hj).2.pageNo).symm.trans hi.2.pageNo)
      rw [withDesc_desc desc hji] at hdirty
      exact h.saved j q (hholds.mp hj) hdirty (hsaved' q hq hqp) hlive

/-- The page is in the pool, and gets another pin. -/
theorem Steady.hit (h : Steady L hash on blob file pins unsaved mgr) (hi : mgr.Holds i file p) :
    Steady L hash on blob file ((p, i) :: pins) unsaved (mgr.withDesc i (mgr.bufDescTable i).pinned) := by
  have hdesc : (mgr.bufDescTable i).pinned.Is file p := ⟨hi.2.valid, hi.2.file, hi.2.pageNo⟩
  refine h.redescribed hi hdesc (fun x hx => ?_) ?_ (fun q hq => ?_) (fun q hq _ hdirty => ⟨hq, hdirty⟩)
    (fun q hq _ => hq) fun q hq => ?_
  · rcases List.mem_cons.mp hx with rfl | hx
    · exact hi
    · exact h.pinned x hx
  · rw [pages_cons, List.count_cons_self, BufDesc.pinned, h.count i p hi]
  · rw [pages_cons, List.count_cons_of_ne hq.symm]
  · rw [pages_cons]
    exact List.mem_cons_of_mem _ (h.unsaved q hq)

/-- A pin is given back.  The page is marked as dirty, or it is unchanged, or changed under another pin too. -/
theorem Steady.unpinned (h : Steady L hash on blob file ((p, i) :: pins) unsaved mgr) {dirty : Bool}
    {unsaved' : List PageId} (hsub : ∀ q ∈ unsaved, q ∈ unsaved' ∨ q = p ∧ dirty = true)
    (hpinned : ∀ q ∈ unsaved', q ∈ pages pins) :
    Steady L hash on blob file pins unsaved' (mgr.withDesc i ((mgr.bufDescTable i).unpinned dirty)) := by
  have hi : mgr.Holds i file p := h.pinned (p, i) List.mem_cons_self
  have hdesc : ((mgr.bufDescTable i).unpinned dirty).Is file p := ⟨hi.2.valid, hi.2.file, hi.2.pageNo⟩
  refine h.redescribed hi hdesc (fun x hx => h.pinned x (List.mem_cons_of_mem _ hx)) ?_
    (fun q hq => ?_) (fun q hq hqp hclean => ?_) (fun q hq hqp hmem => ?_) hpinned
  · have hcount := h.count i p hi
    rw [pages_cons, List.count_cons_self] at hcount
    rw [BufDesc.unpinned, hcount]
    rfl
  · rw [pages_cons, List.count_cons_of_ne hq.symm]
  · cases dirty with
    | true => cases hclean
    | false =>
      refine ⟨fun hmem => ?_, hclean⟩
      rcases hsub q hmem with hmem' | ⟨-, hdirty⟩
      · exact hq hmem'
      · cases hdirty
  · rcases hsub q hmem with hmem' | ⟨heq, -⟩
    · exact hq hmem'
    · exact hqp heq

omit [DecidableEq F] in
/-- The index changes a page. -/
theorem Storable.assigned (h : Storable L on mgr) (hi : mgr.Holds i file p) (hfile : on file) (page : Page) :
    Storable L on { mgr with bufPool := Function.update mgr.bufPool i page } := by
  refine h.sub id fun j g q hj => ⟨hj, fun hg => Function.update_of_ne ?_ ..⟩
  rintro rfl
  obtain rfl : file = g := Option.some.inj (hi.2.file.symm.trans hj.2.file)
  exact hg hfile

/-- A page is changed through its pointer. -/
theorem Steady.assigned (h : Steady L hash on blob file pins unsaved mgr) (hfile : on file) (hmem : (p, i) ∈ pins)
    (page : Page) :
    Steady L hash on blob file pins (p :: unsaved) { mgr with bufPool := Function.update mgr.bufPool i page } where
  agree := h.agree.withPool _
  storable := h.storable.assigned (h.pinned (p, i) hmem) hfile page
  alone := h.alone
  pinned := h.pinned
  count := h.count
  saved j q hj hdirty hq hlive := by
    rw [List.mem_cons, not_or] at hq
    have hji : j ≠ i := by
      rintro rfl
      exact hq.1 ((hj.2.pageNo).symm.trans (h.pinned (p, j) hmem).2.pageNo)
    have hpage : Function.update mgr.bufPool i page j = mgr.bufPool j := Function.update_of_ne hji ..
    dsimp only
    rw [hpage]
    exact h.saved j q hj hdirty hq.2 hlive
  unsaved q hq := by
    rcases List.mem_cons.mp hq with rfl | hq
    · exact mem_pages hmem
    · exact h.unsaved q hq

variable (hL : Hosts L on blob) (hfile : on file)
include hL hfile

/-- `readPage` pins the page, or the pool is full. -/
theorem Steady.readPage (h : Steady L hash on blob file pins unsaved mgr) (p : PageId) :
    Ends (fun i m => Steady L hash on blob file ((p, i) :: pins) unsaved m)
      (fun e m => e = .bufferExceeded ∧ Steady L hash on blob file pins unsaved m)
      (P3.readPage L hash file p mgr) := by
  have hspec := P3.readPage_spec h.agree h.writable file p
  cases hrun : P3.readPage L hash file p mgr with
  | ok i m =>
    rw [hrun] at hspec
    cases hspec with
    | hit holds => exact h.hit holds
    | @loaded _ m' page files table absent freed run loads =>
      obtain ⟨files', hread, hblob⟩ := hL.readPage hfile m'.files p
      rw [run] at hread
      obtain ⟨rfl, rfl⟩ := EStateM.Result.ok.inj hread
      have hleads : Leads L file m'.files files := .read run
      refine (h.freed hL freed).loaded hfile loads (hL.accepts hfile hleads) (hL.acceptsOwn hfile _ _)
        (fun hlive => ?_) fun hlive => ?_
      · rw [hblob] at hlive ⊢
        rw [readPage_pages]
        exact (readPage_live hlive).2
      · rw [hblob] at hlive ⊢
        rw [readPage_pages]
        exact ⟨(readPage_live hlive).1, fun _ _ => rfl⟩
  | error e m =>
    rw [hrun] at hspec
    cases hspec with
    | exceeded _ t => exact ⟨rfl, h.touched t⟩
    | @failed _ m' _ files _ _ run =>
      obtain ⟨files', hread, -⟩ := hL.readPage hfile m'.files p
      rw [run] at hread
      cases hread

/-- The exceptions of `allocPage`: the pool is full, the file's stream has failed, or the file gave a page number that the
pool has already. -/
def AllocThrows (P : BufMgr F Page σ → Prop) (e : BufError F) (m : BufMgr F Page σ) : Prop :=
  (e = .bufferExceeded ∧ P m) ∨ e = .file .indeterminate ∨ ∃ g p i, e = .hashAlreadyPresent g p i

omit [DecidableEq F] hL hfile in
private theorem allocatePage_cases (b : BlobFile Page) : b.allocatePage .fresh = .error .indeterminate ∨
    ∃ new, b.allocatePage .fresh = .ok new ∧ b.failed = false ∧ new.1 = (b.num_pages, .fresh) ∧
      new.2.pages = (fun p => if p = b.num_pages then some .fresh else b.pages p) := by
  unfold BlobFile.allocatePage
  by_cases hfailed : b.failed = true
  · rw [if_pos hfailed]
    exact .inl rfl
  · rw [if_neg hfailed]
    exact .inr ⟨_, rfl, Bool.eq_false_iff.mpr hfailed, rfl, rfl⟩

/-- `allocPage` pins the new page. -/
theorem Steady.allocPage (h : Steady L hash on blob file pins unsaved mgr) :
    Ends (fun new m => Steady L hash on blob file (new :: pins) unsaved m)
      (AllocThrows (Steady L hash on blob file pins unsaved)) (P3.allocPage L hash file mgr) := by
  have hspec := P3.allocPage_spec h.agree h.writable file
  cases hrun : P3.allocPage L hash file mgr with
  | ok new m =>
    rw [hrun] at hspec
    cases hspec with
    | @allocated _ m' new files table freed run loads =>
      have hleads : Leads L file m'.files files := .allocate run
      rcases allocatePage_cases (blob m'.files) with herror | ⟨given, hok, hlive, hgiven, hpages⟩
      · obtain ⟨files', hthrow, -⟩ := hL.allocateThrows hfile herror
        rw [run] at hthrow
        cases hthrow
      · obtain ⟨files', hgive, hblob⟩ := hL.allocatePage hfile hok
        rw [run] at hgive
        obtain ⟨hnew, rfl⟩ := EStateM.Result.ok.inj hgive
        rw [hgiven] at hnew
        refine (h.freed hL freed).loaded hfile loads (hL.accepts hfile hleads) (hL.acceptsOwn hfile _ _)
          (fun _ => ?_) fun _ => ⟨hlive, fun q hq => ?_⟩
        · rw [hblob, hpages, hnew]
          exact if_pos rfl
        · rw [hblob, hpages]
          refine if_neg fun heq => hq ?_
          rw [heq, hnew]
  | error e m =>
    rw [hrun] at hspec
    cases hspec with
    | exceeded t => exact .inl ⟨rfl, h.touched t⟩
    | @failed _ m' _ files freed run =>
      rcases allocatePage_cases (blob m'.files) with herror | ⟨given, hok, -⟩
      · obtain ⟨files', hthrow, -⟩ := hL.allocateThrows hfile herror
        rw [run] at hthrow
        obtain ⟨rfl, -⟩ := EStateM.Result.error.inj hthrow
        exact .inr (.inl rfl)
      · obtain ⟨files', hgive, -⟩ := hL.allocatePage hfile hok
        rw [run] at hgive
        cases hgive
    | present => exact .inr (.inr ⟨_, _, _, rfl⟩)

/-- `flushFile` of any file throws at a pinned page, or the pool has no page of the file afterwards. -/
theorem Steady.flushFile (h : Steady L hash on blob file pins unsaved mgr) (g : F) :
    ∃ m, Steady L hash on blob file pins unsaved m ∧ SameFile hash blob file mgr m ∧
      ((blob mgr.files).failed = true → (blob m.files).pages = (blob mgr.files).pages) ∧
      ((∃ i p, m.Holds i g p ∧ 0 < (m.bufDescTable i).pinCnt ∧
          P3.flushFile L hash g mgr = .error (.pagePinned g p i) m) ∨
        (P3.flushFile L hash g mgr = .ok () m ∧ ∀ i p, ¬ m.Holds i g p)) := by
  -- what holds after each page that leaves the pool
  have hdrops : ∀ {k m m'}, (Steady L hash on blob file pins unsaved m ∧ SameFile hash blob file mgr m ∧
        ((blob mgr.files).failed = true → (blob m.files).pages = (blob mgr.files).pages)) →
      m.Agree hash → P3.Drops L hash k m m' → Steady L hash on blob file pins unsaved m' ∧ SameFile hash blob file mgr m' ∧
        ((blob mgr.files).failed = true → (blob m'.files).pages = (blob mgr.files).pages) := by
    intro k m m' hm hagree hdrop
    obtain ⟨hm, hsame, hpages⟩ := hm
    obtain ⟨i, p, hdropped⟩ := hdrop
    have hfreed : Freed L hash m i m' := .evicted (Touched.refl hagree.hand) hdropped
    refine ⟨hm.freed hL hfreed, hsame.trans (.freed hL hfile hm hfreed), fun hfailed => ?_⟩
    rw [← hpages hfailed]
    funext q
    exact (freed_blob hL hm hfreed).2.2.2 q (.inr (hsame.failed.trans hfailed))
  obtain ⟨m, -, -, ⟨hm, hsame, hpages⟩, hend⟩ := P3.flushFile_cases (fun hm => hm.1.writable) hdrops h.agree
    ⟨h, ⟨rfl, rfl, rfl, fun _ _ => rfl⟩, fun _ => rfl⟩ g
  exact ⟨m, hm, hsame, hpages, hend⟩

end Calls

/-! ### Other clients -/

section Others

variable (hL : Hosts L on blob) (hfile : on file)
include hL hfile

omit hfile in
/-- A page of another file is put into a frame. -/
private theorem Steady.loaded_aside (h : Steady L hash on blob file pins unsaved m) {g : F} (hg : ¬ on g) (hgf : g ≠ file)
    {table : BufHashTbl F} (page : Page) {files : σ} (loads : Loads hash m i g p table)
    (hleads : Leads L g m.files files) (hstorable : Storable L on ((m.withFiles files).occupy i table g p page)) :
    Steady L hash on blob file pins unsaved ((m.withFiles files).occupy i table g p page) ∧
      SameFile hash blob file m ((m.withFiles files).occupy i table g p page) := by
  have hlt : i < (m.withFiles files).numBufs := loads.lt
  have hholds : ∀ {j k q}, ((m.withFiles files).occupy i table g p page).Holds j k q ↔
      (j = i ∧ k = g ∧ q = p) ∨ (j ≠ i ∧ m.Holds j k q) := holds_occupy hlt
  have hne : ∀ j k q, m.Holds j k q → j ≠ i := by
    rintro j k q hj rfl
    exact Bool.false_ne_true (loads.invalid.symm.trans hj.2.valid)
  refine h.aside (loads.agree h.agree _ _) hstorable (fun j k q hj hk => ?_) (fun j q => ?_) (fun j q hj => ?_) ?_
  · rcases hholds.mp hj with ⟨-, rfl, -⟩ | ⟨-, hj⟩
    · exact absurd hk hg
    · exact h.alone j k q hj hk
  · rw [hholds]
    constructor
    · rintro (⟨-, heq, -⟩ | ⟨-, hj⟩)
      · exact absurd heq.symm hgf
      · exact hj
    · exact fun hj => .inr ⟨hne j file q hj, hj⟩
  · have hframe : (m.withFiles files).SameFrame _ j := occupy_same (f := g) (p := p) table page (hne j file q hj)
    exact ⟨hframe.pinCnt, hframe.dirty, hframe.page⟩
  · exact hL.elsewhere hg hleads

omit hL hfile in
/-- Another descriptor of a page of another file. -/
private theorem Steady.redescribed_aside (h : Steady L hash on blob file pins unsaved mgr) {g : F} (hgf : g ≠ file)
    (hi : mgr.Holds i g p) {desc : BufDesc F} (hdesc : desc.Is g p) :
    Steady L hash on blob file pins unsaved (mgr.withDesc i desc) ∧ SameFile hash blob file mgr (mgr.withDesc i desc) := by
  have hholds : ∀ {j k q}, (mgr.withDesc i desc).Holds j k q ↔ mgr.Holds j k q := holds_withDesc
    (hdesc.valid.trans hi.2.valid.symm) (hdesc.file.trans hi.2.file.symm) (hdesc.pageNo.trans hi.2.pageNo.symm)
  refine h.aside (h.agree.withDesc hi hdesc) (h.storable.sub id fun j k q hj => ⟨hholds.mp hj, fun _ => rfl⟩)
    (fun j k q hj => h.alone j k q (hholds.mp hj)) (fun j q => hholds) (fun j q hj => ?_) rfl
  have hji : j ≠ i := by
    rintro rfl
    exact hgf (Option.some.inj (hi.2.file.symm.trans hj.2.file))
  exact ⟨by rw [withDesc_desc desc hji], by rw [withDesc_desc desc hji], rfl⟩

omit hL hfile in
/-- The other files change. -/
private theorem Steady.files_aside (h : Steady L hash on blob file pins unsaved mgr) {files : σ}
    (hstorable : Storable L on (mgr.withFiles files)) (hblob : blob files = blob mgr.files) :
    Steady L hash on blob file pins unsaved (mgr.withFiles files) ∧ SameFile hash blob file mgr (mgr.withFiles files) :=
  h.aside (h.agree.withFiles files) hstorable h.alone (fun _ _ => Iff.rfl)
    (fun _ _ _ => ⟨rfl, rfl, rfl⟩) hblob

private theorem Steady.readPage_aside (h : Steady L hash on blob file pins unsaved mgr) {g : F} (hg : ¬ on g)
    (hne : g ≠ file) {p : PageId} (kept : Storable L on (stateAfter (P3.readPage L hash g p mgr))) :
    Steady L hash on blob file pins unsaved (stateAfter (P3.readPage L hash g p mgr)) ∧
      SameFile hash blob file mgr (stateAfter (P3.readPage L hash g p mgr)) := by
  have hspec := P3.readPage_spec h.agree h.writable g p
  cases hrun : P3.readPage L hash g p mgr with
  | ok i m =>
    rw [hrun] at hspec kept
    cases hspec with
    | hit holds => exact h.redescribed_aside hne holds ⟨holds.2.valid, holds.2.file, holds.2.pageNo⟩
    | @loaded _ m' page files table absent freed run loads =>
      have hleads : Leads L g m'.files files := .read run
      obtain ⟨hm, hsame⟩ := (h.freed hL freed).loaded_aside hL hg hne page loads hleads kept
      exact ⟨hm, (SameFile.freed hL hfile h freed).trans hsame⟩
  | error e m =>
    rw [hrun] at hspec kept
    cases hspec with
    | exceeded _ t => exact ⟨h.touched t, .touched h.agree t⟩
    | @failed _ m' _ files _ freed run =>
      have hleads : Leads L g m'.files files := .read run
      obtain ⟨hm, hsame⟩ := (h.freed hL freed).files_aside kept (hL.elsewhere hg hleads)
      exact ⟨hm, (SameFile.freed hL hfile h freed).trans hsame⟩

private theorem Steady.allocPage_aside (h : Steady L hash on blob file pins unsaved mgr) {g : F} (hg : ¬ on g)
    (hne : g ≠ file) (anew : ∀ k p i m, P3.allocPage L hash g mgr ≠ .error (.hashAlreadyPresent k p i) m)
    (kept : Storable L on (stateAfter (P3.allocPage L hash g mgr))) :
    Steady L hash on blob file pins unsaved (stateAfter (P3.allocPage L hash g mgr)) ∧
      SameFile hash blob file mgr (stateAfter (P3.allocPage L hash g mgr)) := by
  have hspec := P3.allocPage_spec h.agree h.writable g
  cases hrun : P3.allocPage L hash g mgr with
  | ok new m =>
    rw [hrun] at hspec kept
    cases hspec with
    | @allocated _ m' new files table freed run loads =>
      have hleads : Leads L g m'.files files := .allocate run
      obtain ⟨hm, hsame⟩ := (h.freed hL freed).loaded_aside hL hg hne new.2 loads hleads kept
      exact ⟨hm, (SameFile.freed hL hfile h freed).trans hsame⟩
  | error e m =>
    rw [hrun] at hspec kept
    cases hspec with
    | exceeded t => exact ⟨h.touched t, .touched h.agree t⟩
    | @failed _ m' _ files freed run =>
      have hleads : Leads L g m'.files files := .allocate run
      obtain ⟨hm, hsame⟩ := (h.freed hL freed).files_aside kept (hL.elsewhere hg hleads)
      exact ⟨hm, (SameFile.freed hL hfile h freed).trans hsame⟩
    | present => exact absurd hrun (anew _ _ _ _)

omit hL hfile in
private theorem Steady.unPinPage_aside (h : Steady L hash on blob file pins unsaved mgr) {g : F} (hne : g ≠ file)
    (p : PageId)
    (dirty : Bool) : Steady L hash on blob file pins unsaved (stateAfter (P3.unPinPage hash g p dirty mgr)) ∧
      SameFile hash blob file mgr (stateAfter (P3.unPinPage hash g p dirty mgr)) := by
  have hspec := P3.unPinPage_spec h.agree g p dirty
  cases hrun : P3.unPinPage hash g p dirty mgr with
  | ok _ m =>
    rw [hrun] at hspec
    cases hspec with
    | unpinned holds => exact h.redescribed_aside hne holds ⟨holds.2.valid, holds.2.file, holds.2.pageNo⟩
  | error e m =>
    rw [hrun] at hspec
    cases hspec with
    | absent => exact ⟨h, rfl, rfl, rfl, fun _ _ => rfl⟩
    | notPinned holds => exact h.redescribed_aside hne holds ⟨holds.2.valid, holds.2.file, holds.2.pageNo⟩

omit hL hfile in
/-- The frame of a page of another file is given up, and its file changes. -/
private theorem Steady.vacated_aside (h : Steady L hash on blob file pins unsaved mgr) {g : F} (hne : g ≠ file) {i : FrameId}
    {p : PageId} {table : BufHashTbl F} {files : σ} (holds : mgr.Holds i g p)
    (removed : mgr.hashTable.remove hash g p = .ok table)
    (hkept : Storable L on ((mgr.vacate i table).withFiles files))
    (hblob : blob files = blob mgr.files) : Steady L hash on blob file pins unsaved ((mgr.vacate i table).withFiles files) ∧
      SameFile hash blob file mgr ((mgr.vacate i table).withFiles files) := by
  obtain ⟨table', hremove, hagree⟩ := h.agree.vacate holds
  obtain rfl : table = table' := Except.ok.inj (removed.symm.trans hremove)
  have hholds : ∀ j k q, ((mgr.vacate i table).withFiles files).Holds j k q ↔ j ≠ i ∧ mgr.Holds j k q :=
    fun j k q => (holds_vacate : (mgr.vacate i table).Holds j k q ↔ _)
  have hji : ∀ j q, mgr.Holds j file q → j ≠ i := by
    rintro j q hj rfl
    exact hne (Option.some.inj (holds.2.file.symm.trans hj.2.file))
  refine h.aside (hagree.withFiles files) hkept (fun j k q hj => h.alone j k q ((hholds j k q).mp hj).2) (fun j q => ?_)
    (fun j q hj => ?_) hblob
  · rw [hholds]
    exact and_iff_right_of_imp (hji j q)
  · have hkeep : (mgr.vacate i table).bufDescTable j = mgr.bufDescTable j := vacate_desc table (hji j q hj)
    exact ⟨congrArg BufDesc.pinCnt hkeep, congrArg BufDesc.dirty hkeep, rfl⟩

omit hfile in
private theorem Steady.disposePage_aside (h : Steady L hash on blob file pins unsaved mgr) {g : F} (hg : ¬ on g)
    (hne : g ≠ file) {p : PageId} (kept : Storable L on (stateAfter (P3.disposePage L hash g p mgr))) :
    Steady L hash on blob file pins unsaved (stateAfter (P3.disposePage L hash g p mgr)) ∧
      SameFile hash blob file mgr (stateAfter (P3.disposePage L hash g p mgr)) := by
  have hspec := P3.disposePage_spec (L := L) h.agree g p
  have hdeleted := hL.deleted hg mgr.files p
  cases hrun : P3.disposePage L hash g p mgr with
  | ok _ m =>
    rw [hrun] at hspec kept
    cases hspec with
    | disposed holds removed run =>
      rw [run] at hdeleted
      exact h.vacated_aside hne holds removed kept hdeleted
  | error e m =>
    rw [hrun] at hspec kept
    cases hspec with
    | absent => exact ⟨h, rfl, rfl, rfl, fun _ _ => rfl⟩
    | failed holds removed run =>
      rw [run] at hdeleted
      exact h.vacated_aside hne holds removed kept hdeleted

omit [DecidableEq F] hL hfile in
/-- Another client changes a page. -/
private theorem Storable.edited (h : Storable L on mgr) {g : F} (hi : mgr.Holds i g p)
    {page : Page} (harmless : Harmless L g p page) :
    Storable L on { mgr with bufPool := Function.update mgr.bufPool i page } := by
  refine ⟨h.accepts, fun j k q hj hk => ?_⟩
  by_cases hji : j = i
  · subst hji
    obtain rfl : g = k := Option.some.inj (hi.2.file.symm.trans hj.2.file)
    obtain rfl : p = q := hi.2.pageNo.symm.trans hj.2.pageNo
    dsimp only
    rw [Function.update_self]
    exact harmless
  · dsimp only
    rw [Function.update_of_ne hji]
    exact h.harmless j k q hj hk

/-- What other clients do does not touch the pins and the pages of the index. -/
theorem Steady.other (h : Steady L hash on blob file pins unsaved mgr) (hother : Other L hash on mgr m) :
    Steady L hash on blob file pins unsaved m ∧ SameFile hash blob file mgr m := by
  have hne : ∀ {g}, ¬ on g → g ≠ file := fun hg heq => hg (heq ▸ hfile)
  cases hother with
  | readPage hg p kept => exact h.readPage_aside hL hfile hg (hne hg) kept
  | allocPage hg anew kept => exact h.allocPage_aside hL hfile hg (hne hg) anew kept
  | unPinPage hg p dirty => exact h.unPinPage_aside (hne hg) p dirty
  | @flushFile g hg =>
    obtain ⟨m, hm, hsame, -, ⟨i, p, -, -, hrun⟩ | ⟨hrun, -⟩⟩ := h.flushFile hL hfile g
    · rw [hrun]
      exact ⟨hm, hsame⟩
    · rw [hrun]
      exact ⟨hm, hsame⟩
  | disposePage hg p kept => exact h.disposePage_aside hL hg (hne hg) kept
  | @edit g hg i p holds page harmless =>
    refine h.aside (h.agree.withPool _) (h.storable.edited holds harmless) h.alone (fun _ _ => Iff.rfl)
      (fun j q hj => ⟨rfl, rfl, ?_⟩) rfl
    refine Function.update_of_ne ?_ ..
    rintro rfl
    exact hne hg (Option.some.inj (holds.2.file.symm.trans hj.2.file))

end Others

end Cs564.BTree
