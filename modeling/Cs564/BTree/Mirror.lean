import Cs564.BTree.Paths
import Cs564.BTree.PinCalls

/-!
# The pool and the plain page store

As long as the stream of the index file works, the calls of the manager change the pages of the file, as `seen` gives
them, in the same way as `PageStore.layer` changes its pages (`Mirrors`).  So the code of the index does the same over
the pool and over the plain store, until the pool is full; `Simulates` composes this along the code.
-/

namespace Cs564.BTree

open P2 (BufError BufMgr Loads)
open P2.BufMgr
open P3 (FileLayer BlobFile)
open PageStore

variable {F σ : Type} [DecidableEq F] {L : FileLayer F Page σ} {hash : F → PageId → Nat} {on : F → Prop}
  {blob : σ → BlobFile Page} {file : F} {pins : List (PageId × FrameId)} {unsaved : List PageId}
  {mgr m : BufMgr F Page σ} {i : FrameId} {p q first : PageId} {s : PageStore}

/-! ### The pages through the calls of the manager -/

section Pages

theorem SameFile.refl (mgr : BufMgr F Page σ) : SameFile hash blob file mgr mgr := ⟨rfl, rfl, rfl, fun _ _ => rfl⟩

/-- Marks and pins are not in the pages. -/
theorem SameFile.withDesc (mgr : BufMgr F Page σ) (i : FrameId) (desc : P2.BufDesc F) :
    SameFile hash blob file mgr (mgr.withDesc i desc) := ⟨rfl, rfl, rfl, fun _ _ => rfl⟩

private theorem blob_readPage_some {b : BlobFile Page} (hlive : b.failed = false) {page : Page}
    (hp : b.pages p = some page) :
    b.readPage .fresh p = (page, b) := by
  rw [BlobFile.readPage, hlive, hp]
  rfl

/-- A page that is put into a frame. -/
private theorem seen_loaded_self (h : m.Agree hash) {table : P2.BufHashTbl F} (loads : Loads hash m i file p table)
    (page : Page) (files : σ) :
    seen hash blob file ((m.withFiles files).occupy i table file p page) p = some page := by
  have hlt : i < (m.withFiles files).numBufs := loads.lt
  have hi : ((m.withFiles files).occupy i table file p page).Holds i file p :=
    (holds_occupy hlt).mpr (.inl ⟨rfl, rfl, rfl⟩)
  rw [seen_held (loads.agree h _ _) hi]
  exact congrArg some (Function.update_self ..)

/-- The other pages. -/
private theorem seen_loaded_ne (h : m.Agree hash) {table : P2.BufHashTbl F} (loads : Loads hash m i file p table)
    (page : Page) {files : σ} (hq : q ≠ p) (hpages : (blob files).pages q = (blob m.files).pages q) :
    seen hash blob file ((m.withFiles files).occupy i table file p page) q = seen hash blob file m q := by
  have hlt : i < (m.withFiles files).numBufs := loads.lt
  have hholds : ∀ {j}, ((m.withFiles files).occupy i table file p page).Holds j file q ↔
      (j = i ∧ file = file ∧ q = p) ∨ (j ≠ i ∧ m.Holds j file q) := holds_occupy hlt
  have hother : ∀ j, ((m.withFiles files).occupy i table file p page).Holds j file q → j ≠ i ∧ m.Holds j file q :=
    fun j hj => (hholds.mp hj).resolve_left fun hself => hq hself.2.2
  refine seen_shrink h (loads.agree h _ _) (fun j hj => ⟨(hother j hj).2, ?_⟩) (fun j hj hno => ?_) fun _ => hpages
  · exact Function.update_of_ne (hother j hj).1 ..
  · refine absurd (hholds.mpr (.inr ⟨?_, hj⟩)) hno
    rintro rfl
    exact Bool.false_ne_true (loads.invalid.symm.trans hj.2.valid)

variable (hL : Hosts L on blob) (hfile : on file)
include hL hfile

/-- `readPage` changes no page, as long as the stream works; and it does after a page that is there. -/
theorem Steady.readPage_same (h : Steady L hash on blob file pins unsaved mgr) (p : PageId) :
    Ends (fun _ m => (blob m.files).failed = false ∨
          ((blob mgr.files).failed = false ∧ seen hash blob file mgr p ≠ none) → SameFile hash blob file mgr m)
      (fun _ m => SameFile hash blob file mgr m) (P3.readPage L hash file p mgr) := by
  have hspec := P3.readPage_spec h.agree h.writable file p
  cases hrun : P3.readPage L hash file p mgr with
  | ok i m =>
    rw [hrun] at hspec
    cases hspec with
    | hit holds => exact fun _ => .withDesc ..
    | @loaded _ m' page files table absent freed run loads =>
      intro hgood
      obtain ⟨files', hread, hblob⟩ := hL.readPage hfile m'.files p
      rw [run] at hread
      obtain ⟨rfl, rfl⟩ := EStateM.Result.ok.inj hread
      have hsame := SameFile.freed hL hfile h freed
      have hagree := freed.agree h.agree
      have habsent : seen hash blob file m' p = (blob m'.files).pages p := seen_absent hagree loads.absent
      obtain ⟨hlive, page, hpage⟩ : (blob m'.files).failed = false ∧ ∃ page, (blob m'.files).pages p = some page := by
        rcases hgood with hlive | ⟨hlive, hthere⟩
        · have hfiles : (blob files).failed = false := hlive
          rw [hblob] at hfiles
          obtain ⟨hlive', hpage⟩ := readPage_live hfiles
          exact ⟨hlive', _, hpage⟩
        · rw [← hsame.seen hlive p, habsent] at hthere
          exact ⟨hsame.failed.trans hlive, Option.ne_none_iff_exists'.mp hthere⟩
      have hblob' : blob files = blob m'.files := by rw [hblob, blob_readPage_some hlive hpage]
      rw [blob_readPage_some hlive hpage]
      refine hsame.trans ⟨?_, ?_, ?_, fun _ q => ?_⟩
      · exact congrArg BlobFile.failed hblob'
      · exact congrArg BlobFile.num_pages hblob'
      · exact congrArg BlobFile.first_used_page hblob'
      · by_cases hq : q = p
        · rw [hq, seen_loaded_self hagree loads, habsent, hpage]
        · exact seen_loaded_ne hagree loads _ hq (by rw [hblob'])
  | error e m =>
    rw [hrun] at hspec
    cases hspec with
    | exceeded _ t => exact .touched h.agree t
    | @failed _ m' _ files _ _ run =>
      obtain ⟨files', hread, -⟩ := hL.readPage hfile m'.files p
      rw [run] at hread
      cases hread

/-- `allocPage` gives the next page of the file. -/
theorem Steady.allocPage_seen (h : Steady L hash on blob file pins unsaved mgr) (hlive : (blob mgr.files).failed = false)
    (hnew : seen hash blob file mgr (blob mgr.files).num_pages = none) :
    Ends (fun new m => new.1 = (blob mgr.files).num_pages ∧ (blob m.files).failed = false ∧
        (blob m.files).num_pages = (blob mgr.files).num_pages + 1 ∧
        (blob m.files).first_used_page = (if (blob mgr.files).first_used_page = INVALID_NUMBER then
          (blob mgr.files).num_pages else (blob mgr.files).first_used_page) ∧
        ∀ q, seen hash blob file m q =
          if q = (blob mgr.files).num_pages then some .fresh else seen hash blob file mgr q)
      (fun e m => e = .bufferExceeded ∧ SameFile hash blob file mgr m) (P3.allocPage L hash file mgr) := by
  have hspec := P3.allocPage_spec h.agree h.writable file
  have halloc : ∀ {i m'}, P3.Freed L hash mgr i m' →
      ∃ files', L.allocatePage file m'.files = .ok ((blob mgr.files).num_pages, .fresh) files' ∧
        (blob files').failed = false ∧ (blob files').num_pages = (blob mgr.files).num_pages + 1 ∧
        (blob files').first_used_page = (if (blob mgr.files).first_used_page = INVALID_NUMBER then
          (blob mgr.files).num_pages else (blob mgr.files).first_used_page) ∧
        ∀ q, q ≠ (blob mgr.files).num_pages → (blob files').pages q = (blob m'.files).pages q := by
    intro i m' freed
    have hsame := SameFile.freed hL hfile h freed
    have hcall : (blob m'.files).allocatePage .fresh = .ok _ :=
      if_neg (ne_true_of_eq_false (hsame.failed.trans hlive))
    obtain ⟨files', hrun, hblob⟩ := hL.allocatePage hfile hcall
    refine ⟨files', ?_, ?_, ?_, ?_, fun q hq => ?_⟩
    · rw [hrun, hsame.numPages]
    · rw [hblob]
    · rw [hblob, hsame.numPages]
    · rw [hblob, hsame.numPages, hsame.first]
    · rw [hblob]
      exact if_neg (hsame.numPages ▸ hq)
  cases hrun : P3.allocPage L hash file mgr with
  | ok new m =>
    rw [hrun] at hspec
    cases hspec with
    | @allocated _ m' new' files table freed run loads =>
      obtain ⟨files', hgive, hfailed, hnum, hfirst, hpages⟩ := halloc freed
      rw [run] at hgive
      obtain ⟨rfl, rfl⟩ := EStateM.Result.ok.inj hgive
      refine ⟨rfl, hfailed, hnum, hfirst, fun q => ?_⟩
      by_cases hq : q = (blob mgr.files).num_pages
      · rw [if_pos hq, hq]
        exact seen_loaded_self (freed.agree h.agree) loads _ _
      · rw [if_neg hq, seen_loaded_ne (freed.agree h.agree) loads _ hq (hpages q hq)]
        exact (SameFile.freed hL hfile h freed).seen hlive q
  | error e m =>
    rw [hrun] at hspec
    cases hspec with
    | exceeded t => exact ⟨rfl, .touched h.agree t⟩
    | @failed _ m' _ files freed run =>
      obtain ⟨files', hgive, -⟩ := halloc freed
      rw [run] at hgive
      cases hgive
    | @present _ j m' _ new' files freed run holds =>
      obtain ⟨files', hgive, -⟩ := halloc freed
      rw [run] at hgive
      obtain ⟨rfl, -⟩ := EStateM.Result.ok.inj hgive
      have hheld : seen hash blob file m' (blob mgr.files).num_pages = some _ := seen_held (freed.agree h.agree) holds
      rw [(SameFile.freed hL hfile h freed).seen hlive, hnew] at hheld
      cases hheld

omit hL hfile in
/-- `unPinPage` changes no page. -/
theorem unPinPage_same (h : mgr.Agree hash) (p : PageId) (dirty : Bool) :
    SameFile hash blob file mgr (stateAfter (P3.unPinPage hash file p dirty mgr)) := by
  have hspec := P3.unPinPage_spec h file p dirty
  cases hrun : P3.unPinPage hash file p dirty mgr with
  | ok _ m =>
    rw [hrun] at hspec
    cases hspec
    exact .withDesc ..
  | error e m =>
    rw [hrun] at hspec
    cases hspec with
    | absent => exact .refl mgr
    | notPinned => exact .withDesc ..

omit hL hfile in
/-- A change of a page through its pointer. -/
theorem seen_assigned (h : mgr.Agree hash) (hi : mgr.Holds i file p) (page : Page) (q : PageId) :
    seen hash blob file { mgr with bufPool := Function.update mgr.bufPool i page } q =
      if q = p then some page else seen hash blob file mgr q := by
  by_cases hq : q = p
  · rw [if_pos hq, hq]
    have hi' : ({ mgr with bufPool := Function.update mgr.bufPool i page } : BufMgr F Page σ).Holds i file p := hi
    rw [seen_held (h.withPool _) hi']
    exact congrArg some (Function.update_self ..)
  · rw [if_neg hq]
    refine seen_shrink h (h.withPool _) (fun j hj => ⟨hj, ?_⟩) (fun j hj hno => absurd hj hno) fun _ => rfl
    refine Function.update_of_ne ?_ ..
    rintro rfl
    exact hq (hj.2.pageNo.symm.trans hi.2.pageNo)

end Pages

/-! ### The two layers -/

/-- The page has been allocated. -/
def PageStore.Has (s : PageStore) (p : PageId) : Prop := p ≠ INVALID_NUMBER ∧ p < s.numPages

instance (s : PageStore) (p : PageId) : Decidable (s.Has p) := inferInstanceAs (Decidable (_ ∧ _))

/-- The page, if it has been allocated. -/
def PageStore.page? (s : PageStore) (p : PageId) : Option Page := if s.Has p then some (s.pages p) else none

theorem PageStore.page?_write (hp : s.Has p) (page : Page) (q : PageId) :
    (s.write p page).page? q = if q = p then some page else s.page? q := by
  by_cases hq : q = p
  · subst hq
    have hq' : (s.write q page).Has q := hp
    rw [if_pos rfl, page?, if_pos hq', write_pages, Function.update_self]
  · have hpages : (s.write p page).pages q = s.pages q := Function.update_of_ne hq ..
    rw [if_neg hq, page?, page?, hpages]
    rfl

theorem PageStore.page?_alloc (hpos : 0 < s.numPages) (q : PageId) :
    s.alloc.page? q = if q = s.numPages then some .fresh else s.page? q := by
  by_cases hq : q = s.numPages
  · have hq' : s.alloc.Has q := by
      refine ⟨?_, ?_⟩
      · rw [hq]
        exact Nat.ne_of_gt hpos
      · rw [hq]
        exact Nat.lt_succ_self _
    rw [if_pos hq, page?, if_pos hq', hq, alloc_pages, Function.update_self]
  · have hpages : s.alloc.pages q = s.pages q := Function.update_of_ne hq ..
    have hhas : s.alloc.Has q ↔ s.Has q := by
      refine and_congr_right fun _ => ?_
      rw [alloc_numPages]
      exact ⟨fun hlt => Nat.lt_of_le_of_ne (Nat.le_of_lt_succ hlt) hq, Nat.lt_succ_of_lt⟩
    rw [if_neg hq, page?, page?, hpages]
    simp only [hhas]

/-- The pages of the index file are those of the plain store. -/
structure Mirrors (hash : F → PageId → Nat) (blob : σ → BlobFile Page) (file : F) (first : PageId) (s : PageStore)
    (mgr : BufMgr F Page σ) : Prop where
  pos : 0 < s.numPages
  live : (blob mgr.files).failed = false
  numPages : (blob mgr.files).num_pages = s.numPages
  first : (blob mgr.files).first_used_page = first
  seen : ∀ p, seen hash blob file mgr p = s.page? p

theorem Mirrors.same (h : Mirrors hash blob file first s mgr) (hsame : SameFile hash blob file mgr m) :
    Mirrors hash blob file first s m where
  pos := h.pos
  live := hsame.failed.trans h.live
  numPages := hsame.numPages.trans h.numPages
  first := hsame.first.trans h.first
  seen p := (hsame.seen h.live p).trans (h.seen p)

/-- A page in a frame. -/
theorem Mirrors.held (h : Mirrors hash blob file first s mgr) (hagree : mgr.Agree hash) (hi : mgr.Holds i file p) :
    s.Has p ∧ mgr.bufPool i = s.pages p := by
  have hseen := h.seen p
  rw [seen_held hagree hi, page?] at hseen
  by_cases hp : s.Has p
  · rw [if_pos hp] at hseen
    exact ⟨hp, Option.some.inj hseen⟩
  · rw [if_neg hp] at hseen
    cases hseen

/-- The pool holds the pins `pins`, the changes of the pages `unsaved` are not marked, and the plain store is `s`. -/
def Mirrored (L : FileLayer F Page σ) (hash : F → PageId → Nat) (on : F → Prop) (blob : σ → BlobFile Page) (file : F)
    (first : PageId) (pins : List (PageId × FrameId)) (unsaved : List PageId) (s : PageStore) (mgr : BufMgr F Page σ)
    (t : PageStore) : Prop :=
  t = s ∧ Steady L hash on blob file pins unsaved mgr ∧ Mirrors hash blob file first s mgr

theorem Mirrored.perm {t : PageStore} (h : Mirrored L hash on blob file first pins unsaved s mgr t)
    {pins' : List (PageId × FrameId)} (hp : pins'.Perm pins) :
    Mirrored L hash on blob file first pins' unsaved s mgr t := ⟨h.1, h.2.1.perm hp, h.2.2⟩

/-- The exception with which the code over the pool may end alone. -/
def Exc.GivesUp (e : Exc) : Prop := e = .bufferExceeded

section Layers

variable {exc : Exc → BufMgr F Page σ → PageStore → Prop}

theorem deref_mirrored (hmem : (p, i) ∈ pins) :
    Simulates Exc.GivesUp (Mirrored L hash on blob file first pins unsaved s) (deref (poolLayer L hash file) i)
      (deref layer p)
      (fun a b mgr t => (a = s.pages p ∧ b = s.pages p) ∧ Mirrored L hash on blob file first pins unsaved s mgr t) exc := by
  rintro mgr t ⟨rfl, hsteady, hmirrors⟩
  exact ⟨⟨(hmirrors.held hsteady.agree (hsteady.pinned (p, i) hmem)).2, rfl⟩, rfl, hsteady, hmirrors⟩

theorem assign_mirrored (hfile : on file) (hmem : (p, i) ∈ pins) (page : Page) :
    Simulates Exc.GivesUp (Mirrored L hash on blob file first pins unsaved s) (assign (poolLayer L hash file) i page)
      (assign layer p page)
      (fun _ _ => Mirrored L hash on blob file first pins (p :: unsaved) (s.write p page)) exc := by
  rintro mgr t ⟨rfl, hsteady, hmirrors⟩
  have hi := hsteady.pinned (p, i) hmem
  refine ⟨rfl, hsteady.assigned hfile hmem page, hmirrors.pos, hmirrors.live, hmirrors.numPages, hmirrors.first, fun q => ?_⟩
  rw [page?_write (hmirrors.held hsteady.agree hi).1, ← hmirrors.seen q]
  exact seen_assigned hsteady.agree hi page q

theorem unPinPage_mirrored (dirty : Bool) (unsaved' : List PageId)
    (hsub : ∀ q ∈ unsaved, q ∈ unsaved' ∨ q = p ∧ dirty = true) (hpinned : ∀ q ∈ unsaved', q ∈ pages pins) :
    Simulates Exc.GivesUp (Mirrored L hash on blob file first ((p, i) :: pins) unsaved s)
      ((poolLayer L hash file).unPinPage p dirty) (layer.unPinPage p dirty)
      (fun _ _ => Mirrored L hash on blob file first pins unsaved' s) exc := by
  rintro mgr t ⟨rfl, hsteady, hmirrors⟩
  have hpins : Triple (Steady L hash on blob file ((p, i) :: pins) unsaved) ((poolLayer L hash file).unPinPage p dirty)
      (fun _ => Steady L hash on blob file pins unsaved') (fun _ _ => False) :=
    unPinPage_pins dirty unsaved' hsub hpinned
  have hsame : SameFile hash blob file mgr (stateAfter ((poolLayer L hash file).unPinPage p dirty mgr)) := by
    show SameFile hash blob file mgr (stateAfter (onPool (P3.unPinPage hash file p dirty) mgr))
    rw [stateAfter_onPool]
    exact unPinPage_same hsteady.agree p dirty
  have hrun := hpins mgr hsteady
  cases hcall : (poolLayer L hash file).unPinPage p dirty mgr with
  | ok _ m =>
    rw [hcall] at hrun hsame
    exact ⟨rfl, hrun, hmirrors.same hsame⟩
  | error e m =>
    rw [hcall] at hrun
    exact hrun.elim

variable (hL : Hosts L on blob) (hfile : on file)
include hL hfile

theorem readPage_mirrored (hp : s.Has p) :
    Simulates Exc.GivesUp (Mirrored L hash on blob file first pins unsaved s) ((poolLayer L hash file).readPage p)
      (layer.readPage p)
      (fun i q mgr t => p = q ∧ Mirrored L hash on blob file first ((p, i) :: pins) unsaved s mgr t) exc := by
  rintro mgr t ⟨rfl, hsteady, hmirrors⟩
  have hthere : seen hash blob file mgr p ≠ none := by
    rw [hmirrors.seen p, page?, if_pos hp]
    exact Option.some_ne_none _
  have hpins := hsteady.readPage hL hfile p
  have hsame := hsteady.readPage_same hL hfile p
  show Matches Exc.GivesUp _ exc (onPool (P3.readPage L hash file p) mgr) _
  rw [onPool]
  cases hcall : P3.readPage L hash file p mgr with
  | ok i m =>
    rw [hcall] at hpins hsame
    exact ⟨rfl, rfl, hpins, hmirrors.same (hsame (.inr ⟨hmirrors.live, hthere⟩))⟩
  | error e m =>
    rw [hcall] at hpins
    obtain ⟨rfl, -⟩ := hpins
    exact .inl rfl

theorem allocPage_mirrored :
    Simulates Exc.GivesUp (Mirrored L hash on blob file first pins unsaved s) (poolLayer L hash file).allocPage
      layer.allocPage
      (fun new new' mgr t => (new.1 = s.numPages ∧ new' = (s.numPages, s.numPages)) ∧
        Mirrored L hash on blob file (if first = INVALID_NUMBER then s.numPages else first) (new :: pins) unsaved s.alloc
          mgr t) exc := by
  rintro mgr t ⟨rfl, hsteady, hmirrors⟩
  have hnew : seen hash blob file mgr (blob mgr.files).num_pages = none := by
    rw [hmirrors.seen, hmirrors.numPages, page?]
    exact if_neg fun hp => Nat.lt_irrefl _ hp.2
  have hpins := hsteady.allocPage hL hfile
  have hseen := hsteady.allocPage_seen hL hfile hmirrors.live hnew
  show Matches Exc.GivesUp _ exc (onPool (P3.allocPage L hash file) mgr) _
  rw [onPool]
  cases hcall : P3.allocPage L hash file mgr with
  | ok new m =>
    rw [hcall] at hpins hseen
    obtain ⟨hid, hlive, hnum, hfirst, hpages⟩ := hseen
    rw [hmirrors.numPages] at hid hnum hfirst hpages
    rw [hmirrors.first] at hfirst
    refine ⟨⟨hid, rfl⟩, rfl, hpins, Nat.succ_pos _, hlive, hnum, hfirst, fun q => ?_⟩
    rw [hpages q, hmirrors.seen q, page?_alloc hmirrors.pos]
  | error e m =>
    rw [hcall] at hseen
    obtain ⟨rfl, -⟩ := hseen
    exact .inl rfl

end Layers

/-! ### Insertion -/

section Insertion

variable {exc : Exc → BufMgr F Page σ → PageStore → Prop} {α : Type}

/-- The two halves of a split node. -/
private theorem split_mirrored (hfile : on file) {q : PageId} {j : FrameId} (page₁ page₂ : Page) (c : α)
    (hunsaved : ∀ r ∈ unsaved, r ∈ pages pins) :
    Simulates Exc.GivesUp (Mirrored L hash on blob file first ((q, j) :: (p, i) :: pins) (p :: unsaved) s)
      (do assign (poolLayer L hash file) j page₂
          assign (poolLayer L hash file) i page₁
          (poolLayer L hash file).unPinPage q true
          (poolLayer L hash file).unPinPage p true
          pure c)
      (do assign layer q page₂
          assign layer p page₁
          layer.unPinPage q true
          layer.unPinPage p true
          pure c)
      (fun a b mgr t => a = b ∧ ∃ s', Mirrored L hash on blob file first pins unsaved s' mgr t) exc := by
  refine (assign_mirrored hfile List.mem_cons_self page₂).bind fun _ _ => ?_
  refine (assign_mirrored hfile (List.mem_cons_of_mem _ List.mem_cons_self) page₁).bind fun _ _ => ?_
  refine Simulates.bind (unPinPage_mirrored true (p :: unsaved) (fun r hr => ?_) fun r hr => ?_) fun _ _ => ?_
  · simp only [List.mem_cons] at hr ⊢
    tauto
  · rw [pages_cons]
    simp only [List.mem_cons] at hr ⊢
    exact hr.imp id (hunsaved r)
  · refine Simulates.bind (unPinPage_mirrored true unsaved (fun r hr => ?_) hunsaved) fun _ _ =>
      .pure fun mgr t h => ⟨rfl, _, h⟩
    simp only [List.mem_cons] at hr
    tauto

/-- A node that was not split. -/
private theorem whole_mirrored (hfile : on file) (page : Page) (c : α) (hunsaved : ∀ r ∈ unsaved, r ∈ pages pins) :
    Simulates Exc.GivesUp (Mirrored L hash on blob file first ((p, i) :: pins) (p :: unsaved) s)
      (do assign (poolLayer L hash file) i page
          (poolLayer L hash file).unPinPage p true
          pure c)
      (do assign layer p page
          layer.unPinPage p true
          pure c)
      (fun a b mgr t => a = b ∧ ∃ s', Mirrored L hash on blob file first pins unsaved s' mgr t) exc := by
  refine (assign_mirrored hfile List.mem_cons_self page).bind fun _ _ => ?_
  refine Simulates.bind (unPinPage_mirrored true unsaved (fun r hr => ?_) hunsaved) fun _ _ =>
    .pure fun mgr t h => ⟨rfl, _, h⟩
  simp only [List.mem_cons] at hr
  tauto

variable (hL : Hosts L on blob) (hfile : on file) (hfirst : first ≠ INVALID_NUMBER)
include hL hfile hfirst

private theorem newPage_mirrored :
    Simulates Exc.GivesUp (Mirrored L hash on blob file first pins unsaved s) (poolLayer L hash file).allocPage
      layer.allocPage
      (fun new new' mgr t => (new.1 = s.numPages ∧ new' = (s.numPages, s.numPages)) ∧
        Mirrored L hash on blob file first (new :: pins) unsaved s.alloc mgr t) exc := by
  refine (allocPage_mirrored hL hfile).conseq (fun _ _ h => h) (fun new new' mgr t h => ?_) fun _ _ _ h => h
  rw [if_neg hfirst] at h
  exact h

set_option maxRecDepth 4000 in
/-- `insertUnderNode` over the pool does what it does over the plain store, when the pages on its way are there; by
induction on the depth. -/
theorem insertUnderNode_mirrored (hfuel : ∀ mgr t, exc .outOfFuel mgr t) (fuel : Nat) (e : RIDKeyPair) (p : PageId)
    (isLeaf : Bool)
    (pins : List (PageId × FrameId)) (unsaved : List PageId) (s : PageStore) (hunsaved : ∀ r ∈ unsaved, r ∈ pages pins)
    (hpath : ∀ q ∈ insertPath s e.key fuel p isLeaf, s.Has q) :
    Simulates Exc.GivesUp (Mirrored L hash on blob file first pins unsaved s)
      (insertUnderNode (poolLayer L hash file) fuel e p isLeaf) (insertUnderNode layer fuel e p isLeaf)
      (fun a b mgr t => a = b ∧ ∃ s', Mirrored L hash on blob file first pins unsaved s' mgr t) exc := by
  induction fuel generalizing p isLeaf pins unsaved s with
  | zero => exact .throw fun mgr t _ => hfuel mgr t
  | succ fuel ih =>
    rw [insertUnderNode, insertUnderNode]
    have hp : s.Has p := hpath p List.mem_cons_self
    refine Simulates.bind_of (readPage_mirrored hL hfile hp) fun i _ hq => ?_
    subst hq
    cases isLeaf with
    | true =>
      rw [if_pos rfl, if_pos rfl]
      refine Simulates.bind_of (deref_mirrored List.mem_cons_self) fun page _ hpage => ?_
      obtain ⟨rfl, rfl⟩ := hpage
      refine Simulates.bind (assign_mirrored hfile List.mem_cons_self _) fun _ _ => ?_
      split
      · refine Simulates.bind_of (newPage_mirrored hL hfile hfirst) fun new _ hnew => ?_
        obtain ⟨q, j⟩ := new
        obtain ⟨hid, rfl⟩ := hnew
        obtain rfl : q = _ := hid
        refine Simulates.bind_of (deref_mirrored List.mem_cons_self) fun page _ hpage => ?_
        obtain ⟨rfl, rfl⟩ := hpage
        exact split_mirrored hfile _ _ _ hunsaved
      · exact whole_mirrored hfile _ _ hunsaved
    | false =>
      rw [if_neg Bool.false_ne_true, if_neg Bool.false_ne_true]
      refine Simulates.bind_of (deref_mirrored List.mem_cons_self) fun page _ hpage => ?_
      obtain ⟨rfl, rfl⟩ := hpage
      have hchild := ih ((s.pages p).asNonLeaf.pageNoArray ((s.pages p).asNonLeaf.childPos e.key))
        (decide ((s.pages p).asNonLeaf.level ≠ 0)) ((p, i) :: pins) unsaved s
        (fun r hr => List.mem_cons_of_mem _ (hunsaved r hr)) fun q hq => hpath q ?_
      · refine Simulates.bind_of hchild fun c c' hc => ?_
        subst hc
        refine Simulates.of_exists fun s' => ?_
        split
        · exact (unPinPage_mirrored false unsaved (fun r hr => .inl hr) hunsaved).bind fun _ _ =>
            .pure fun _ _ h => ⟨rfl, s', h⟩
        · refine Simulates.bind_of (deref_mirrored List.mem_cons_self) fun page _ hpage => ?_
          obtain ⟨rfl, rfl⟩ := hpage
          refine Simulates.bind (assign_mirrored hfile List.mem_cons_self _) fun _ _ => ?_
          split
          · refine Simulates.bind_of (newPage_mirrored hL hfile hfirst) fun new _ hnew => ?_
            obtain ⟨q, j⟩ := new
            obtain ⟨hid, rfl⟩ := hnew
            obtain rfl : q = _ := hid
            refine Simulates.bind_of (deref_mirrored List.mem_cons_self) fun page _ hpage => ?_
            obtain ⟨rfl, rfl⟩ := hpage
            exact split_mirrored hfile _ _ _ hunsaved
          · exact whole_mirrored hfile _ _ hunsaved
      · rw [insertPath]
        exact List.mem_cons_of_mem _ hq

end Insertion

/-! ### The methods of the index -/

section Both

variable {τ υ Ptr Ptr' α β : Type} {this : BTreeIndex Ptr} {that : BTreeIndex Ptr'} {P : τ → υ → Prop}
  {exc : Exc → World τ Ptr → World υ Ptr' → Prop}

/-- The data members of the two indices, and the states below them. -/
def Both (this : BTreeIndex Ptr) (that : BTreeIndex Ptr') (P : τ → υ → Prop) (w : World τ Ptr) (u : World υ Ptr') : Prop :=
  w.index = this ∧ u.index = that ∧ P w.pages u.pages

theorem onPages_both (hfuel : ∀ w u, exc .outOfFuel w u) {x : EStateM Exc τ α} {y : EStateM Exc υ β} {R : α → β → Prop}
    {Q : α → β → τ → υ → Prop}
    (h : Simulates Exc.GivesUp P x y (fun a b m s => R a b ∧ Q a b m s) fun e _ _ => e = .outOfFuel) :
    Simulates Exc.GivesUp (Both this that P) (onPages x) (onPages y)
      (fun a b w u => R a b ∧ Both this that (Q a b) w u) exc := by
  rintro w u ⟨hthis, hthat, hpages⟩
  have hxy := h _ _ hpages
  rw [onPages, onPages]
  cases hx : x w.pages with
  | ok a m =>
    rw [hx] at hxy
    cases hy : y u.pages with
    | ok b s =>
      rw [hy] at hxy
      exact ⟨hxy.1, hthis, hthat, hxy.2⟩
    | error e s =>
      rw [hy] at hxy
      exact hxy.elim
  | error e m =>
    rw [hx] at hxy
    refine hxy.imp id fun hthrow => ?_
    obtain ⟨s, hy, rfl⟩ := hthrow
    rw [hy]
    exact ⟨_, rfl, hfuel _ _⟩

theorem onPages_both' (hfuel : ∀ w u, exc .outOfFuel w u) {x : EStateM Exc τ α} {y : EStateM Exc υ β} {Q : τ → υ → Prop}
    (h : Simulates Exc.GivesUp P x y (fun _ _ => Q) fun e _ _ => e = .outOfFuel) :
    Simulates Exc.GivesUp (Both this that P) (onPages x) (onPages y) (fun _ _ => Both this that Q) exc :=
  (onPages_both hfuel (h.conseq (fun _ _ h => h) (fun _ _ _ _ h => (⟨trivial, h⟩ : True ∧ _)) fun _ _ _ h => h)).conseq
    (fun _ _ h => h) (fun _ _ _ _ h => h.2) fun _ _ _ h => h

theorem setIndex_both (f : BTreeIndex Ptr → BTreeIndex Ptr) (g : BTreeIndex Ptr' → BTreeIndex Ptr') :
    Simulates Exc.GivesUp (Both this that P) (setIndex f) (setIndex g) (fun _ _ => Both (f this) (g that) P) exc := by
  rintro w u ⟨hthis, hthat, hpages⟩
  exact ⟨congrArg f hthis, congrArg g hthat, hpages⟩

/-- Reading the data members. -/
theorem get_both {f : World τ Ptr → EStateM Exc (World τ Ptr) α} {g : World υ Ptr' → EStateM Exc (World υ Ptr') β}
    {post : α → β → World τ Ptr → World υ Ptr' → Prop}
    (h : ∀ w u, w.index = this → u.index = that → Simulates Exc.GivesUp (Both this that P) (f w) (g u) post exc) :
    Simulates Exc.GivesUp (Both this that P) (get >>= f) (get >>= g) post exc :=
  .get_bind fun w u hwu v t hvt => h w u hwu.1 hwu.2.1 v t (by rw [hvt.1, hvt.2]; exact hwu)

end Both

section Methods

variable {this : BTreeIndex FrameId} {that : BTreeIndex PageId}
  {exc : Exc → World (BufMgr F Page σ) FrameId → World PageStore PageId → Prop}
  (hL : Hosts L on blob) (hfile : on file) (hfirst : first ≠ INVALID_NUMBER)
include hL hfile hfirst

set_option maxRecDepth 4000 in
/-- `insertEntry` over the pool does what it does over the plain store. -/
theorem insertEntryWithin_mirrored (hfuel : ∀ w u, exc .outOfFuel w u) (depth : IndexMetaInfo → Nat) (key : Int)
    (rid : RecordId) (hunsaved : ∀ r ∈ unsaved, r ∈ pages pins) (hheader : this.headerPageNum = that.headerPageNum)
    (hroot : this.rootPageNum = that.rootPageNum) (hthere : s.Has that.headerPageNum)
    (hpath : ∀ q ∈ insertPath s key (depth (s.pages that.headerPageNum).asMetaInfo) that.rootPageNum
      (decide ((s.pages that.headerPageNum).asMetaInfo.height = 1)), s.Has q) :
    Simulates Exc.GivesUp (Both this that (Mirrored L hash on blob file first pins unsaved s))
      (insertEntryWithin (poolLayer L hash file) depth key rid) (insertEntryWithin layer depth key rid)
      (fun _ _ w u => ∃ r s', Both { this with rootPageNum := r } { that with rootPageNum := r }
        (Mirrored L hash on blob file first pins unsaved s') w u) exc := by
  rw [insertEntryWithin, insertEntryWithin]
  refine get_both fun w u hw hu => ?_
  simp only [hw, hu, hheader, hroot]
  refine Simulates.bind_of (onPages_both hfuel (readPage_mirrored hL hfile hthere)) fun i _ hq => ?_
  subst hq
  refine Simulates.bind_of (onPages_both hfuel (deref_mirrored List.mem_cons_self)) fun page _ hpage => ?_
  obtain ⟨rfl, rfl⟩ := hpage
  refine Simulates.bind_of (onPages_both hfuel (insertUnderNode_mirrored hL hfile hfirst (fun _ _ => rfl) _ _ _ _ _ _ _
    (fun r hr => List.mem_cons_of_mem _ (hunsaved r hr)) hpath)) fun c _ hc => ?_
  subst hc
  have hmem : (that.headerPageNum, i) ∈ (that.headerPageNum, i) :: pins := List.mem_cons_self
  have hpages : ∀ w u, Both this that (fun m t => ∃ s', Mirrored L hash on blob file first
      ((that.headerPageNum, i) :: pins) unsaved s' m t) w u → ∃ s', Both this that (Mirrored L hash on blob file first
      ((that.headerPageNum, i) :: pins) unsaved s') w u := fun w u h => ⟨h.2.2.choose, h.1, h.2.1, h.2.2.choose_spec⟩
  refine Simulates.weaken (Simulates.of_exists fun s' => ?_) hpages
  split
  · refine (onPages_both' hfuel (unPinPage_mirrored false unsaved (fun r hr => .inl hr) hunsaved)).conseq (fun _ _ h => h)
      (fun _ _ w u h => ?_) fun _ _ _ h => h
    have hthis : { this with headerPageNum := that.headerPageNum, rootPageNum := that.rootPageNum } = this := by
      rw [← hroot, ← hheader]
    refine ⟨that.rootPageNum, s', ?_⟩
    rw [hthis]
    exact h
  · refine Simulates.bind_of (onPages_both hfuel (newPage_mirrored hL hfile hfirst)) fun new _ hnew => ?_
    obtain ⟨q, j⟩ := new
    obtain ⟨hid, rfl⟩ := hnew
    obtain rfl : q = _ := hid
    refine Simulates.bind_of (onPages_both hfuel (deref_mirrored List.mem_cons_self)) fun page _ hpage => ?_
    obtain ⟨rfl, rfl⟩ := hpage
    refine Simulates.bind (onPages_both' hfuel (assign_mirrored hfile List.mem_cons_self _)) fun _ _ => ?_
    refine Simulates.bind (setIndex_both _ _) fun _ _ => ?_
    refine Simulates.bind_of (onPages_both hfuel (deref_mirrored (List.mem_cons_of_mem _ hmem))) fun page _ hpage => ?_
    obtain ⟨rfl, rfl⟩ := hpage
    refine Simulates.bind (onPages_both' hfuel (assign_mirrored hfile (List.mem_cons_of_mem _ hmem) _)) fun _ _ => ?_
    -- the header page is given back before the new root
    refine Simulates.bind ((onPages_both' hfuel (unPinPage_mirrored true (s'.numPages :: unsaved)
      (fun r hr => ?_) fun r hr =>
      ?_)).weaken fun w u h => ⟨h.1, h.2.1, h.2.2.perm (List.Perm.swap ..)⟩) fun _ _ => ?_
    · simp only [List.mem_cons] at hr ⊢
      tauto
    · rw [pages_cons]
      simp only [List.mem_cons] at hr ⊢
      exact hr.imp id (hunsaved r)
    · refine (onPages_both' hfuel (unPinPage_mirrored true unsaved (fun r hr => ?_) hunsaved)).conseq (fun _ _ h => h)
        (fun _ _ w u h => ?_) fun _ _ _ h => h
      · simp only [List.mem_cons] at hr
        tauto
      · rw [hheader] at h
        exact ⟨_, _, h⟩

end Methods

end Cs564.BTree
