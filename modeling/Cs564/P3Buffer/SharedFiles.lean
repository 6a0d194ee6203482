import Cs564.P3Buffer.BlobFile
import Cs564.P3Buffer.Operations

/-!
# Several objects on one file

The pool of `p3` knows a page by its `File` object.  If no page is asked for through one object while it is in the pool
through another object on the same file, then the pool holds at most one copy of a page, and that copy has all changes
that clients made (`one_copy`); through two objects at a time it holds two (`two_copies`).

The files are a page store by name and number (`FileLayer.Faithful`); `body` is what a client can change of a page.
-/

namespace Cs564.P3

open P2 (BufError BufHashTbl BufDesc BufMgr BufM Loads)
open P2.BufMgr

variable {F N P C σ : Type} [DecidableEq F] [DecidableEq N]

/-- The files are a page store: a call for a page that is there does its work, and a call that throws changes nothing. -/
structure FileLayer.Faithful (L : FileLayer F P σ) (filename : F → N) (body : P → C)
    (store : σ → N × PageId → Option C) : Prop where
  readPage : ∀ {files f p c}, store files (filename f, p) = some c →
    ∃ page files', L.readPage f p files = .ok page files' ∧ body page = c ∧ store files' = store files
  writePage : ∀ {files f p} page, store files (filename f, p) ≠ none →
    ∃ files', L.writePage f p page files = .ok () files' ∧
      store files' = Function.update (store files) (filename f, p) (some (body page))
  allocatePage : ∀ {files files' f new}, L.allocatePage f files = .ok new files' →
    store files (filename f, new.1) = none ∧
      store files' = Function.update (store files) (filename f, new.1) (some (body new.2))
  allocateThrows : ∀ {files files' f e}, L.allocatePage f files = .error e files' → store files' = store files
  deletePage : ∀ {files files' f p}, L.deletePage f p files = .ok () files' →
    store files' = Function.update (store files) (filename f, p) none

/-- What clients do; `edit` is a change of a page through its pointer. -/
inductive Call (F P : Type) where
  | readPage (file : F) (pageNo : PageId)
  | allocPage (file : F)
  | unPinPage (file : F) (pageNo : PageId) (dirty : Bool)
  | flushFile (file : F)
  | disposePage (file : F) (pageNo : PageId)
  | edit (file : F) (pageNo : PageId) (fid : FrameId) (page : P)

/-- The contents of all pages after all changes, by the names of their files, and the pages that were changed after the
last `unPinPage` that marked them as dirty. -/
structure Edits (N C : Type) where
  contents : N × PageId → Option C
  unsaved : N × PageId → Bool

section Run

variable (L : FileLayer F P σ) (hash : F → PageId → Nat) (filename : F → N) (body : P → C)

/-- The manager and the contents after the call, whether it returns or throws. -/
def Call.run (mgr : BufMgr F P σ) (edits : Edits N C) : Call F P → BufMgr F P σ × Edits N C
  | readPage f p =>
    match P3.readPage L hash f p mgr with
    | .ok _ mgr' => (mgr', edits)
    | .error _ mgr' => (mgr', edits)
  | allocPage f =>
    match P3.allocPage L hash f mgr with
    | .ok new mgr' =>
      (mgr', { contents := Function.update edits.contents (filename f, new.1) (some (body (mgr'.bufPool new.2)))
               unsaved := Function.update edits.unsaved (filename f, new.1) false })
    | .error _ mgr' => (mgr', edits)
  | unPinPage f p dirty =>
    match P3.unPinPage hash f p dirty mgr with
    | .ok () mgr' =>
      (mgr', { edits with
        unsaved := if dirty then Function.update edits.unsaved (filename f, p) false else edits.unsaved })
    | .error _ mgr' => (mgr', edits)
  | flushFile f =>
    match P3.flushFile L hash f mgr with
    | .ok () mgr' => (mgr', edits)
    | .error _ mgr' => (mgr', edits)
  | disposePage f p =>
    match P3.disposePage L hash f p mgr with
    | .ok () mgr' =>
      (mgr', { contents := Function.update edits.contents (filename f, p) none
               unsaved := Function.update edits.unsaved (filename f, p) false })
    | .error _ mgr' => (mgr', edits)
  | edit f p fid page =>
    ({ mgr with bufPool := Function.update mgr.bufPool fid page },
      { contents := Function.update edits.contents (filename f, p) (some (body page))
        unsaved := Function.update edits.unsaved (filename f, p) true })

/-- The page is in the pool through no other object on the file. -/
def Alone (mgr : BufMgr F P σ) (f : F) (p : PageId) : Prop :=
  ∀ i g, mgr.Holds i g p → filename g = filename f → g = f

/-- The file throws when it is asked for page `p` without having it, and nothing changes. -/
def FileLayer.Refuses (store : σ → N × PageId → Option C) (f : F) (p : PageId) : Prop :=
  ∀ files, store files (filename f, p) = none →
    ∃ e files', L.readPage f p files = .error e files' ∧ store files' = store files

/-- A page that is asked for is there or refused.  A page is changed with a pin on it, and the last pin on a changed page
is given back with the dirty mark; a page that is disposed of can be deleted by its file. -/
def Call.Disciplined (store : σ → N × PageId → Option C) (mgr : BufMgr F P σ) (edits : Edits N C) : Call F P → Prop
  | readPage f p => edits.contents (filename f, p) ≠ none ∨ L.Refuses filename store f p
  | allocPage _ => True
  | unPinPage f p dirty =>
    dirty = false → edits.unsaved (filename f, p) = true → ∀ i, mgr.Holds i f p → 1 < (mgr.bufDescTable i).pinCnt
  | flushFile _ => True
  | disposePage f p => ∀ i, mgr.Holds i f p → ∃ files, L.deletePage f p mgr.files = .ok () files
  | edit f p fid _ => mgr.Holds fid f p ∧ 0 < (mgr.bufDescTable fid).pinCnt

/-- The call does not ask for a page that is in the pool through another object on the file. -/
def Call.Unshared (mgr : BufMgr F P σ) : Call F P → Prop
  | readPage f p => Alone filename mgr f p
  | _ => True

/-- The call is one of disciplined clients and asks for no page that another object has in the pool. -/
def Call.Allowed (store : σ → N × PageId → Option C) (mgr : BufMgr F P σ) (edits : Edits N C) (call : Call F P) : Prop :=
  call.Disciplined L filename store mgr edits ∧ call.Unshared filename mgr

/-- The states that calls lead to from a new manager over `files`, each call meeting `cond`. -/
inductive Run (bufs : Nat) (page : P) (files : σ) (contents : N × PageId → Option C)
    (cond : BufMgr F P σ → Edits N C → Call F P → Prop) : BufMgr F P σ → Edits N C → Prop where
  | start : Run bufs page files contents cond (newBufMgr bufs page files) ⟨contents, fun _ => false⟩
  | call {mgr : BufMgr F P σ} {edits : Edits N C} (call : Call F P) (before : Run bufs page files contents cond mgr edits)
      (meets : cond mgr edits call) : Run bufs page files contents cond (call.run L hash filename body mgr edits).1
        (call.run L hash filename body mgr edits).2

end Run

/-- No two valid frames hold the same page of the same file, the copy of a page in the pool or else the one in its file
has all changes, and `readPage` gives such a copy. -/
structure OneCopy (L : FileLayer F P σ) (hash : F → PageId → Nat) (filename : F → N) (body : P → C)
    (store : σ → N × PageId → Option C) (mgr : BufMgr F P σ) (edits : Edits N C) : Prop where
  distinct : ∀ i j f g p, mgr.Holds i f p → mgr.Holds j g p → filename f = filename g → i = j
  current : ∀ i f p, mgr.Holds i f p → edits.contents (filename f, p) = some (body (mgr.bufPool i))
  stored : ∀ n p, (∀ i f, mgr.Holds i f p → filename f ≠ n) → store mgr.files (n, p) = edits.contents (n, p)
  reads : ∀ f p i mgr', Alone filename mgr f p → readPage L hash f p mgr = .ok i mgr' →
    edits.contents (filename f, p) ≠ none → edits.contents (filename f, p) = some (body (mgr'.bufPool i))

/-- The pool and the files have page `p` of file `n` after all changes. -/
structure KeptAt (filename : F → N) (body : P → C) (store : σ → N × PageId → Option C) (mgr : BufMgr F P σ)
    (edits : Edits N C) (n : N) (p : PageId) : Prop where
  distinct : ∀ i j f g, mgr.Holds i f p → mgr.Holds j g p → filename f = n → filename g = n → i = j
  current : ∀ i f, mgr.Holds i f p → filename f = n → edits.contents (n, p) = some (body (mgr.bufPool i))
  live : ∀ i f, mgr.Holds i f p → filename f = n → store mgr.files (n, p) ≠ none
  pinned : ∀ i f, mgr.Holds i f p → filename f = n → edits.unsaved (n, p) = true → 0 < (mgr.bufDescTable i).pinCnt
  clean : ∀ i f, mgr.Holds i f p → filename f = n → (mgr.bufDescTable i).dirty = false → edits.unsaved (n, p) = false →
    store mgr.files (n, p) = edits.contents (n, p)
  stored : (∀ i f, mgr.Holds i f p → filename f ≠ n) → store mgr.files (n, p) = edits.contents (n, p)

/-- The pool and the files have all pages after all changes. -/
def Kept (filename : F → N) (body : P → C) (store : σ → N × PageId → Option C) (mgr : BufMgr F P σ)
    (edits : Edits N C) : Prop :=
  ∀ n p, KeptAt filename body store mgr edits n p

variable {L : FileLayer F P σ} {hash : F → PageId → Nat} {filename : F → N} {body : P → C}
  {store : σ → N × PageId → Option C} {mgr mgr' m : BufMgr F P σ} {edits edits' : Edits N C} {n : N} {p : PageId}

omit [DecidableEq F] [DecidableEq N] in
/-- A page that is not concerned. -/
theorem KeptAt.congr (hk : KeptAt filename body store mgr edits n p)
    (hholds : ∀ i f, filename f = n → (mgr'.Holds i f p ↔ mgr.Holds i f p))
    (hsame : ∀ i f, filename f = n → mgr'.Holds i f p → mgr.SameFrame mgr' i)
    (hstore : store mgr'.files (n, p) = store mgr.files (n, p)) (hcontents : edits'.contents (n, p) = edits.contents (n, p))
    (hunsaved : edits'.unsaved (n, p) = edits.unsaved (n, p)) : KeptAt filename body store mgr' edits' n p where
  distinct i j f g hi hj hf hg := hk.distinct i j f g ((hholds i f hf).mp hi) ((hholds j g hg).mp hj) hf hg
  current i f hi hf := by
    rw [hcontents, (hsame i f hf hi).page]
    exact hk.current i f ((hholds i f hf).mp hi) hf
  live i f hi hf := by
    rw [hstore]
    exact hk.live i f ((hholds i f hf).mp hi) hf
  pinned i f hi hf hpending := by
    rw [(hsame i f hf hi).pinCnt]
    exact hk.pinned i f ((hholds i f hf).mp hi) hf (hunsaved.symm.trans hpending)
  clean i f hi hf hdirty hsaved := by
    rw [hstore, hcontents]
    exact hk.clean i f ((hholds i f hf).mp hi) hf ((hsame i f hf hi).dirty.symm.trans hdirty) (hunsaved.symm.trans hsaved)
  stored hno := by
    rw [hstore, hcontents]
    exact hk.stored fun i f hi hf => hno i f ((hholds i f hf).mpr hi) hf

omit [DecidableEq F] [DecidableEq N] in
/-- A page that one frame holds. -/
theorem KeptAt.of_frame {i : FrameId} {f : F} (hi : mgr.Holds i f p) (hf : filename f = n)
    (hone : ∀ j g, mgr.Holds j g p → filename g = n → j = i)
    (hcurrent : edits.contents (n, p) = some (body (mgr.bufPool i))) (hlive : store mgr.files (n, p) ≠ none)
    (hpinned : edits.unsaved (n, p) = true → 0 < (mgr.bufDescTable i).pinCnt)
    (hclean : (mgr.bufDescTable i).dirty = false → edits.unsaved (n, p) = false →
      store mgr.files (n, p) = edits.contents (n, p)) : KeptAt filename body store mgr edits n p where
  distinct j k g g' hj hk hg hg' := (hone j g hj hg).trans (hone k g' hk hg').symm
  current j g hj hg := hone j g hj hg ▸ hcurrent
  live _ _ _ _ := hlive
  pinned j g hj hg := hone j g hj hg ▸ hpinned
  clean j g hj hg := hone j g hj hg ▸ hclean
  stored hno := absurd hf (hno i f hi)

omit [DecidableEq F] [DecidableEq N] in
/-- A page that no frame holds. -/
private theorem KeptAt.of_absent (hno : ∀ i f, mgr.Holds i f p → filename f ≠ n)
    (hstored : store mgr.files (n, p) = edits.contents (n, p)) : KeptAt filename body store mgr edits n p where
  distinct i _ f _ hi _ hf := absurd hf (hno i f hi)
  current i f hi hf := absurd hf (hno i f hi)
  live i f hi hf := absurd hf (hno i f hi)
  pinned i f hi hf := absurd hf (hno i f hi)
  clean i f hi hf := absurd hf (hno i f hi)
  stored _ := hstored

omit [DecidableEq F] in
private theorem Kept.writable (hL : L.Faithful filename body store) (hk : Kept filename body store mgr edits) :
    Writable L mgr := by
  intro i f p hi
  obtain ⟨files, hwrite, -⟩ := hL.writePage (mgr.bufPool i) ((hk (filename f) p).live i f hi rfl)
  exact ⟨files, hwrite⟩

omit [DecidableEq F] [DecidableEq N] in
private theorem Kept.touched (hk : Kept filename body store mgr edits) (t : mgr.Touched m) :
    Kept filename body store m edits := by
  intro n p
  refine (hk n p).congr (fun i f _ => t.holds_iff) (fun i f _ _ => ?_) (by rw [t.files]) rfl rfl
  exact ⟨by rw [t.desc i], by rw [t.desc i], by rw [t.bufPool]⟩

/-- A page that leaves the pool is in its file. -/
private theorem Kept.dropped (hL : L.Faithful filename body store) (hk : Kept filename body store mgr edits)
    {i : FrameId} {f : F} {q : PageId} (d : Dropped L hash mgr i f q m) : Kept filename body store m edits := by
  intro n p
  have hholds : ∀ j g, m.Holds j g p ↔ j ≠ i ∧ mgr.Holds j g p := fun j g => d.holds_iff
  have hsame : ∀ j, j ≠ i → mgr.SameFrame m j := fun j hj => d.same hj
  obtain ⟨holds, unpinned, hwritten⟩ :
      mgr.Holds i f q ∧ (mgr.bufDescTable i).pinCnt = 0 ∧ Written L mgr i f q m.files := by
    cases d with
    | drop holds unpinned written => exact ⟨holds, unpinned, written⟩
  have hkey := hk (filename f) q
  -- what the file has then
  have hstore : store m.files (filename f, q) = edits.contents (filename f, q) ∧
      ∀ key, key ≠ (filename f, q) → store m.files key = store mgr.files key := by
    unfold Written at hwritten
    by_cases hdirty : (mgr.bufDescTable i).dirty = true
    · rw [if_pos hdirty] at hwritten
      obtain ⟨files, hwrite, hstore⟩ := hL.writePage (mgr.bufPool i) (hkey.live i f holds rfl)
      rw [hwritten] at hwrite
      obtain ⟨-, rfl⟩ := EStateM.Result.ok.inj hwrite
      rw [hstore, Function.update_self]
      exact ⟨(hkey.current i f holds rfl).symm, fun key hne => Function.update_of_ne hne ..⟩
    · rw [if_neg hdirty] at hwritten
      rw [hwritten]
      refine ⟨hkey.clean i f holds rfl (Bool.eq_false_iff.mpr hdirty) (Bool.eq_false_iff.mpr fun hunsaved => ?_),
        fun _ _ => rfl⟩
      exact Nat.ne_of_gt (hkey.pinned i f holds rfl hunsaved) unpinned
  by_cases heq : (n, p) = (filename f, q)
  · obtain ⟨rfl, rfl⟩ := Prod.mk.inj heq
    refine .of_absent (fun j g hj hg => ?_) hstore.1
    obtain ⟨hne, hj⟩ := (hholds j g).mp hj
    exact hne (hkey.distinct j i g f hj holds hg rfl)
  · have hne : ∀ j g, filename g = n → mgr.Holds j g p → j ≠ i := by
      rintro j g rfl hj rfl
      refine heq ?_
      rw [Option.some.inj (hj.2.file.symm.trans holds.2.file), hj.2.pageNo.symm.trans holds.2.pageNo]
    refine (hk n p).congr (fun j g hg => ?_) (fun j g hg hj => hsame j ((hholds j g).mp hj).1) (hstore.2 _ heq) rfl rfl
    exact (hholds j g).trans (and_iff_right_of_imp (hne j g hg))

private theorem Kept.freed (hL : L.Faithful filename body store) (hk : Kept filename body store mgr edits)
    {i : FrameId} (hfreed : Freed L hash mgr i m) : Kept filename body store m edits := by
  cases hfreed with
  | @empty m t lt invalid =>
    intro n p
    have hne : ∀ j g, m.Holds j g p → j ≠ i := by
      rintro j g hj rfl
      exact Bool.false_ne_true (invalid.symm.trans hj.2.valid)
    refine (hk.touched t n p).congr (fun j g _ => holds_vacate.trans (and_iff_right_of_imp (hne j g))) (fun j g _ hj => ?_)
      rfl rfl rfl
    have hji := (holds_vacate.mp hj).1
    exact ⟨by rw [vacate_desc _ hji], by rw [vacate_desc _ hji], rfl⟩
  | evicted t dropped => exact (hk.touched t).dropped hL dropped

/-- A page is put into the pool with one pin, while no object on its file has it there. -/
private theorem Kept.occupied (hk : Kept filename body store mgr edits) {i : FrameId} {f : F} {q : PageId} {page : P}
    {files : σ} {table : BufHashTbl F} (loads : Loads hash mgr i f q table)
    (halone : ∀ j g, mgr.Holds j g q → filename g ≠ filename f)
    (hcurrent : edits'.contents (filename f, q) = some (body page))
    (hstored : store files (filename f, q) = edits'.contents (filename f, q))
    (hothers : ∀ key, key ≠ (filename f, q) → store files key = store mgr.files key ∧
      edits'.contents key = edits.contents key ∧ edits'.unsaved key = edits.unsaved key) :
    Kept filename body store ((mgr.withFiles files).occupy i table f q page) edits' := by
  intro n p
  have hlt : i < (mgr.withFiles files).numBufs := loads.lt
  have hself : ((mgr.withFiles files).occupy i table f q page).bufDescTable i = .Set f q := occupy_self table page
  have hpage : ((mgr.withFiles files).occupy i table f q page).bufPool i = page := Function.update_self ..
  have hfiles : ((mgr.withFiles files).occupy i table f q page).files = files := rfl
  by_cases heq : (n, p) = (filename f, q)
  · obtain ⟨rfl, rfl⟩ := Prod.mk.inj heq
    refine .of_frame ((holds_occupy hlt).mpr (.inl ⟨rfl, rfl, rfl⟩)) rfl (fun j g hj hg => ?_) ?_ ?_ (fun _ => ?_)
      fun _ _ => hstored
    · rcases (holds_occupy hlt).mp hj with ⟨rfl, -⟩ | ⟨-, hj⟩
      · rfl
      · exact absurd hg (halone j g hj)
    · rw [hpage]
      exact hcurrent
    · rw [hfiles, hstored, hcurrent]
      exact Option.some_ne_none _
    · rw [hself]
      exact Nat.one_pos
  · obtain ⟨hstore, hcontents, hunsaved⟩ := hothers _ heq
    refine (hk n p).congr (fun j g hg => ?_) (fun j g hg hj => ?_) hstore hcontents hunsaved
    · rw [holds_occupy hlt]
      constructor
      · rintro (⟨rfl, rfl, rfl⟩ | ⟨-, hj⟩)
        · exact absurd (by rw [hg]) heq
        · exact hj
      · intro hj
        refine .inr ⟨?_, hj⟩
        rintro rfl
        exact Bool.false_ne_true (loads.invalid.symm.trans hj.2.valid)
    · rcases (holds_occupy hlt).mp hj with ⟨rfl, rfl, rfl⟩ | ⟨hne, -⟩
      · exact absurd (by rw [hg]) heq
      · have hsame : (mgr.withFiles files).SameFrame _ j := occupy_same (f := f) (p := q) table page hne
        exact ⟨hsame.pinCnt, hsame.dirty, hsame.page⟩

omit [DecidableEq F] in
/-- Another descriptor of a page in the pool. -/
private theorem Kept.redescribed (hk : Kept filename body store mgr edits) {i : FrameId} {f : F} {q : PageId}
    (hi : mgr.Holds i f q) {desc : BufDesc F} (hdesc : desc.Is f q)
    (hpinned : edits'.unsaved (filename f, q) = true → 0 < desc.pinCnt)
    (hclean : desc.dirty = false → edits'.unsaved (filename f, q) = false →
      (mgr.bufDescTable i).dirty = false ∧ edits.unsaved (filename f, q) = false)
    (hcontents : edits'.contents = edits.contents)
    (hunsaved : ∀ key, key ≠ (filename f, q) → edits'.unsaved key = edits.unsaved key) :
    Kept filename body store (mgr.withDesc i desc) edits' := by
  intro n p
  have hholds : ∀ j g, (mgr.withDesc i desc).Holds j g p ↔ mgr.Holds j g p := fun j g =>
    holds_withDesc (hdesc.valid.trans hi.2.valid.symm) (hdesc.file.trans hi.2.file.symm)
      (hdesc.pageNo.trans hi.2.pageNo.symm)
  by_cases heq : (n, p) = (filename f, q)
  · obtain ⟨rfl, rfl⟩ := Prod.mk.inj heq
    have hkey := hk (filename f) p
    have hself : (mgr.withDesc i desc).bufDescTable i = desc := withDesc_self desc
    refine .of_frame ((hholds i f).mpr hi) rfl (fun j g hj hg => ?_) ?_ (hkey.live i f hi rfl) ?_ ?_
    · exact hkey.distinct j i g f ((hholds j g).mp hj) hi hg rfl
    · rw [hcontents]
      exact hkey.current i f hi rfl
    · rw [hself]
      exact hpinned
    · rw [hself, hcontents]
      intro hdirty hsaved
      obtain ⟨hdirty, hsaved⟩ := hclean hdirty hsaved
      exact hkey.clean i f hi rfl hdirty hsaved
  · refine (hk n p).congr (fun j g _ => hholds j g) (fun j g hg hj => ?_) rfl (by rw [hcontents]) (hunsaved _ heq)
    have hne : j ≠ i := by
      rintro rfl
      have hj := (hholds j g).mp hj
      refine heq ?_
      rw [← hg, Option.some.inj (hj.2.file.symm.trans hi.2.file), hj.2.pageNo.symm.trans hi.2.pageNo]
    exact ⟨by rw [withDesc_desc desc hne], by rw [withDesc_desc desc hne], rfl⟩

omit [DecidableEq F] [DecidableEq N] in
private theorem Kept.withFiles (hk : Kept filename body store mgr edits) {files : σ}
    (hstore : store files = store mgr.files) : Kept filename body store (mgr.withFiles files) edits := by
  intro n p
  exact (hk n p).congr (fun _ _ _ => Iff.rfl) (fun _ _ _ _ => ⟨rfl, rfl, rfl⟩) (congrFun hstore _) rfl rfl

/-- `readPage`, allowed. -/
private theorem Kept.readPage (hL : L.Faithful filename body store) (h : mgr.Agree hash)
    (hk : Kept filename body store mgr edits) {f : F} {p : PageId} (halone : Alone filename mgr f p)
    (hexists : edits.contents (filename f, p) ≠ none ∨ L.Refuses filename store f p) :
    ∀ r, ReadPage L hash f p mgr r → match r with
      | .ok i m => m.Agree hash ∧ Kept filename body store m edits ∧
        edits.contents (filename f, p) = some (body (m.bufPool i))
      | .error _ m => m.Agree hash ∧ Kept filename body store m edits := by
  intro r hr
  cases hr with
  | @hit i holds =>
    refine ⟨h.withDesc holds ⟨holds.2.valid, holds.2.file, holds.2.pageNo⟩, ?_, (hk _ p).current i f holds rfl⟩
    exact hk.redescribed holds ⟨holds.2.valid, holds.2.file, holds.2.pageNo⟩ (fun _ => Nat.succ_pos _)
      (fun hdirty hsaved => ⟨hdirty, hsaved⟩) rfl fun _ _ => rfl
  | exceeded absent t full => exact ⟨h.touched t, hk.touched t⟩
  | @failed i m e files absent freed run =>
    have hno : ∀ j g, m.Holds j g p → filename g ≠ filename f := by
      intro j g hj hg
      obtain rfl := halone j g (freed.holds_iff.mp hj).2 hg
      exact absent j (freed.holds_iff.mp hj).2
    have hkept := hk.freed hL freed
    have hstored := (hkept (filename f) p).stored hno
    cases hc : edits.contents (filename f, p) with
    | none =>
      obtain ⟨e', files', hread, hstore⟩ := (hexists.resolve_left (not_not_intro hc)) m.files (hstored.trans hc)
      rw [run] at hread
      obtain ⟨-, rfl⟩ := EStateM.Result.error.inj hread
      exact ⟨(freed.agree h).withFiles _, hkept.withFiles hstore⟩
    | some c =>
      -- the page is there, so its file gives it
      obtain ⟨page, files', hread, -⟩ := hL.readPage (hstored.trans hc)
      rw [run] at hread
      cases hread
  | @loaded i m page files table absent freed run loads =>
    have hno : ∀ j g, m.Holds j g p → filename g ≠ filename f := by
      intro j g hj hg
      obtain rfl := halone j g (freed.holds_iff.mp hj).2 hg
      exact absent j (freed.holds_iff.mp hj).2
    have hkept := hk.freed hL freed
    have hstored := (hkept (filename f) p).stored hno
    obtain ⟨c, hc⟩ : ∃ c, edits.contents (filename f, p) = some c := by
      refine Option.ne_none_iff_exists'.mp fun hnone => ?_
      obtain ⟨e, files', hread, -⟩ := (hexists.resolve_left (not_not_intro hnone)) m.files (hstored.trans hnone)
      rw [run] at hread
      cases hread
    obtain ⟨page', files', hread, hbody, hstore⟩ := hL.readPage (hstored.trans hc)
    rw [run] at hread
    obtain ⟨rfl, rfl⟩ := EStateM.Result.ok.inj hread
    have hpage : ((m.withFiles files).occupy i table f p page).bufPool i = page := Function.update_self ..
    have hcurrent : edits.contents (filename f, p) = some (body page) := by rw [hc, hbody]
    refine ⟨loads.agree (freed.agree h) _ _, ?_, by rw [hpage]; exact hcurrent⟩
    refine hkept.occupied loads hno hcurrent ?_ fun key _ => ⟨congrFun hstore key, rfl, rfl⟩
    rw [hstore]
    exact hstored

omit [DecidableEq F] in
/-- `disposePage` of a page that its file can delete. -/
private theorem Kept.disposed (hL : L.Faithful filename body store)
    (hk : Kept filename body store mgr edits) {i : FrameId} {f : F} {q : PageId} {table : BufHashTbl F} {files : σ}
    (holds : mgr.Holds i f q) (run : L.deletePage f q mgr.files = .ok () files)
    (hcontents : edits'.contents = Function.update edits.contents (filename f, q) none)
    (hunsaved : ∀ key, key ≠ (filename f, q) → edits'.unsaved key = edits.unsaved key) :
    Kept filename body store ((mgr.vacate i table).withFiles files) edits' := by
  have hstore := hL.deletePage run
  have hfiles : ((mgr.vacate i table).withFiles files).files = files := rfl
  have hholds : ∀ j g p, ((mgr.vacate i table).withFiles files).Holds j g p ↔ j ≠ i ∧ mgr.Holds j g p :=
    fun j g p => (holds_vacate : (mgr.vacate i table).Holds j g p ↔ j ≠ i ∧ mgr.Holds j g p)
  intro n p
  by_cases heq : (n, p) = (filename f, q)
  · obtain ⟨rfl, rfl⟩ := Prod.mk.inj heq
    refine .of_absent (fun j g hj hg => ?_) ?_
    · obtain ⟨hne, hj⟩ := (hholds j g p).mp hj
      exact hne ((hk _ p).distinct j i g f hj holds hg rfl)
    · rw [hfiles, hstore, hcontents, Function.update_self, Function.update_self]
  · refine (hk n p).congr (fun j g hg => ?_) (fun j g hg hj => ?_) ?_ ?_ (hunsaved _ heq)
    · refine (hholds j g p).trans (and_iff_right_of_imp ?_)
      rintro hj rfl
      refine heq ?_
      rw [← hg, Option.some.inj (hj.2.file.symm.trans holds.2.file), hj.2.pageNo.symm.trans holds.2.pageNo]
    · have hne := ((hholds j g p).mp hj).1
      have hdesc : ((mgr.vacate i table).withFiles files).bufDescTable j = mgr.bufDescTable j := vacate_desc table hne
      exact ⟨by rw [hdesc], by rw [hdesc], rfl⟩
    · rw [hfiles, hstore, Function.update_of_ne heq]
    · rw [hcontents, Function.update_of_ne heq]

omit [DecidableEq F] in
/-- A page is changed through a pointer that a client has a pin for. -/
private theorem Kept.edited (hk : Kept filename body store mgr edits) {i : FrameId} {f : F} {q : PageId}
    (holds : mgr.Holds i f q) (hpin : 0 < (mgr.bufDescTable i).pinCnt) (page : P) :
    Kept filename body store { mgr with bufPool := Function.update mgr.bufPool i page }
      { contents := Function.update edits.contents (filename f, q) (some (body page))
        unsaved := Function.update edits.unsaved (filename f, q) true } := by
  intro n p
  by_cases heq : (n, p) = (filename f, q)
  · obtain ⟨rfl, rfl⟩ := Prod.mk.inj heq
    have hkey := hk (filename f) p
    refine .of_frame holds rfl (fun j g hj hg => hkey.distinct j i g f hj holds hg rfl) ?_ (hkey.live i f holds rfl)
      (fun _ => hpin) fun _ hsaved => ?_
    · have hself : Function.update mgr.bufPool i page i = page := Function.update_self ..
      exact (Function.update_self ..).trans (congrArg (fun b => some (body b)) hself.symm)
    · have hunsaved : Function.update edits.unsaved (filename f, p) true (filename f, p) = true := Function.update_self ..
      exact absurd (hsaved.symm.trans hunsaved) Bool.false_ne_true
  · refine (hk n p).congr (fun _ _ _ => Iff.rfl) (fun j g hg hj => ⟨rfl, rfl, Function.update_of_ne ?_ ..⟩) rfl
      (Function.update_of_ne heq ..) (Function.update_of_ne heq ..)
    rintro rfl
    refine heq ?_
    rw [← hg, Option.some.inj (hj.2.file.symm.trans holds.2.file), hj.2.pageNo.symm.trans holds.2.pageNo]

/-- The pool agrees and is kept after the call. -/
private def KeptBy (L : FileLayer F P σ) (hash : F → PageId → Nat) (filename : F → N) (body : P → C)
    (store : σ → N × PageId → Option C) (mgr : BufMgr F P σ) (edits : Edits N C) (call : Call F P) : Prop :=
  (call.run L hash filename body mgr edits).1.Agree hash ∧
    Kept filename body store (call.run L hash filename body mgr edits).1 (call.run L hash filename body mgr edits).2

private theorem Kept.byAllocPage (hL : L.Faithful filename body store) (h : mgr.Agree hash)
    (hk : Kept filename body store mgr edits) (f : F) : KeptBy L hash filename body store mgr edits (.allocPage f) := by
  have hspec := allocPage_spec h (hk.writable hL) f
  rw [KeptBy, Call.run]
  cases hrun : P3.allocPage L hash f mgr with
  | error e m =>
    rw [hrun] at hspec
    cases hspec with
    | exceeded t full => exact ⟨h.touched t, hk.touched t⟩
    | failed freed run =>
      exact ⟨(freed.agree h).withFiles _, (hk.freed hL freed).withFiles (hL.allocateThrows run)⟩
    | present freed run holds =>
      -- the new page was not in the file, so no object has it in the pool
      exact absurd (hL.allocatePage run).1 ((hk.freed hL freed (filename f) _).live _ f holds rfl)
  | ok new m =>
    rw [hrun] at hspec
    cases hspec with
    | @allocated i m page files table freed run loads =>
      have hkept := hk.freed hL freed
      obtain ⟨hnew, hstore⟩ := hL.allocatePage run
      have hpage : ((m.withFiles files).occupy i table f page.1 page.2).bufPool i = page.2 := Function.update_self ..
      refine ⟨loads.agree (freed.agree h) _ _, ?_⟩
      dsimp only
      rw [hpage]
      refine hkept.occupied loads (fun j g hj hg => ?_) (Function.update_self ..) ?_ fun key hne => ?_
      · exact absurd (hg ▸ hnew) ((hkept (filename g) _).live j g hj rfl)
      · have hcontents : Function.update edits.contents (filename f, page.1) (some (body page.2)) (filename f, page.1) =
            some (body page.2) := Function.update_self ..
        exact (congrFun hstore _).trans ((Function.update_self ..).trans hcontents.symm)
      · exact ⟨(congrFun hstore key).trans (Function.update_of_ne hne ..), Function.update_of_ne hne ..,
          Function.update_of_ne hne ..⟩

private theorem Kept.byUnPinPage (h : mgr.Agree hash) (hk : Kept filename body store mgr edits) {f : F} {p : PageId}
    {dirty : Bool} (hpinned : dirty = false → edits.unsaved (filename f, p) = true →
      ∀ i, mgr.Holds i f p → 1 < (mgr.bufDescTable i).pinCnt) :
    KeptBy L hash filename body store mgr edits (.unPinPage f p dirty) := by
  have hspec := unPinPage_spec h f p dirty
  rw [KeptBy, Call.run]
  cases hrun : P3.unPinPage hash f p dirty mgr with
  | error e m =>
    rw [hrun] at hspec
    cases hspec with
    | absent absent => exact ⟨h, hk⟩
    | @notPinned i holds zero =>
      refine ⟨h.withDesc holds ⟨holds.2.valid, holds.2.file, holds.2.pageNo⟩, ?_⟩
      refine hk.redescribed holds ⟨holds.2.valid, holds.2.file, holds.2.pageNo⟩ (fun hunsaved => ?_)
        (fun hdirty hsaved => ?_) rfl fun _ _ => rfl
      · exact absurd zero (Nat.ne_of_gt ((hk _ p).pinned i f holds rfl hunsaved))
      · cases dirty with
        | true => exact absurd hdirty.symm Bool.false_ne_true
        | false => exact ⟨hdirty, hsaved⟩
  | ok _ m =>
    rw [hrun] at hspec
    cases hspec with
    | @unpinned i holds pins =>
      refine ⟨h.withDesc holds ⟨holds.2.valid, holds.2.file, holds.2.pageNo⟩, ?_⟩
      refine hk.redescribed holds ⟨holds.2.valid, holds.2.file, holds.2.pageNo⟩ (fun hunsaved => ?_)
        (fun hdirty hsaved => ?_) rfl fun key hne => ?_
      · cases dirty with
        | true =>
          have hsaved : Function.update edits.unsaved (filename f, p) false (filename f, p) = false :=
            Function.update_self ..
          exact absurd (hsaved.symm.trans hunsaved) Bool.false_ne_true
        | false => exact Nat.sub_pos_of_lt (hpinned rfl hunsaved i holds)
      · cases dirty with
        | true => exact absurd hdirty.symm Bool.false_ne_true
        | false => exact ⟨hdirty, hsaved⟩
      · cases dirty with
        | true => exact Function.update_of_ne hne ..
        | false => rfl

private theorem Kept.byFlushFile (hL : L.Faithful filename body store) (h : mgr.Agree hash)
    (hk : Kept filename body store mgr edits) (f : F) : KeptBy L hash filename body store mgr edits (.flushFile f) := by
  obtain ⟨m, -, h', hk', ⟨i, p, -, -, hrun⟩ | ⟨hrun, -⟩⟩ :=
    flushFile_cases (W := fun m => Kept filename body store m edits) (fun hm => hm.writable hL)
      (fun hm _ hdrop => hdrop.elim fun _ hdrop => hdrop.elim fun _ hdrop => hm.dropped hL hdrop) h hk f
  · rw [KeptBy, Call.run, hrun]
    exact ⟨h', hk'⟩
  · rw [KeptBy, Call.run, hrun]
    exact ⟨h', hk'⟩

private theorem Kept.byDisposePage (hL : L.Faithful filename body store) (h : mgr.Agree hash)
    (hk : Kept filename body store mgr edits) {f : F} {p : PageId}
    (hdeletes : ∀ i, mgr.Holds i f p → ∃ files, L.deletePage f p mgr.files = .ok () files) :
    KeptBy L hash filename body store mgr edits (.disposePage f p) := by
  have hspec := disposePage_spec (L := L) h f p
  rw [KeptBy, Call.run]
  cases hrun : P3.disposePage L hash f p mgr with
  | error e m =>
    rw [hrun] at hspec
    cases hspec with
    | absent absent => exact ⟨h, hk⟩
    | failed holds removed run =>
      obtain ⟨files, hdelete⟩ := hdeletes _ holds
      rw [run] at hdelete
      cases hdelete
  | ok _ m =>
    rw [hrun] at hspec
    cases hspec with
    | disposed holds removed run =>
      obtain ⟨table, hremove, hagree⟩ := h.vacate holds
      rw [Except.ok.inj (removed.symm.trans hremove)]
      exact ⟨hagree.withFiles _, hk.disposed hL holds run rfl fun key hne => Function.update_of_ne hne ..⟩

/-- One allowed call. -/
private theorem Kept.call (hL : L.Faithful filename body store) (h : mgr.Agree hash)
    (hk : Kept filename body store mgr edits) (call : Call F P) (hallowed : call.Allowed L filename store mgr edits) :
    KeptBy L hash filename body store mgr edits call := by
  cases call with
  | readPage f p =>
    have hread := hk.readPage hL h hallowed.2 hallowed.1 _ (readPage_spec h (hk.writable hL) f p)
    rw [KeptBy, Call.run]
    split at hread
    · exact ⟨hread.1, hread.2.1⟩
    · exact hread
  | allocPage f => exact hk.byAllocPage hL h f
  | unPinPage f p dirty => exact hk.byUnPinPage h hallowed.1
  | flushFile f => exact hk.byFlushFile hL h f
  | disposePage f p => exact hk.byDisposePage hL h hallowed.1
  | edit f p fid page => exact ⟨h.withPool _, hk.edited hallowed.1.1 hallowed.1.2 page⟩

/-- A pool without frames stays as it is. -/
theorem empty_call (hzero : mgr.numBufs = 0) (hnone : ∀ f p, mgr.hashTable.entry hash f p = none) (call : Call F P)
    (hedit : ∀ f p fid page, call = .edit f p fid page → mgr.Holds fid f p) :
    call.run L hash filename body mgr edits = (mgr, edits) := by
  have hlookup : ∀ f p, mgr.hashTable.lookup hash f p = .error (.hashNotFound f p) := by
    intro f p
    rw [BufHashTbl.lookup_eq, hnone]
  have halloc : allocBuf L hash mgr = .error .bufferExceeded mgr := by
    rw [allocBuf, run_bind_ok (run_get mgr), hzero]
    rfl
  cases call with
  | readPage f p =>
    have hrun : P3.readPage L hash f p mgr = .error .bufferExceeded mgr := by
      rw [P3.readPage, run_bind_ok (run_get mgr), hlookup]
      exact run_bind_error halloc
    rw [Call.run, hrun]
  | allocPage f =>
    have hrun : P3.allocPage L hash f mgr = .error .bufferExceeded mgr := run_bind_error halloc
    rw [Call.run, hrun]
  | unPinPage f p dirty =>
    have hrun : P3.unPinPage hash f p dirty mgr = .error (.hashNotFound f p) mgr := by
      rw [P3.unPinPage, run_bind_ok (run_get mgr), hlookup]
      rfl
    rw [Call.run, hrun]
  | flushFile f =>
    have hrun : P3.flushFile L hash f mgr = .ok () mgr := by
      rw [P3.flushFile, run_bind_ok (run_get mgr), hzero]
      rfl
    rw [Call.run, hrun]
  | disposePage f p =>
    have hrun : P3.disposePage L hash f p mgr = .error (.hashNotFound f p) mgr := by
      rw [P3.disposePage, run_bind_ok (run_get mgr), hlookup]
      rfl
    rw [Call.run, hrun]
  | edit f p fid page => exact absurd (hedit f p fid page rfl).1 (hzero ▸ Nat.not_lt_zero _)

/-- What holds in every state of a run: of a pool with frames, and of a pool without. -/
theorem Run.kept (hL : L.Faithful filename body store) {bufs : Nat} {page : P} {files : σ}
    (hrun : Run L hash filename body bufs page files (store files)
      (fun mgr edits call => call.Allowed L filename store mgr edits) mgr edits) :
    (mgr.Agree hash ∧ Kept filename body store mgr edits) ∨
      mgr.numBufs = 0 ∧ (∀ f p, mgr.hashTable.entry hash f p = none) ∧ store mgr.files = edits.contents := by
  induction hrun with
  | start =>
    by_cases hbufs : bufs = 0
    · exact .inr ⟨hbufs, fun f p => BufHashTbl.entry_new _, rfl⟩
    · have hagree : (newBufMgr bufs page files : BufMgr F P σ).Agree hash :=
        agree_newBufMgr (Nat.pos_of_ne_zero hbufs) page files
      exact .inl ⟨hagree, fun n p => .of_absent (fun i f hi => absurd hi not_holds_newBufMgr) rfl⟩
  | @call mgr edits call before meets ih =>
    rcases ih with ⟨h, hk⟩ | ⟨hzero, hnone, hstore⟩
    · exact .inl (hk.call hL h call meets)
    · have hedit : ∀ f p fid page, call = .edit f p fid page → mgr.Holds fid f p := by
        rintro f p fid page rfl
        exact meets.1.1
      rw [empty_call hzero hnone call hedit]
      exact .inr ⟨hzero, hnone, hstore⟩

/-- In every run of allowed calls the pool holds one copy of each page at most, and it is current. -/
theorem one_copy (hL : L.Faithful filename body store) {bufs : Nat} {page : P} {files : σ}
    (hrun : Run L hash filename body bufs page files (store files)
      (fun mgr edits call => call.Allowed L filename store mgr edits)
      mgr edits) : OneCopy L hash filename body store mgr edits := by
  rcases hrun.kept hL with ⟨h, hk⟩ | ⟨hzero, hnone, hstore⟩
  · constructor
    · exact fun i j f g p hi hj hfg => (hk (filename g) p).distinct i j f g hi hj hfg rfl
    · exact fun i f p hi => (hk (filename f) p).current i f hi rfl
    · exact fun n p hno => (hk n p).stored hno
    · intro f p i mgr' halone hread hexists
      have hspec := hk.readPage hL h halone (.inl hexists) _ (readPage_spec h (hk.writable hL) f p)
      rw [hread] at hspec
      exact hspec.2.2
  · have hno : ∀ i f p, ¬ mgr.Holds i f p := fun i f p hi => Nat.not_lt_zero i (hzero ▸ hi.1)
    refine ⟨fun i _ f _ p hi => absurd hi (hno i f p), fun i f p hi => absurd hi (hno i f p), fun n p _ => ?_, ?_⟩
    · exact congrFun hstore (n, p)
    · intro f p i mgr' _ hread _
      have hthrows : P3.readPage L hash f p mgr = .error .bufferExceeded mgr := by
        rw [P3.readPage, run_bind_ok (run_get mgr), BufHashTbl.lookup_eq, hnone]
        refine run_bind_error ?_
        rw [allocBuf, run_bind_ok (run_get mgr), hzero]
        rfl
      rw [hthrows] at hread
      cases hread

/-! ### Blob files -/

/-- The pages of blob files that can be read. -/
def blobPages {N P : Type} (files : N → BlobFile P) (key : N × PageId) : Option P :=
  if (files key.1).failed = false ∧ key.2 < (files key.1).num_pages then (files key.1).pages key.2 else none

omit [DecidableEq N] in
private theorem blobPages_some {files : N → BlobFile P} {key : N × PageId} {page : P}
    (h : blobPages files key = some page) :
    (files key.1).failed = false ∧ key.2 < (files key.1).num_pages ∧ (files key.1).pages key.2 = some page := by
  unfold blobPages at h
  split at h
  · next hlive => exact ⟨hlive.1, hlive.2, h⟩
  · cases h

/-- Only the file of the call changes. -/
private theorem blobPages_update {files : N → BlobFile P} {name : N} {file : BlobFile P} {p : PageId} {page : Option P}
    (hself : ∀ q, blobPages (fun _ => file) (name, q) = if q = p then page else blobPages files (name, q)) :
    blobPages (Function.update files name file) = Function.update (blobPages files) (name, p) page := by
  funext key
  by_cases hname : key.1 = name
  · have hkey : blobPages (Function.update files name file) key = blobPages (fun _ => file) (name, key.2) := by
      rw [blobPages, blobPages, hname, Function.update_self]
    obtain ⟨n, q⟩ := key
    obtain rfl : n = name := hname
    rw [hkey, hself]
    by_cases hq : q = p
    · subst hq
      rw [if_pos rfl, Function.update_self]
    · rw [if_neg hq, Function.update_of_ne (fun heq => hq (Prod.mk.inj heq).2)]
  · rw [Function.update_of_ne (fun heq => hname (congrArg Prod.fst heq)), blobPages, blobPages,
      Function.update_of_ne hname]

omit [DecidableEq F] in
theorem blobFiles_faithful (filename : F → N) (fresh : P) :
    (blobFiles filename fresh).Faithful filename id blobPages where
  readPage := by
    intro files f p page hsome
    obtain ⟨hfailed, -, hpage⟩ := blobPages_some hsome
    have hread : (files (filename f)).readPage fresh p = (page, files (filename f)) := by
      rw [BlobFile.readPage, hfailed, hpage]
      rfl
    have hfiles : Function.update files (filename f) (files (filename f)) = files := Function.update_eq_self ..
    refine ⟨page, files, ?_, rfl, rfl⟩
    simp only [blobFiles, hread, hfiles]
  writePage := by
    intro files f p page hlive
    obtain ⟨old, hsome⟩ := Option.ne_none_iff_exists'.mp hlive
    obtain ⟨hfailed, hlt, hpage⟩ := blobPages_some hsome
    refine ⟨_, rfl, blobPages_update fun q => ?_⟩
    dsimp only at hfailed hlt
    by_cases hq : q = p
    · subst hq
      simp [blobPages, BlobFile.writePage, hfailed, hlt]
    · simp [blobPages, BlobFile.writePage, hfailed, hq]
  allocatePage := by
    intro files files' f new hrun
    by_cases hfailed : (files (filename f)).failed = true
    · simp only [blobFiles, BlobFile.allocatePage, if_pos hfailed] at hrun
      cases hrun
    · simp only [blobFiles, BlobFile.allocatePage, if_neg hfailed] at hrun
      obtain ⟨rfl, rfl⟩ := EStateM.Result.ok.inj hrun
      refine ⟨by simp [blobPages], blobPages_update fun q => ?_⟩
      by_cases hq : q = (files (filename f)).num_pages
      · simp [blobPages, hq]
      · have hlt : q < (files (filename f)).num_pages + 1 ↔ q < (files (filename f)).num_pages := by
          constructor
          · exact fun hle => Nat.lt_of_le_of_ne (Nat.le_of_lt_succ hle) hq
          · exact Nat.lt_succ_of_lt
        simp [blobPages, hq, hlt, hfailed]
  allocateThrows := by
    intro files files' f e hrun
    simp only [blobFiles] at hrun
    split at hrun
    · cases hrun
    · obtain ⟨-, rfl⟩ := EStateM.Result.error.inj hrun
      rfl
  deletePage := by
    intro files files' f p hrun
    cases hrun

/-! ### Runs on fixed calls -/

section Fixed

variable {bufs : Nat} {page : P} {files : σ} {contents : N × PageId → Option C}
  {cond : BufMgr F P σ → Edits N C → Call F P → Prop}

/-- The state after the calls in order. -/
def runCalls (L : FileLayer F P σ) (hash : F → PageId → Nat) (filename : F → N) (body : P → C) (bufs : Nat) (page : P)
    (files : σ) (contents : N × PageId → Option C) (calls : List (Call F P)) : BufMgr F P σ × Edits N C :=
  calls.foldl (fun state call => call.run L hash filename body state.1 state.2)
    (newBufMgr bufs page files, ⟨contents, fun _ => false⟩)

/-- One more call in a run of `runCalls`. -/
theorem run_append {calls : List (Call F P)}
    (h : Run L hash filename body bufs page files contents cond
      (runCalls L hash filename body bufs page files contents calls).1
      (runCalls L hash filename body bufs page files contents calls).2) (call : Call F P)
    (hmeets : cond (runCalls L hash filename body bufs page files contents calls).1
      (runCalls L hash filename body bufs page files contents calls).2 call) :
    Run L hash filename body bufs page files contents cond
      (runCalls L hash filename body bufs page files contents (calls ++ [call])).1
      (runCalls L hash filename body bufs page files contents (calls ++ [call])).2 := by
  rw [runCalls, List.foldl_append]
  exact .call call h hmeets

end Fixed

/-- The name of the file of both objects. -/
def sameName (_ : Bool) : Unit := ()

/-- A pool of two frames over two objects on one empty blob file, after the calls. -/
def twoObjects (calls : List (Call Bool Nat)) : BufMgr Bool Nat (Unit → BlobFile Nat) × Edits Unit Nat :=
  runCalls (blobFiles sameName 0) (P3.hash Bool.toNat) sameName id 2 0 (fun _ => .create Nat)
    (blobPages fun _ => .create Nat) calls

theorem one_copy_turns : OneCopy (blobFiles sameName 0) (P3.hash Bool.toNat) sameName id blobPages
    (twoObjects [.allocPage false, .edit false 1 0 42, .unPinPage false 1 true, .flushFile false, .readPage true 1]).1
    (twoObjects [.allocPage false, .edit false 1 0 42, .unPinPage false 1 true, .flushFile false, .readPage true 1]).2 := by
  have h₀ : Run (blobFiles sameName 0) (P3.hash Bool.toNat) sameName id 2 0 (fun _ => .create Nat)
      (blobPages fun _ => .create Nat)
      (fun mgr edits call => call.Allowed (blobFiles sameName 0) sameName blobPages mgr edits)
      (twoObjects []).1 (twoObjects []).2 := .start
  have h₁ := run_append h₀ (.allocPage false) ⟨trivial, trivial⟩
  have h₂ := run_append h₁ (.edit false 1 0 42) ⟨⟨⟨by decide, by decide, by decide, by decide⟩, by decide⟩, trivial⟩
  have h₃ := run_append h₂ (.unPinPage false 1 true) ⟨fun hfalse => absurd hfalse.symm Bool.false_ne_true, trivial⟩
  have h₄ := run_append h₃ (.flushFile false) ⟨trivial, trivial⟩
  have hempty : ∀ i < 2, ((twoObjects [.allocPage false, .edit false 1 0 42, .unPinPage false 1 true,
    .flushFile false]).1.bufDescTable i).valid = false := by decide
  have h₅ := run_append h₄ (.readPage true 1)
    ⟨.inl (by decide), fun i g hi => absurd (hempty i hi.1) (ne_true_of_eq_false · hi.2.valid)⟩
  exact one_copy (blobFiles_faithful _ _) h₅

/-- A page that was changed through one object is read through the other one while it is in the pool. -/
theorem two_copies : ∃ mgr edits,
    Run (blobFiles sameName 0) (P3.hash Bool.toNat) sameName id 2 0 (fun _ => .create Nat)
      (blobPages fun _ => .create Nat)
      (fun mgr edits call => call.Disciplined (blobFiles sameName 0) sameName blobPages mgr edits) mgr edits ∧
    mgr.Holds 0 false 1 ∧ mgr.Holds 1 true 1 ∧ sameName false = sameName true ∧
    edits.contents (sameName true, 1) = some 42 ∧ mgr.bufPool 1 = 0 := by
  have h₀ : Run (blobFiles sameName 0) (P3.hash Bool.toNat) sameName id 2 0 (fun _ => .create Nat)
      (blobPages fun _ => .create Nat)
      (fun mgr edits call => call.Disciplined (blobFiles sameName 0) sameName blobPages mgr edits)
      (twoObjects []).1 (twoObjects []).2 := .start
  have h₁ := run_append h₀ (.allocPage false) trivial
  have h₂ := run_append h₁ (.edit false 1 0 42) ⟨⟨by decide, by decide, by decide, by decide⟩, by decide⟩
  have h₃ := run_append h₂ (.unPinPage false 1 true) fun hfalse => absurd hfalse.symm Bool.false_ne_true
  have h₄ := run_append h₃ (.readPage true 1) (.inl (by decide))
  refine ⟨_, _, h₄, ⟨?_, ?_, ?_, ?_⟩, ⟨?_, ?_, ?_, ?_⟩, rfl, ?_, ?_⟩ <;> decide

end Cs564.P3
