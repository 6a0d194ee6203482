import Cs564.BTree.PoolRuns
import Cs564.P3Buffer.PageFiles
import Cs564.PageFile.Absent

/-!
# Index files beside relations

In the program one pool has the pages of the index files, which are blob files, and of the relations, which are page files.
`beside` puts two kinds of files under one manager, and an index file of the first kind is one there as well
(`Hosts.beside`).  The pages of relations can be written as long as they are in use and have a number
(`accepts_relation_iff`, `harmless_relation`), and so another client may read them while the index works
(`Other.readRelation`).
-/

namespace Cs564.BTree

open P2 (BufMgr)
open P2.BufMgr
open P3 (FileLayer BlobFile)
open PageFile

/-! ### Two kinds of files -/

section Beside

variable {F G P σ τ α : Type}

/-- A call of a file of the first kind. -/
def onFirst (call : EStateM FileError σ α) : EStateM FileError (σ × τ) α := fun files =>
  match call files.1 with
  | .ok a files' => .ok a (files', files.2)
  | .error e files' => .error e (files', files.2)

/-- A call of a file of the second kind. -/
def onSecond (call : EStateM FileError τ α) : EStateM FileError (σ × τ) α := fun files =>
  match call files.2 with
  | .ok a files' => .ok a (files.1, files')
  | .error e files' => .error e (files.1, files')

/-- The files of two layers under one manager. -/
def beside (L : FileLayer F P σ) (L' : FileLayer G P τ) : FileLayer (F ⊕ G) P (σ × τ) where
  readPage
    | .inl f, p => onFirst (L.readPage f p)
    | .inr g, p => onSecond (L'.readPage g p)
  writePage
    | .inl f, p, page => onFirst (L.writePage f p page)
    | .inr g, p, page => onSecond (L'.writePage g p page)
  allocatePage
    | .inl f => onFirst (L.allocatePage f)
    | .inr g => onSecond (L'.allocatePage g)
  deletePage
    | .inl f, p => onFirst (L.deletePage f p)
    | .inr g, p => onSecond (L'.deletePage g p)

theorem onFirst_eq {call : EStateM FileError σ α} {files : σ × τ} {a : α} {files' : σ}
    (run : call files.1 = .ok a files') : onFirst call files = .ok a (files', files.2) := by
  rw [onFirst, run]

theorem onFirst_error {call : EStateM FileError σ α} {files : σ × τ} {e : FileError} {files' : σ}
    (run : call files.1 = .error e files') : onFirst call files = .error e (files', files.2) := by
  rw [onFirst, run]

theorem onSecond_eq {call : EStateM FileError τ α} {files : σ × τ} {a : α} {files' : τ}
    (run : call files.2 = .ok a files') : onSecond call files = .ok a (files.1, files') := by
  rw [onSecond, run]

theorem onSecond_error {call : EStateM FileError τ α} {files : σ × τ} {e : FileError} {files' : τ}
    (run : call files.2 = .error e files') : onSecond call files = .error e (files.1, files') := by
  rw [onSecond, run]

theorem stateAfter_onFirst (call : EStateM FileError σ α) (files : σ × τ) :
    stateAfter (onFirst call files) = (stateAfter (call files.1), files.2) := by
  rw [onFirst]
  cases call files.1 <;> rfl

theorem stateAfter_onSecond (call : EStateM FileError τ α) (files : σ × τ) :
    stateAfter (onSecond call files) = (files.1, stateAfter (call files.2)) := by
  rw [onSecond]
  cases call files.2 <;> rfl

end Beside

section Hosted

variable {F G σ τ : Type} {L : FileLayer F Page σ} {L' : FileLayer G Page τ} {files files' : σ × τ} {f : F} {g : G}
  {p : PageId}

theorem accepts_inl : Accepts (beside L L') files (.inl f) p ↔ Accepts L files.1 f p := by
  refine forall_congr' fun page => ?_
  show (∃ files', onFirst (L.writePage f p page) files = .ok () files') ↔ _
  rw [onFirst]
  cases L.writePage f p page files.1 <;> simp

theorem accepts_inr : Accepts (beside L L') files (.inr g) p ↔ Accepts L' files.2 g p := by
  refine forall_congr' fun page => ?_
  show (∃ files', onSecond (L'.writePage g p page) files = .ok () files') ↔ _
  rw [onSecond]
  cases L'.writePage g p page files.2 <;> simp

theorem harmless_inr {page : Page} (h : Harmless L' g p page) : Harmless (beside L L') (.inr g) p page := by
  intro files files' hrun k q haccepts
  change onSecond (L'.writePage g p page) files = .ok () files' at hrun
  rw [onSecond] at hrun
  cases hwrite : L'.writePage g p page files.2 with
  | error e files₂ =>
    rw [hwrite] at hrun
    cases hrun
  | ok u files₂ =>
    rw [hwrite] at hrun
    obtain ⟨-, rfl⟩ := EStateM.Result.ok.inj hrun
    cases k with
    | inl k =>
      rw [accepts_inl] at haccepts ⊢
      exact haccepts
    | inr k => exact accepts_inr.mpr (h hwrite (accepts_inr.mp haccepts))

theorem Leads.inl (h : Leads (beside L L') (.inl f) files files') : Leads L f files.1 files'.1 ∧ files'.2 = files.2 := by
  have hstate : ∀ {α : Type} (call : EStateM FileError σ α), Leads L f files.1 (stateAfter (call files.1)) →
      Leads L f files.1 (stateAfter (onFirst call files)).1 ∧ (stateAfter (onFirst call files)).2 = files.2 := by
    intro α call hcall
    rw [stateAfter_onFirst]
    exact ⟨hcall, rfl⟩
  cases h with
  | readPage p => exact hstate _ (.readPage p)
  | writePage p page => exact hstate _ (.writePage p page)
  | allocatePage => exact hstate _ .allocatePage

theorem Leads.inr (h : Leads (beside L L') (.inr g) files files') : files'.1 = files.1 := by
  have hstate : ∀ {α : Type} (call : EStateM FileError τ α), (stateAfter (onSecond call files)).1 = files.1 := by
    intro α call
    rw [stateAfter_onSecond]
  cases h with
  | readPage p => exact hstate _
  | writePage p page => exact hstate _
  | allocatePage => exact hstate _

/-- Beside files of any other kind. -/
theorem Hosts.beside {on : F → Prop} {blob : σ → BlobFile Page} (hL : Hosts L on blob) (L' : FileLayer G Page τ) :
    Hosts (BTree.beside L L') (Sum.elim on fun _ => False) fun files => blob files.1 where
  readPage {f} hf files p := by
    cases f with
    | inl f =>
      obtain ⟨files', hrun, hblob⟩ := hL.readPage hf files.1 p
      exact ⟨_, onFirst_eq hrun, hblob⟩
    | inr g => exact hf.elim
  writePage {f} hf files p page := by
    cases f with
    | inl f =>
      obtain ⟨files', hrun, hblob⟩ := hL.writePage hf files.1 p page
      exact ⟨_, onFirst_eq hrun, hblob⟩
    | inr g => exact hf.elim
  allocatePage {f} hf files new hnew := by
    cases f with
    | inl f =>
      obtain ⟨files', hrun, hblob⟩ := hL.allocatePage hf hnew
      exact ⟨_, onFirst_eq hrun, hblob⟩
    | inr g => exact hf.elim
  allocateThrows {f} hf files e he := by
    cases f with
    | inl f =>
      obtain ⟨files', hrun, hblob⟩ := hL.allocateThrows hf he
      exact ⟨_, onFirst_error hrun, hblob⟩
    | inr g => exact hf.elim
  accepts {f} hf g p files files' hleads haccepts := by
    cases f with
    | inl f =>
      obtain ⟨hfirst, hsecond⟩ := hleads.inl
      cases g with
      | inl g => exact accepts_inl.mpr (hL.accepts hf hfirst (accepts_inl.mp haccepts))
      | inr g =>
        rw [accepts_inr] at haccepts ⊢
        rw [hsecond]
        exact haccepts
    | inr g => exact hf.elim
  elsewhere {g} hg files files' hleads := by
    cases g with
    | inl g => exact hL.elsewhere hg hleads.inl.1
    | inr g => exact congrArg blob hleads.inr
  deleted {g} hg files p := by
    cases g with
    | inl g =>
      have hstate : stateAfter ((BTree.beside L L').deletePage (.inl g) p files) = _ := stateAfter_onFirst ..
      rw [hstate]
      exact hL.deleted hg files.1 p
    | inr g =>
      have hstate : stateAfter ((BTree.beside L L').deletePage (.inr g) p files) = _ := stateAfter_onSecond ..
      rw [hstate]

end Hosted

/-! ### Relations -/

section Relations

variable {F G M N : Type} [DecidableEq M] [DecidableEq N] {name : F → M} {index : M} {filename : G → N}
  {view : Cs564.Page → Page} {bytes : Page → Cs564.Page} {g : G} {p : PageId}

/-- Page files under the pool of an index, in which all pages are typed as nodes: `view` shows the bytes of a page as such
a one, and `bytes` is the way back. -/
def relations (view : Cs564.Page → Page) (bytes : Page → Cs564.Page) (filename : G → N) :
    FileLayer G Page (N → PageFile) where
  readPage g p := do
    let page ← (P3.pageFiles filename).readPage g p
    return view page
  writePage g p page := (P3.pageFiles filename).writePage g p (bytes page)
  allocatePage g := do
    let new ← (P3.pageFiles filename).allocatePage g
    return (new.1, view new.2)
  deletePage g p := (P3.pageFiles filename).deletePage g p

/-- Index files and relations. -/
abbrev indexesAndRelations (view : Cs564.Page → Page) (bytes : Page → Cs564.Page) (name : F → M) (filename : G → N) :
    FileLayer (F ⊕ G) Page ((M → BlobFile Page) × (N → PageFile)) :=
  beside (P3.blobFiles name .fresh) (relations view bytes filename)

/-- The objects of an index file among them. -/
abbrev OfIndex (name : F → M) (index : M) : F ⊕ G → Prop := Sum.elim (fun f => name f = index) fun _ => False

theorem hosts_relations : Hosts (indexesAndRelations view bytes name filename) (OfIndex name index)
    fun files => files.1 index := (blobFiles_hosts name index).beside _

/-- A page in use of a file whose stream works. -/
def Usable (file : PageFile) (p : PageId) : Prop := file.failed = false ∧ contentsOn file.pages p ≠ none

/-- Such a page is written, whatever its content is to be. -/
private theorem Usable.writePage {file : PageFile} (h : Usable file p) (page : Cs564.Page) :
    ∃ link, writePage p page file = .ok () { file with
      pages := Function.update file.pages p (some (page.stored { page.header with next_page_number := link })) } := by
  obtain ⟨halive, hused⟩ := h
  obtain ⟨old, hp, hmarked⟩ := contentsOn_ne_none_iff.mp hused
  have hne : ¬ old.header.current_page_number = INVALID_NUMBER := hmarked
  refine ⟨old.next_page_number, ?_⟩
  rw [PageFile.writePage, run_bind_ok (readPageHeader_eq halive hp), if_neg hne, writePageWith_eq halive]
  rfl

/-- A page that is written was in use. -/
private theorem usable_of_writePage {file file' : PageFile} {page : Cs564.Page} (run : writePage p page file = .ok () file') :
    Usable file p := by
  cases hp : file.pages p with
  | none => simp [writePage, readPageHeader, run_bind, run_get, hp] at run
  | some old =>
    cases halive : file.failed with
    | true => simp [writePage, readPageHeader, run_bind, run_get, hp, halive] at run
    | false =>
      refine ⟨halive, contentsOn_ne_none_iff.mpr ⟨old, hp, fun hfree => ?_⟩⟩
      have hzero : old.header.current_page_number = INVALID_NUMBER := hfree
      rw [writePage, run_bind_ok (readPageHeader_eq halive hp), if_pos hzero] at run
      cases run

theorem accepts_relation_iff {files : N → PageFile} :
    Accepts (relations view bytes filename) files g p ↔ Usable (files (filename g)) p := by
  constructor
  · intro h
    obtain ⟨files', hrun⟩ := h .fresh
    obtain ⟨file, hwrite, -⟩ := P2.onFile_ok hrun
    exact usable_of_writePage hwrite
  · intro h page
    obtain ⟨link, hwrite⟩ := h.writePage (bytes page)
    exact ⟨_, P3.onFile_eq hwrite⟩

/-- A page with a number stays in use when it is written, and so do the others. -/
theorem harmless_relation {page : Page} (hnum : (bytes page).page_number ≠ INVALID_NUMBER) :
    Harmless (relations view bytes filename) g p page := by
  intro files files' hrun k q haccepts
  rw [accepts_relation_iff] at haccepts ⊢
  obtain ⟨file, hwrite, rfl⟩ := P2.onFile_ok hrun
  by_cases hk : filename k = filename g
  · rw [hk] at haccepts ⊢
    rw [Function.update_self]
    obtain ⟨link, hwrite'⟩ := (usable_of_writePage hwrite).writePage (bytes page)
    rw [hwrite] at hwrite'
    obtain ⟨-, rfl⟩ := EStateM.Result.ok.inj hwrite'
    refine ⟨haccepts.1, ?_⟩
    have hmarked : ((bytes page).stored { (bytes page).header with next_page_number := link }).page_number ≠ INVALID_NUMBER :=
      hnum
    rw [contentsOn_update_used hmarked]
    by_cases hq : q = p
    · rw [hq, Function.update_self]
      exact Option.some_ne_none _
    · rw [Function.update_of_ne hq]
      exact haccepts.2
  · rw [Function.update_of_ne hk]
    exact haccepts

variable (name) in
/-- A page in use is read without a change of the files; it may lie behind the number of pages in the header. -/
private theorem readPage_relation {files : (M → BlobFile Page) × (N → PageFile)} (hbytes : ∀ page, bytes (view page) = page)
    (hp : Usable (files.2 (filename g)) p) :
    (∃ page, (indexesAndRelations view bytes name filename).readPage (.inr g) p files = .ok page files ∧
        (bytes page).page_number ≠ INVALID_NUMBER) ∨
      ∃ e, (indexesAndRelations view bytes name filename).readPage (.inr g) p files = .error e files := by
  obtain ⟨halive, hused⟩ := hp
  obtain ⟨page, hpage, hmarked⟩ := contentsOn_ne_none_iff.mp hused
  by_cases hlt : p < (files.2 (filename g)).header.num_pages
  · have hread := readPage_eq halive hlt hpage (page.isUsed_eq_true_iff.mpr hmarked)
    have hcall : (P3.pageFiles filename).readPage g p files.2 = _ := P3.onFile_eq hread
    rw [Function.update_eq_self] at hcall
    have hshown : (relations view bytes filename).readPage g p files.2 = .ok (view page) files.2 := run_bind_ok hcall
    exact .inl ⟨view page, onSecond_eq hshown, by rwa [hbytes]⟩
  · have hread := readPage_behind halive (Nat.le_of_not_lt hlt)
    have hcall : (P3.pageFiles filename).readPage g p files.2 = .error (.invalidPage p) files.2 := by
      show P2.onFile (filename g) (readPage p) files.2 = _
      rw [P2.onFile, hread]
      exact congrArg _ (Function.update_eq_self ..)
    have hshown : (relations view bytes filename).readPage g p files.2 = .error (.invalidPage p) files.2 := run_bind_error hcall
    exact .inr ⟨.invalidPage p, onSecond_error hshown⟩

variable [DecidableEq F] [DecidableEq G] {hash : F ⊕ G → PageId → Nat}
  {mgr : BufMgr (F ⊕ G) Page ((M → BlobFile Page) × (N → PageFile))}

/-- Another client reads a page in use of a relation, whatever has to leave the pool for it. -/
theorem Other.readRelation (hbytes : ∀ page, bytes (view page) = page) (hagree : mgr.Agree hash)
    (h : Storable (indexesAndRelations view bytes name filename) (OfIndex name index) mgr)
    (hp : Usable (mgr.files.2 (filename g)) p) :
    Other (indexesAndRelations view bytes name filename) hash (OfIndex name index) mgr
      (stateAfter (P3.readPage (indexesAndRelations view bytes name filename) hash (.inr g) p mgr)) := by
  refine .readPage id p ?_
  have hspec := P3.readPage_spec hagree (fun i g p hi => h.accepts i g p hi _) (.inr g) p
  have haccepts : Accepts (indexesAndRelations view bytes name filename) mgr.files (.inr g) p :=
    accepts_inr.mpr (accepts_relation_iff.mpr hp)
  generalize P3.readPage (indexesAndRelations view bytes name filename) hash (.inr g) p mgr = r at hspec ⊢
  cases hspec with
  | @hit i holds =>
    have hholds : ∀ j k q, (mgr.withDesc i (mgr.bufDescTable i).pinned).Holds j k q ↔ mgr.Holds j k q := fun j k q =>
      holds_withDesc rfl rfl rfl
    exact h.sub id fun j k q hj => ⟨(hholds j k q).mp hj, fun _ => rfl⟩
  | @exceeded m absent t =>
    refine h.sub (fun haccepts => ?_) fun j k q hj => ⟨t.holds_iff.mp hj, fun _ => by rw [stateAfter, t.bufPool]⟩
    rw [stateAfter, t.files]
    exact haccepts
  | @failed i m e files absent freed run =>
    have hm := h.freed hosts_relations freed
    have hp' := accepts_relation_iff.mp (accepts_inr.mp (h.freed_accepts hosts_relations freed haccepts))
    rcases readPage_relation name hbytes hp' with ⟨page, hreads, -⟩ | ⟨e', hthrows⟩
    · rw [run] at hreads
      cases hreads
    · rw [run] at hthrows
      obtain ⟨-, rfl⟩ := EStateM.Result.error.inj hthrows
      exact hm
  | @loaded i m page files table absent freed run loads =>
    have hm := h.freed hosts_relations freed
    have hnow := h.freed_accepts hosts_relations freed haccepts
    have hp' := accepts_relation_iff.mp (accepts_inr.mp hnow)
    rcases readPage_relation name hbytes hp' with ⟨page', hreads, hnum⟩ | ⟨e', hthrows⟩
    · rw [run] at hreads
      obtain ⟨rfl, rfl⟩ := EStateM.Result.ok.inj hreads
      exact hm.loaded freed.lt id hnow fun _ => harmless_inr (harmless_relation hnum)
    · rw [run] at hthrows
      cases hthrows

end Relations

end Cs564.BTree
