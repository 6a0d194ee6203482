import Cs564.P2Buffer.Pins
import Cs564.PageFile.Reach

/-!
# The manager over page files

What the calls of the manager do to the page files under it.  While a file is usable, each of its pages in the pool is
a page in use and under its number (`Backed`); this holds in every run in which the clients do not change the number of
a page object.
-/

namespace Cs564.P2

open PageFile BufMgr

variable {F : Type} [DecidableEq F]

/-! ### Calls of the files -/

section Files

variable {files files' : F → PageFile} {f g : F} {α : Type} {code : FileM α}

theorem onFile_ok {a : α} (h : onFile f code files = .ok a files') :
    ∃ file, code (files f) = .ok a file ∧ files' = Function.update files f file := by
  unfold onFile at h
  cases hrun : code (files f) with
  | ok b file =>
    rw [hrun] at h
    obtain ⟨rfl, rfl⟩ := EStateM.Result.ok.inj h
    exact ⟨file, rfl, rfl⟩
  | error e file =>
    rw [hrun] at h
    cases h

theorem onFile_error {e : FileError} (h : onFile f code files = .error e files') :
    ∃ file, code (files f) = .error e file ∧ files' = Function.update files f file := by
  unfold onFile at h
  cases hrun : code (files f) with
  | ok b file =>
    rw [hrun] at h
    cases h
  | error e file =>
    rw [hrun] at h
    obtain ⟨rfl, rfl⟩ := EStateM.Result.error.inj h
    exact ⟨file, rfl, rfl⟩

/-- One file may have moved on by a call. -/
def Moves (files files' : F → PageFile) : Prop :=
  files' = files ∨ ∃ f file, Next (files f) file ∧ files' = Function.update files f file

/-- A file that is not called is the same; what a call leaves comes next. -/
theorem Moves.at_file (h : Moves files files') (g : F) : files' g = files g ∨ Next (files g) (files' g) := by
  rcases h with rfl | ⟨f, file, hnext, rfl⟩
  · exact .inl rfl
  · by_cases hg : g = f
    · subst hg
      rw [Function.update_self]
      exact .inr hnext
    · exact .inl (Function.update_of_ne hg ..)

theorem Moves.usable (h : Moves files files') (hu : (files' g).Usable) : (files g).Usable := by
  rcases h.at_file g with hsame | hnext
  · exact hsame ▸ hu
  · exact hnext.usable hu

/-- `allocatePage` of the layer. -/
private theorem allocatePage_layer (file : PageFile) :
    (do let allocated ← PageFile.allocatePage
        return allocated.1 : FileM Page) file =
      match PageFile.allocatePage file with
      | .ok allocated file' => .ok allocated.1 file'
      | .error e file' => .error e file' := by
  rw [run_bind]
  cases PageFile.allocatePage file <;> rfl

theorem readPage_ok {p : PageId} {page : Page} (h : (pageFiles F).readPage f p files = .ok page files') :
    ∃ file, PageFile.readPage p (files f) = .ok page file ∧ files' = Function.update files f file := onFile_ok h

theorem writePage_ok {page : Page} (h : (pageFiles F).writePage f page files = .ok () files') :
    ∃ file, PageFile.writePage page.page_number page (files f) = .ok () file ∧ files' = Function.update files f file :=
  onFile_ok h

theorem deletePage_ok {p : PageId} (h : (pageFiles F).deletePage f p files = .ok () files') :
    ∃ file, PageFile.deletePage p (files f) = .ok () file ∧ files' = Function.update files f file := onFile_ok h

theorem allocatePage_ok {page : Page} (h : (pageFiles F).allocatePage f files = .ok page files') :
    ∃ n file, PageFile.allocatePage (files f) = .ok (page, n) file ∧ files' = Function.update files f file := by
  obtain ⟨file, hrun, hfiles⟩ := onFile_ok h
  rw [allocatePage_layer] at hrun
  cases halloc : PageFile.allocatePage (files f) with
  | ok allocated file' =>
    rw [halloc] at hrun
    obtain ⟨rfl, rfl⟩ := EStateM.Result.ok.inj hrun
    exact ⟨allocated.2, file', rfl, hfiles⟩
  | error e file' =>
    rw [halloc] at hrun
    cases hrun

/-- A call of a file, whether it returns or throws. -/
private theorem moves_onFile (h : Next (files f) (stateAfter (code (files f)))) :
    Moves files (stateAfter (onFile f code files)) := by
  unfold onFile
  cases hrun : code (files f) with
  | ok a file =>
    rw [hrun] at h
    exact .inr ⟨f, file, h, rfl⟩
  | error e file =>
    rw [hrun] at h
    exact .inr ⟨f, file, h, rfl⟩

theorem moves_readPage (f : F) (p : PageId) (files : F → PageFile) :
    Moves files (stateAfter ((pageFiles F).readPage f p files)) := moves_onFile (.readPage p)

theorem moves_writePage (f : F) (page : Page) (files : F → PageFile) :
    Moves files (stateAfter ((pageFiles F).writePage f page files)) := moves_onFile (.writePage page)

theorem moves_deletePage (f : F) (p : PageId) (files : F → PageFile) :
    Moves files (stateAfter ((pageFiles F).deletePage f p files)) := moves_onFile (.deletePage p)

theorem moves_allocatePage (f : F) (files : F → PageFile) :
    Moves files (stateAfter ((pageFiles F).allocatePage f files)) := by
  refine moves_onFile ?_
  have hnext : Next (files f) (stateAfter (PageFile.allocatePage (files f))) := .allocatePage
  rw [allocatePage_layer]
  cases hrun : PageFile.allocatePage (files f) with
  | ok allocated file =>
    rw [hrun] at hnext
    exact hnext
  | error e file =>
    rw [hrun] at hnext
    exact hnext

/-- A call that throws. -/
theorem moves_fails (h : (pageFiles F).Fails files files') : Moves files files' := by
  cases h with
  | readPage f p e hrun =>
    have hmoves := moves_readPage f p files
    rwa [hrun] at hmoves
  | writePage f page e hrun =>
    have hmoves := moves_writePage f page files
    rwa [hrun] at hmoves
  | allocatePage f e hrun =>
    have hmoves := moves_allocatePage f files
    rwa [hrun] at hmoves
  | deletePage f p e hrun =>
    have hmoves := moves_deletePage f p files
    rwa [hrun] at hmoves

/-- A call that throws leaves a sound file as it is, or it is not usable any more. -/
theorem fails_same (h : (pageFiles F).Fails files files') {free : List PageId} (hsound : (files g).Sound free)
    (hu : (files' g).Usable) : files' g = files g := by
  have hbroken : ∀ file : PageFile, ¬ Usable { file with failed := true } :=
    fun file husable => Bool.false_ne_true husable.alive.symm
  have hcase : ∀ (f : F) (file : PageFile), files' = Function.update files f file →
      (∀ left, (files f).Sound left → file.Usable → file = files f) → files' g = files g := by
    rintro f file rfl hsame
    by_cases hg : g = f
    · subst hg
      rw [Function.update_self] at hu ⊢
      exact hsame free hsound hu
    · exact Function.update_of_ne hg ..
  cases h with
  | readPage f p e hrun =>
    obtain ⟨file, hthrow, hfiles⟩ := onFile_error hrun
    refine hcase f file hfiles fun left hleft husable => ?_
    by_cases hzero : p = INVALID_NUMBER
    · rw [hzero, hleft.readPage_zero] at hthrow
      obtain ⟨-, rfl⟩ := EStateM.Result.error.inj hthrow
      exact absurd husable (hbroken _)
    · by_cases hused : contentsOn (files f).pages p ≠ none
      · obtain ⟨page, hp, hmarked⟩ := contentsOn_ne_none_iff.mp hused
        rw [hleft.readPage_used hp hmarked] at hthrow
        cases hthrow
      · rw [hleft.readPage_none hzero (not_not.mp hused)] at hthrow
        exact (EStateM.Result.error.inj hthrow).2.symm
  | writePage f page e hrun =>
    obtain ⟨file, hthrow, hfiles⟩ := onFile_error hrun
    refine hcase f file hfiles fun left hleft husable => ?_
    cases hp : (files f).pages page.page_number with
    | none =>
      rw [Sound.writePage_absent hp] at hthrow
      obtain ⟨-, rfl⟩ := EStateM.Result.error.inj hthrow
      exact absurd husable (hbroken _)
    | some old =>
      by_cases hfree : old.page_number = INVALID_NUMBER
      · rw [hleft.writePage_free hp hfree] at hthrow
        exact (EStateM.Result.error.inj hthrow).2.symm
      · rw [hleft.writePage_used hp hfree] at hthrow
        cases hthrow
  | allocatePage f e hrun =>
    obtain ⟨file, hthrow, hfiles⟩ := onFile_error hrun
    refine hcase f file hfiles fun left hleft _ => ?_
    rw [allocatePage_layer] at hthrow
    rcases hleft.allocatePage_cases with ⟨page, file₁, halloc, -⟩ | ⟨e', halloc⟩
    · rw [halloc] at hthrow
      cases hthrow
    · rw [halloc] at hthrow
      exact (EStateM.Result.error.inj hthrow).2.symm
  | deletePage f p e hrun =>
    obtain ⟨file, hthrow, hfiles⟩ := onFile_error hrun
    refine hcase f file hfiles fun left hleft husable => ?_
    by_cases hzero : p = INVALID_NUMBER
    · rw [hzero, hleft.deletePage_zero] at hthrow
      obtain ⟨-, rfl⟩ := EStateM.Result.error.inj hthrow
      exact absurd husable (hbroken _)
    · rcases hleft.deletePage_cases hzero with ⟨file₁, hdelete, -⟩ | ⟨e', hdelete⟩
      · rw [hdelete] at hthrow
        cases hthrow
      · rw [hdelete] at hthrow
        exact (EStateM.Result.error.inj hthrow).2.symm

end Files

/-! ### Runs -/

/-- The states that calls lead to from `start`, each call meeting `cond` of the state before it. -/
inductive MgrRun {P σ : Type} (L : FileLayer F P σ) (hash : F → PageId → Nat) (start : BufMgr F P σ)
    (contents : F × PageId → Option P) (cond : BufMgr F P σ → Clients F P → BufCall F P → Prop) :
    BufMgr F P σ → Clients F P → Prop where
  | start : MgrRun L hash start contents cond start (.new contents)
  | call {mgr : BufMgr F P σ} {clients : Clients F P} (call : BufCall F P)
      (before : MgrRun L hash start contents cond mgr clients) (meets : cond mgr clients call) :
      MgrRun L hash start contents cond (call.run L hash mgr clients).1 (call.run L hash mgr clients).2

theorem MgrRun.bufRun {P σ : Type} {L : FileLayer F P σ} {hash : F → PageId → Nat} {start mgr : BufMgr F P σ}
    {contents : F × PageId → Option P} {cond : BufMgr F P σ → Clients F P → BufCall F P → Prop} {clients : Clients F P}
    (hrun : MgrRun L hash start contents cond mgr clients) :
    BufRun L hash start contents (fun _ _ => True) mgr clients := by
  induction hrun with
  | start => exact .start
  | call call _ _ ih => exact .call call ih trivial

/-- A change of a page object does not change its number, which clients cannot set. -/
def BufCall.KeepsNumber {P σ : Type} (L : FileLayer F P σ) (mgr : BufMgr F P σ) (clients : Clients F P) :
    BufCall F P → Prop
  | edit f p page => L.page_number page = L.page_number (mgr.bufPool (clients.pointer (f, p)))
  | readPage _ _ => True
  | allocPage _ => True
  | unPinPage _ _ _ => True
  | flushFile _ => True
  | disposePage _ _ => True

/-- The pages of the file in the pool are pages in use, under their numbers. -/
structure Backed (mgr : BufMgr F Page (F → PageFile)) (f : F) : Prop where
  sound : ∃ free, (mgr.files f).Sound free
  number : ∀ i p, mgr.Holds i f p → (mgr.bufPool i).page_number = p
  live : ∀ i p, mgr.Holds i f p → contentsOn (mgr.files f).pages p ≠ none

variable {hash : F → PageId → Nat} {mgr mgr' : BufMgr F Page (F → PageFile)} {clients clients' : Clients F Page} {f g : F}

omit [DecidableEq F] in
/-- What a step has to say of the file: each frame has its page from before, which is still in use, or a page that is. -/
theorem Backed.step (h : Backed mgr f) (hsound : ∃ free, (mgr'.files f).Sound free)
    (hframes : ∀ i p, mgr'.Holds i f p →
      (mgr.Holds i f p ∧ (mgr'.bufPool i).page_number = (mgr.bufPool i).page_number ∧
        (contentsOn (mgr.files f).pages p ≠ none → contentsOn (mgr'.files f).pages p ≠ none)) ∨
      ((mgr'.bufPool i).page_number = p ∧ contentsOn (mgr'.files f).pages p ≠ none)) : Backed mgr' f where
  sound := hsound
  number i p hi := by
    rcases hframes i p hi with ⟨hold, hnum, -⟩ | ⟨hnum, -⟩
    · rw [hnum]
      exact h.number i p hold
    · exact hnum
  live i p hi := by
    rcases hframes i p hi with ⟨hold, -, hlive⟩ | ⟨-, hlive⟩
    · exact hlive (h.live i p hold)
    · exact hlive

omit [DecidableEq F] in
/-- The same file, and no page that was not there before. -/
theorem Backed.congr (h : Backed mgr f) (hfile : mgr'.files f = mgr.files f)
    (hframes : ∀ i p, mgr'.Holds i f p → mgr.Holds i f p ∧ (mgr'.bufPool i).page_number = (mgr.bufPool i).page_number) :
    Backed mgr' f := by
  refine h.step (hfile ▸ h.sound) fun i p hi => .inl ?_
  obtain ⟨hold, hnum⟩ := hframes i p hi
  exact ⟨hold, hnum, fun hlive => hfile ▸ hlive⟩

/-- A page of the pool is written: the file has its contents, and no other page is changed. -/
theorem Backed.write (h : Backed mgr f) {i : FrameId} {p : PageId} (hi : mgr.Holds i f p) :
    ∃ file free, (pageFiles F).writePage f (mgr.bufPool i) mgr.files = .ok () (Function.update mgr.files f file) ∧
      file.Sound free ∧
        contentsOn file.pages = Function.update (contentsOn (mgr.files f).pages) p (some (mgr.bufPool i).unlinked) := by
  obtain ⟨free, hsound⟩ := h.sound
  have hnum := h.number i p hi
  obtain ⟨file, hrun, hsound', hcontents⟩ := hsound.writePage_contents (h.live i p hi) hnum
  refine ⟨file, free, ?_, hsound', hcontents⟩
  change onFile f (PageFile.writePage (mgr.bufPool i).page_number (mgr.bufPool i)) mgr.files = _
  rw [onFile, hnum, hrun]

/-- The page of a frame is in the file after the frame has been given up. -/
theorem Backed.written (h : Backed mgr f) {i : FrameId} {p : PageId} (hi : mgr.Holds i f p) {files : F → PageFile}
    (hwritten : mgr.Written (pageFiles F) i f files) :
    (∃ free, (files f).Sound free) ∧ (∀ g, g ≠ f → files g = mgr.files g) ∧
      ((mgr.bufDescTable i).dirty = true → contentsOn (files f).pages p = some (mgr.bufPool i).unlinked) ∧
      contentsOn (files f).pages p ≠ none ∧
      ∀ q, q ≠ p → contentsOn (files f).pages q = contentsOn (mgr.files f).pages q := by
  unfold Written at hwritten
  split at hwritten
  · obtain ⟨file, free, hrun, hsound, hcontents⟩ := h.write hi
    rw [hrun] at hwritten
    obtain ⟨-, rfl⟩ := EStateM.Result.ok.inj hwritten
    rw [Function.update_self, hcontents]
    refine ⟨⟨free, hsound⟩, fun g hg => Function.update_of_ne hg .., fun _ => Function.update_self .., ?_, fun q hq =>
      Function.update_of_ne hq ..⟩
    rw [Function.update_self]
    exact Option.some_ne_none _
  · rename_i hclean
    subst hwritten
    exact ⟨h.sound, fun _ _ => rfl, fun hdirty => absurd hdirty hclean, h.live i p hi, fun _ _ => rfl⟩

/-! ### Steps -/

/-- A quiet step moves at most one file on. -/
theorem quiet_moves (hq : Quiet (pageFiles F) hash mgr mgr') : Moves mgr.files mgr'.files := by
  cases hq with
  | touched t => exact .inl t.files
  | @evicted i f p files table _ _ written _ =>
    unfold Written at written
    split at written
    · have hmoves := moves_writePage f (mgr.bufPool i) mgr.files
      rwa [written] at hmoves
    · exact .inl written
  | failed fails => exact moves_fails fails
  | @orphan _ _ f page files _ run _ =>
    have hmoves := moves_allocatePage f mgr.files
    rwa [run] at hmoves

theorem usable_of_quietSteps (hq : QuietSteps (pageFiles F) hash mgr mgr') (hu : (mgr'.files f).Usable) :
    (mgr.files f).Usable := by
  induction hq with
  | refl => exact hu
  | tail _ hstep ih => exact ih ((quiet_moves hstep).usable hu)

/-- A page that is allocated was not in use. -/
private theorem allocatePage_sound {files files' : F → PageFile} {page : Page} {free : List PageId}
    (run : (pageFiles F).allocatePage f files = .ok page files') (hsound : (files f).Sound free) :
    ∃ file, files' = Function.update files f file ∧ Allocates (files f) page file := by
  obtain ⟨n, file, hrun, hfiles⟩ := allocatePage_ok run
  rcases hsound.allocatePage_cases with ⟨page', file', hrun', ha⟩ | ⟨e, hrun'⟩
  · rw [hrun'] at hrun
    obtain ⟨hpair, rfl⟩ := EStateM.Result.ok.inj hrun
    obtain ⟨rfl, -⟩ := Prod.mk.inj hpair
    exact ⟨file', hfiles, ha⟩
  · rw [hrun'] at hrun
    cases hrun

/-- A page that is read is in use, and under its number. -/
private theorem readPage_sound {files files' : F → PageFile} {p : PageId} {page : Page} {free : List PageId}
    (run : (pageFiles F).readPage f p files = .ok page files') (hsound : (files f).Sound free) :
    files' = files ∧ page.page_number = p ∧ contentsOn (files f).pages p ≠ none := by
  obtain ⟨file, hread, rfl⟩ := readPage_ok run
  by_cases hzero : p = INVALID_NUMBER
  · rw [hzero, hsound.readPage_zero] at hread
    cases hread
  · by_cases hlive : contentsOn (files f).pages p ≠ none
    · obtain ⟨old, hp, hused⟩ := contentsOn_ne_none_iff.mp hlive
      rw [hsound.readPage_used hp hused] at hread
      obtain ⟨rfl, rfl⟩ := EStateM.Result.ok.inj hread
      exact ⟨Function.update_eq_self .., hsound.number_used hp hused, hlive⟩
    · rw [hsound.readPage_none hzero (not_not.mp hlive)] at hread
      cases hread

/-- One quiet step. -/
theorem Backed.quiet (hb : Backed mgr f) (hq : Quiet (pageFiles F) hash mgr mgr') (hu : (mgr'.files f).Usable) :
    Backed mgr' f := by
  obtain ⟨free, hsound⟩ := hb.sound
  cases hq with
  | touched t => exact hb.congr (by rw [t.files]) fun i p hi => ⟨t.holds_iff.mp hi, by rw [t.bufPool]⟩
  | @evicted i g p files table holds _ written _ =>
    have hframes : ∀ j q, ((mgr.withFiles files).vacate i table).Holds j f q → mgr.Holds j f q :=
      fun j q hj => (holds_vacate.mp hj).2
    by_cases hfg : f = g
    · subst hfg
      obtain ⟨hsound', -, -, hlive, hothers⟩ := hb.written holds written
      refine hb.step hsound' fun j q hj => .inl ⟨hframes j q hj, rfl, fun hq => ?_⟩
      by_cases hqp : q = p
      · subst hqp
        exact hlive
      · exact (hothers q hqp).symm ▸ hq
    · refine hb.congr ?_ fun j q hj => ⟨hframes j q hj, rfl⟩
      unfold Written at written
      split at written
      · obtain ⟨file, -, rfl⟩ := writePage_ok written
        exact Function.update_of_ne hfg ..
      · exact congrFun written f
  | failed fails => exact hb.congr (fails_same fails hsound hu) fun i p hi => ⟨hi, rfl⟩
  | @orphan i j g page files invalid run holds =>
    by_cases hfg : f = g
    · subst hfg
      obtain ⟨file, -, ha⟩ := allocatePage_sound run hsound
      exact absurd ha.unused (hb.live j _ holds)
    · obtain ⟨n, file, -, rfl⟩ := allocatePage_ok run
      refine hb.congr (Function.update_of_ne hfg ..) fun k q hk => ⟨hk, ?_⟩
      have hki : k ≠ i := by
        rintro rfl
        exact Bool.false_ne_true (invalid.symm.trans hk.2.valid)
      exact congrArg Page.page_number (Function.update_of_ne hki ..)

theorem Backed.quietSteps (hb : Backed mgr f) (hq : QuietSteps (pageFiles F) hash mgr mgr')
    (hu : (mgr'.files f).Usable) : Backed mgr' f := by
  induction hq with
  | refl => exact hb
  | tail _ hstep ih => exact (ih ((quiet_moves hstep).usable hu)).quiet hstep hu

/-- A page is put into a frame. -/
private theorem Backed.occupy (hb : Backed mgr f) {i : FrameId} {p : PageId} {table : BufHashTbl F} {page : Page}
    {files : F → PageFile} (loads : Loads hash mgr i g p table) (hsound : ∃ free, (files f).Sound free)
    (hpage : f = g → page.page_number = p ∧ contentsOn (files f).pages p ≠ none)
    (hkeep : ∀ q, contentsOn (mgr.files f).pages q ≠ none → contentsOn (files f).pages q ≠ none) :
    Backed ((mgr.withFiles files).occupy i table g p page) f := by
  have hlt : i < (mgr.withFiles files).numBufs := loads.lt
  refine hb.step hsound fun j q hj => ?_
  rcases (holds_occupy hlt).mp hj with ⟨rfl, rfl, rfl⟩ | ⟨hne, hold⟩
  · obtain ⟨hnum, hlive⟩ := hpage rfl
    have hself : ((mgr.withFiles files).occupy j table f q page).bufPool j = page := Function.update_self ..
    exact .inr ⟨hself.symm ▸ hnum, hlive⟩
  · exact .inl ⟨hold, congrArg Page.page_number (Function.update_of_ne hne ..), hkeep q⟩

/-- The file after a page of it has been deleted, in use or not. -/
private theorem deletePage_sound {files files' : F → PageFile} {p : PageId} {free : List PageId}
    (run : (pageFiles F).deletePage f p files = .ok () files') (hsound : (files f).Sound free) :
    ∃ file, files' = Function.update files f file ∧ (∃ left, file.Sound left) ∧
      ∀ q, q ≠ p → contentsOn file.pages q = contentsOn (files f).pages q := by
  obtain ⟨file, hrun, hfiles⟩ := deletePage_ok run
  by_cases hzero : p = INVALID_NUMBER
  · rw [hzero, hsound.deletePage_zero] at hrun
    cases hrun
  · rcases hsound.deletePage_cases hzero with ⟨file', hrun', -, hsound', hcontents⟩ | ⟨e, hrun'⟩
    · rw [hrun'] at hrun
      obtain ⟨-, rfl⟩ := EStateM.Result.ok.inj hrun
      refine ⟨file', hfiles, ⟨_, hsound'⟩, fun q hq => ?_⟩
      rw [hcontents, Function.update_of_ne hq]
    · rw [hrun'] at hrun
      cases hrun

/-- A page that is deleted is not in the pool afterwards. -/
private theorem Backed.disposed (hb : Backed mgr f) {p : PageId} {files : F → PageFile}
    (run : (pageFiles F).deletePage g p mgr.files = .ok () files) (hfiles : mgr'.files = files)
    (hframes : ∀ j h q, mgr'.Holds j h q → mgr.Holds j h q ∧ (h, q) ≠ (g, p) ∧ mgr'.bufPool j = mgr.bufPool j) :
    Backed mgr' f := by
  obtain ⟨free, hsound⟩ := hb.sound
  by_cases hfg : f = g
  · subst hfg
    obtain ⟨file, rfl, hsound', hothers⟩ := deletePage_sound run hsound
    have hfile : mgr'.files f = file := by rw [hfiles, Function.update_self]
    refine hb.step (hfile ▸ hsound') fun j q hj => ?_
    obtain ⟨hold, hne, hpage⟩ := hframes j f q hj
    have hqp : q ≠ p := fun hqp => hne (congrArg (f, ·) hqp)
    exact .inl ⟨hold, congrArg Page.page_number hpage, fun hlive => by rwa [hfile, hothers q hqp]⟩
  · obtain ⟨file, -, rfl⟩ := deletePage_ok run
    refine hb.congr (by rw [hfiles, Function.update_of_ne hfg]) fun j q hj => ?_
    obtain ⟨hold, -, hpage⟩ := hframes j f q hj
    exact ⟨hold, congrArg Page.page_number hpage⟩

/-- One call of the manager does not mend a file. -/
theorem Outcome.usable {call : BufCall F Page} (ho : Outcome (pageFiles F) hash mgr clients call mgr' clients')
    (hu : (mgr'.files f).Usable) : (mgr.files f).Usable := by
  cases ho with
  | quiet steps => exact usable_of_quietSteps steps hu
  | pinned => exact hu
  | @read mgr₁ i g p page files table absent steps run loads =>
    have hmoves := moves_readPage g p mgr₁.files
    rw [run] at hmoves
    exact usable_of_quietSteps steps (hmoves.usable hu)
  | @allocated mgr₁ i g page files table steps run loads =>
    have hmoves := moves_allocatePage g mgr₁.files
    rw [run] at hmoves
    exact usable_of_quietSteps steps (hmoves.usable hu)
  | unpinned => exact hu
  | unpinnedAbsent => exact hu
  | @disposed i g p table files holds removed run =>
    have hmoves := moves_deletePage g p mgr.files
    rw [run] at hmoves
    exact hmoves.usable hu
  | @disposedAbsent g p files absent run =>
    have hmoves := moves_deletePage g p mgr.files
    rw [run] at hmoves
    exact hmoves.usable hu
  | @dropped i g p table files e holds removed run =>
    have hmoves := moves_deletePage g p mgr.files
    rw [run] at hmoves
    exact hmoves.usable hu
  | edited => exact hu

/-- One call of the manager keeps the pages of the pool in their files. -/
theorem Backed.outcome {call : BufCall F Page} (hb : Backed mgr f) (h : mgr.Agree hash)
    (ho : Outcome (pageFiles F) hash mgr clients call mgr' clients')
    (hcall : call.KeepsNumber (pageFiles F) mgr clients) (hu : (mgr'.files f).Usable) : Backed mgr' f := by
  have hdesc : ∀ {i : FrameId} {g : F} {p : PageId} {desc : BufDesc F}, mgr.Holds i g p → desc.Is g p →
      Backed (mgr.withDesc i desc) f := by
    intro i g p desc holds hdesc
    refine hb.congr rfl fun j q hj => ⟨(holds_withDesc ?_ ?_ ?_).mp hj, rfl⟩
    · exact hdesc.valid.trans holds.2.valid.symm
    · exact hdesc.file.trans holds.2.file.symm
    · exact hdesc.pageNo.trans holds.2.pageNo.symm
  have hvacated : ∀ {i : FrameId} {g : F} {p : PageId} {table : BufHashTbl F} {files : F → PageFile},
      mgr.Holds i g p → ∀ j k q, ((mgr.vacate i table).withFiles files).Holds j k q →
        mgr.Holds j k q ∧ (k, q) ≠ (g, p) ∧ ((mgr.vacate i table).withFiles files).bufPool j = mgr.bufPool j := by
    intro i g p table files holds j k q hj
    obtain ⟨hno, hkeep⟩ := vacate_keeps h holds table files
    refine ⟨(hkeep j k q hj).1, ?_, rfl⟩
    intro heq
    obtain ⟨rfl, rfl⟩ := Prod.mk.inj heq
    exact hno j hj
  cases ho with
  | quiet steps => exact hb.quietSteps steps hu
  | @pinned i g p holds => exact hdesc holds ⟨holds.2.valid, holds.2.file, holds.2.pageNo⟩
  | @read mgr₁ i g p page files table absent steps run loads =>
    have hmoves := moves_readPage g p mgr₁.files
    rw [run] at hmoves
    have hb₁ := hb.quietSteps steps (hmoves.usable hu)
    obtain ⟨free, hsound⟩ := hb₁.sound
    by_cases hfg : f = g
    · subst hfg
      obtain ⟨rfl, hnum, hlive⟩ := readPage_sound run hsound
      exact hb₁.occupy loads ⟨free, hsound⟩ (fun _ => ⟨hnum, hlive⟩) fun _ hq => hq
    · obtain ⟨file, -, rfl⟩ := readPage_ok run
      have hfile : Function.update mgr₁.files g file f = mgr₁.files f := Function.update_of_ne hfg ..
      exact hb₁.occupy loads ⟨free, hfile.symm ▸ hsound⟩ (fun heq => absurd heq hfg) fun _ hq => hfile.symm ▸ hq
  | @allocated mgr₁ i g page files table steps run loads =>
    have hmoves := moves_allocatePage g mgr₁.files
    rw [run] at hmoves
    have hb₁ := hb.quietSteps steps (hmoves.usable hu)
    obtain ⟨free, hsound⟩ := hb₁.sound
    by_cases hfg : f = g
    · subst hfg
      obtain ⟨file, rfl, ha⟩ := allocatePage_sound run hsound
      have hfile : Function.update mgr₁.files f file f = file := Function.update_self ..
      have hu' : (Function.update mgr₁.files f file f).Usable := hu
      rw [hfile] at hu'
      refine hb₁.occupy loads ?_ (fun _ => ⟨rfl, ?_⟩) fun q hq => ?_
      · rw [hfile]
        exact ha.sound hu'.counted
      · rw [hfile]
        exact ha.live (.inl rfl)
      · rw [hfile]
        exact ha.live (.inr hq)
    · obtain ⟨n, file, -, rfl⟩ := allocatePage_ok run
      have hfile : Function.update mgr₁.files g file f = mgr₁.files f := Function.update_of_ne hfg ..
      exact hb₁.occupy loads ⟨free, hfile.symm ▸ hsound⟩ (fun heq => absurd heq hfg) fun _ hq => hfile.symm ▸ hq
  | @unpinned i g p dirty holds pins => exact hdesc holds ⟨holds.2.valid, holds.2.file, holds.2.pageNo⟩
  | unpinnedAbsent => exact hb
  | disposed holds removed run => exact hb.disposed run rfl (hvacated holds)
  | @disposedAbsent g p files absent run =>
    refine hb.disposed run rfl fun j k q hj => ⟨hj, ?_, rfl⟩
    intro heq
    obtain ⟨rfl, rfl⟩ := Prod.mk.inj heq
    exact absent j hj
  | @dropped i g p table files e holds removed run =>
    obtain ⟨free, hsound⟩ := hb.sound
    refine hb.congr (fails_same (.deletePage g p e run) hsound hu) fun j q hj => ?_
    exact ⟨(hvacated holds j f q hj).1, rfl⟩
  | @edited g p page =>
    refine hb.congr rfl fun j q hj => ⟨hj, ?_⟩
    by_cases hji : j = clients.pointer (g, p)
    · subst hji
      exact (congrArg Page.page_number (Function.update_self ..)).trans hcall
    · exact congrArg Page.page_number (Function.update_of_ne hji ..)

/-- In every run over page files in which the clients keep the numbers: the pages of a usable file that are in the pool
are pages in use, under their numbers. -/
theorem MgrRun.backed {bufs : Nat} (hbufs : 1 ≤ bufs) {page : Page} {files : F → PageFile}
    (hfiles : ∀ f, (files f).Reached) {contents : F × PageId → Option Page}
    (hrun : MgrRun (pageFiles F) hash (.new bufs page files) contents
      (fun mgr clients call => call.KeepsNumber (pageFiles F) mgr clients) mgr clients)
    (hu : (mgr.files f).Usable) : Backed mgr f := by
  induction hrun with
  | start => exact ⟨(hfiles f).sound hu, fun _ _ hi => absurd hi not_holds_new, fun _ _ hi => absurd hi not_holds_new⟩
  | @call mgr clients call before hcall ih =>
    have h := before.bufRun.agree (BufMgr.agree_new hbufs page files)
    have ho := call.outcome (L := pageFiles F) h clients
    exact (ih (ho.usable hu)).outcome h ho hcall hu

end Cs564.P2
