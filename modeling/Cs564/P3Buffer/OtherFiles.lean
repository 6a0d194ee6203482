import Cs564.P3Buffer.PageFiles

/-!
# Calls on other files

A file whose pages in the pool are clean is not touched by calls on other files: they do not write it, and they may drop
its pages from the pool, but no pinned ones (`Aside`).
-/

namespace Cs564.P3

open P2 (BufError BufHashTbl BufDesc BufMgr BufM)
open P2.BufMgr PageFile

variable {F N : Type} [DecidableEq F] [DecidableEq N] {hash : F → PageId → Nat} {filename : F → N} {n : N}
  {mgr m m' : BufMgr F Page (N → PageFile)} {i : FrameId} {f : F} {p : PageId}

/-- The pool has no dirty page of file `n`. -/
def Clean (filename : F → N) (n : N) (mgr : BufMgr F Page (N → PageFile)) : Prop :=
  ∀ i f p, mgr.Holds i f p → filename f = n → (mgr.bufDescTable i).dirty = false

/-- File `n` is the same, the frames with its pages have not changed, and pinned ones are still there. -/
structure Aside (filename : F → N) (n : N) (mgr m : BufMgr F Page (N → PageFile)) : Prop where
  file_eq : m.files n = mgr.files n
  frames : ∀ i f p, m.Holds i f p → filename f = n → mgr.Holds i f p ∧ mgr.SameFrame m i
  pinned : ∀ i f p, mgr.Holds i f p → filename f = n → 0 < (mgr.bufDescTable i).pinCnt → m.Holds i f p

/-- The file of a call. -/
def Call.file {P : Type} : Call F P → F
  | readPage f _ => f
  | allocPage f => f
  | unPinPage f _ _ => f
  | flushFile f => f
  | disposePage f _ => f
  | edit f _ _ _ => f

/-- What a call on another file leaves of the marks. -/
theorem Call.unsaved_other {P C σ : Type} {L : FileLayer F P σ} {body : P → C} {mgr : BufMgr F P σ} {edits : Edits N C}
    {call : Call F P} (hother : filename call.file ≠ n) (p : PageId) :
    (call.run L hash filename body mgr edits).2.unsaved (n, p) = edits.unsaved (n, p) := by
  have hne : ∀ {f : F} {q : PageId}, filename f ≠ n → (n, p) ≠ (filename f, q) :=
    fun hf heq => hf (Prod.mk.inj heq).1.symm
  cases call with
  | readPage f q =>
    rw [run]
    cases P3.readPage L hash f q mgr <;> rfl
  | allocPage f =>
    rw [run]
    cases P3.allocPage L hash f mgr with
    | ok new m => exact Function.update_of_ne (hne hother) ..
    | error e m => rfl
  | unPinPage f q dirty =>
    rw [run]
    cases P3.unPinPage hash f q dirty mgr with
    | ok _ m =>
      cases dirty with
      | false => rfl
      | true => exact Function.update_of_ne (hne hother) ..
    | error e m => rfl
  | flushFile f =>
    rw [run]
    cases P3.flushFile L hash f mgr <;> rfl
  | disposePage f q =>
    rw [run]
    cases P3.disposePage L hash f q mgr with
    | ok _ m => exact Function.update_of_ne (hne hother) ..
    | error e m => rfl
  | edit f q fid page => exact Function.update_of_ne (hne hother) ..

omit [DecidableEq F] [DecidableEq N] in
theorem Clean.aside (h : Clean filename n mgr) (ha : Aside filename n mgr m) : Clean filename n m := by
  intro i f p hi hf
  obtain ⟨hold, hsame⟩ := ha.frames i f p hi hf
  exact hsame.dirty.trans (h i f p hold hf)

namespace Aside

omit [DecidableEq F] [DecidableEq N] in
theorem refl : Aside filename n mgr mgr := ⟨rfl, fun _ _ _ hi _ => ⟨hi, rfl, rfl, rfl⟩, fun _ _ _ hi _ _ => hi⟩

omit [DecidableEq F] [DecidableEq N] in
theorem trans (h : Aside filename n mgr m) (h' : Aside filename n m m') : Aside filename n mgr m' := by
  refine ⟨h'.file_eq.trans h.file_eq, fun i f p hi hf => ?_, fun i f p hi hf hpin => ?_⟩
  · obtain ⟨hmid, hsame'⟩ := h'.frames i f p hi hf
    obtain ⟨hold, hsame⟩ := h.frames i f p hmid hf
    exact ⟨hold, hsame.trans hsame'⟩
  · have hmid := h.pinned i f p hi hf hpin
    refine h'.pinned i f p hmid hf ?_
    rw [(h.frames i f p hmid hf).2.pinCnt]
    exact hpin

omit [DecidableEq F] [DecidableEq N] in
theorem touched (t : mgr.Touched m) : Aside filename n mgr m where
  file_eq := congrFun t.files n
  frames i f p hi _ := ⟨t.holds_iff.mp hi, by rw [t.desc i], by rw [t.desc i], by rw [t.bufPool]⟩
  pinned i f p hi _ _ := t.holds_iff.mpr hi

/-! ### Steps of the calls -/

omit [DecidableEq F] in
/-- Another file changes. -/
theorem withFile (hother : filename f ≠ n) {file : PageFile} :
    Aside filename n mgr (mgr.withFiles (Function.update mgr.files (filename f) file)) where
  file_eq := Function.update_of_ne (Ne.symm hother) ..
  frames _ _ _ hi _ := ⟨hi, rfl, rfl, rfl⟩
  pinned _ _ _ hi _ _ := hi

omit [DecidableEq F] [DecidableEq N] in
/-- The frame of a page of another file has no page of this one. -/
private theorem frame_ne (hi : mgr.Holds i f p) (hother : filename f ≠ n) {j : FrameId} {g : F} {q : PageId}
    (hj : mgr.Holds j g q) (hg : filename g = n) : j ≠ i := by
  rintro rfl
  refine hother ?_
  rw [Option.some.inj (hi.2.file.symm.trans hj.2.file)]
  exact hg

omit [DecidableEq F] [DecidableEq N] in
/-- A page of another file gets another descriptor. -/
theorem redescribed (hi : mgr.Holds i f p) (hother : filename f ≠ n) {desc : BufDesc F} (hdesc : desc.Is f p) :
    Aside filename n mgr (mgr.withDesc i desc) := by
  have hholds : ∀ j g q, (mgr.withDesc i desc).Holds j g q ↔ mgr.Holds j g q := by
    intro j g q
    refine holds_withDesc ?_ ?_ ?_
    · exact hdesc.valid.trans hi.2.valid.symm
    · exact hdesc.file.trans hi.2.file.symm
    · exact hdesc.pageNo.trans hi.2.pageNo.symm
  refine ⟨rfl, fun j g q hj hg => ?_, fun j g q hj _ _ => (hholds j g q).mpr hj⟩
  have hold := (hholds j g q).mp hj
  have hdesc' : (mgr.withDesc i desc).bufDescTable j = mgr.bufDescTable j :=
    Function.update_of_ne (frame_ne hi hother hold hg) ..
  exact ⟨hold, by rw [hdesc'], by rw [hdesc'], rfl⟩

omit [DecidableEq F] [DecidableEq N] in
/-- A page of another file is changed in its frame. -/
theorem edited (hi : mgr.Holds i f p) (hother : filename f ≠ n) (page : Page) :
    Aside filename n mgr { mgr with bufPool := Function.update mgr.bufPool i page } := by
  refine ⟨rfl, fun j g q hj hg => ?_, fun _ _ _ hj _ _ => hj⟩
  exact ⟨hj, rfl, rfl, Function.update_of_ne (frame_ne hi hother hj hg) ..⟩

omit [DecidableEq F] [DecidableEq N] in
/-- A page of another file leaves the pool. -/
theorem vacated (hi : mgr.Holds i f p) (hother : filename f ≠ n) (table : BufHashTbl F) :
    Aside filename n mgr (mgr.vacate i table) := by
  refine ⟨rfl, fun j g q hj _ => ?_, fun j g q hj hg _ => holds_vacate.mpr ⟨frame_ne hi hother hj hg, hj⟩⟩
  obtain ⟨hne, hold⟩ := holds_vacate.mp hj
  exact ⟨hold, by rw [vacate_desc _ hne], by rw [vacate_desc _ hne], rfl⟩

omit [DecidableEq F] [DecidableEq N] in
/-- A page of another file is put into an invalid frame. -/
theorem occupied (hi : i < mgr.numBufs) (hinvalid : (mgr.bufDescTable i).valid = false) (hother : filename f ≠ n)
    (table : BufHashTbl F) (page : Page) : Aside filename n mgr (mgr.occupy i table f p page) := by
  refine ⟨rfl, fun j g q hj hg => ?_, fun j g q hj _ _ => (holds_occupy hi).mpr (.inr ⟨?_, hj⟩)⟩
  · rcases (holds_occupy hi).mp hj with ⟨-, rfl, -⟩ | ⟨hne, hold⟩
    · exact absurd hg hother
    · have hdesc : (mgr.occupy i table f p page).bufDescTable j = mgr.bufDescTable j := Function.update_of_ne hne ..
      exact ⟨hold, by rw [hdesc], by rw [hdesc], Function.update_of_ne hne ..⟩
  · rintro rfl
    exact Bool.false_ne_true (hinvalid.symm.trans hj.2.valid)

/-- An unpinned page of any file leaves the pool; it is written if it is dirty, and pages of this file are not. -/
theorem dropped (hclean : Clean filename n mgr) (d : Dropped (pageFiles filename) hash mgr i f p m) :
    Aside filename n mgr m := by
  refine ⟨?_, fun j g q hj _ => ?_, fun j g q hj _ hpin => d.holds_iff.mpr ⟨?_, hj⟩⟩
  · cases d with
    | @drop files table holds unpinned written removed =>
      change files n = mgr.files n
      unfold Written at written
      split at written
      · next hdirty =>
        obtain ⟨file, -, rfl⟩ := P2.onFile_ok written
        refine Function.update_of_ne ?_ ..
        rintro rfl
        exact Bool.false_ne_true ((hclean i f p holds rfl).symm.trans hdirty)
      · rw [written]
  · obtain ⟨hne, hold⟩ := d.holds_iff.mp hj
    exact ⟨hold, d.same hne⟩
  · rintro rfl
    cases d with
    | drop holds unpinned => exact Nat.ne_of_gt hpin unpinned

/-- `allocBuf`. -/
theorem freed (hclean : Clean filename n mgr) (hfreed : Freed (pageFiles filename) hash mgr i m) :
    Aside filename n mgr m := by
  refine ⟨?_, fun j g q hj _ => ?_, fun j g q hj _ hpin => (hfreed.protects hj hpin).2⟩
  · cases hfreed with
    | empty t => exact congrFun t.files n
    | evicted t d => exact ((touched t).trans (dropped (hclean.aside (touched t)) d)).file_eq
  · obtain ⟨hne, hold⟩ := hfreed.holds_iff.mp hj
    exact ⟨hold, hfreed.same hne⟩

/-! ### One call -/

section Calls

variable (hagree : mgr.Agree hash) (h : Backed filename mgr) (hclean : Clean filename n mgr)
include hagree h hclean

omit hagree h in
private theorem readPage (hother : filename f ≠ n) {r : EStateM.Result (BufError F) (BufMgr F Page (N → PageFile)) FrameId}
    (hspec : ReadPage (pageFiles filename) hash f p mgr r) : Aside filename n mgr (stateAfter r) := by
  cases hspec with
  | hit holds => exact redescribed holds hother ⟨holds.2.valid, holds.2.file, holds.2.pageNo⟩
  | exceeded absent t full => exact touched t
  | failed absent hfreed run =>
    obtain ⟨file, -, rfl⟩ := P2.onFile_error run
    exact (freed hclean hfreed).trans (withFile hother)
  | @loaded i m page files table absent hfreed run loads =>
    obtain ⟨file, -, rfl⟩ := P2.onFile_ok run
    have hlt : i < (m.withFiles (Function.update m.files (filename f) file)).numBufs := hfreed.lt
    exact ((freed hclean hfreed).trans (withFile hother)).trans (occupied hlt hfreed.invalid hother ..)

omit hagree in
private theorem allocPage (hsafe : FileCall.allocatePage.Safe (mgr.files (filename f))) (hother : filename f ≠ n)
    {r : EStateM.Result (BufError F) (BufMgr F Page (N → PageFile)) (PageId × FrameId)}
    (hspec : AllocPage (pageFiles filename) hash f mgr r) : Aside filename n mgr (stateAfter r) := by
  cases hspec with
  | exceeded t full => exact touched t
  | failed hfreed run =>
    obtain ⟨page, file, hreturns, -⟩ := h.allocates hsafe hfreed
    rw [hreturns] at run
    cases run
  | @present i j m _ new files hfreed run holds =>
    obtain ⟨page, file, hreturns, -, hunused, -⟩ := h.allocates hsafe hfreed
    obtain ⟨rfl, -⟩ := EStateM.Result.ok.inj (hreturns.symm.trans run)
    exact absurd hunused ((h.freed hfreed).1.live j f _ holds)
  | @allocated i m new files table hfreed run loads =>
    obtain ⟨page, file, hreturns, -⟩ := h.allocates hsafe hfreed
    obtain ⟨-, rfl⟩ := EStateM.Result.ok.inj (hreturns.symm.trans run)
    have hlt : i < (m.withFiles (Function.update m.files (filename f) file)).numBufs := hfreed.lt
    exact ((freed hclean hfreed).trans (withFile hother)).trans (occupied hlt hfreed.invalid hother ..)

omit hagree h hclean [DecidableEq F] [DecidableEq N] in
private theorem unPinPage (hother : filename f ≠ n) {dirty : Bool}
    {r : EStateM.Result (BufError F) (BufMgr F Page (N → PageFile)) Unit} (hspec : UnPinPage f p dirty mgr r) :
    Aside filename n mgr (stateAfter r) := by
  cases hspec with
  | absent => exact refl
  | notPinned holds zero => exact redescribed holds hother ⟨holds.2.valid, holds.2.file, holds.2.pageNo⟩
  | unpinned holds pins => exact redescribed holds hother ⟨holds.2.valid, holds.2.file, holds.2.pageNo⟩

omit hagree h hclean in
private theorem disposePage (hother : filename f ≠ n)
    {r : EStateM.Result (BufError F) (BufMgr F Page (N → PageFile)) Unit}
    (hspec : DisposePage (pageFiles filename) hash f p mgr r) : Aside filename n mgr (stateAfter r) := by
  cases hspec with
  | absent => exact refl
  | @failed i table e files holds removed run =>
    obtain ⟨file, -, rfl⟩ := P2.onFile_error run
    have ha : Aside filename n (mgr.vacate i table)
        ((mgr.vacate i table).withFiles (Function.update mgr.files (filename f) file)) := withFile hother
    exact (vacated holds hother table).trans ha
  | @disposed i table files holds removed run =>
    obtain ⟨file, -, rfl⟩ := P2.onFile_ok run
    have ha : Aside filename n (mgr.vacate i table)
        ((mgr.vacate i table).withFiles (Function.update mgr.files (filename f) file)) := withFile hother
    exact (vacated holds hother table).trans ha

/-- `flushFile`, of any file. -/
theorem flushFile (f : F) : Aside filename n mgr (stateAfter (P3.flushFile (pageFiles filename) hash f mgr)) := by
  have hdrops : ∀ {f m m'}, (Backed filename m ∧ Clean filename n m ∧ Aside filename n mgr m) →
      Drops (pageFiles filename) hash f m m' → Backed filename m' ∧ Clean filename n m' ∧ Aside filename n mgr m' := by
    rintro f m m' ⟨hm, hmclean, ha⟩ ⟨i, p, d⟩
    have hdropped := dropped hmclean d
    exact ⟨(hm.dropped d).1, hmclean.aside hdropped, ha.trans hdropped⟩
  obtain ⟨m, -, -, ⟨-, -, ha⟩, ⟨i, p, -, -, hrun⟩ | ⟨hrun, -⟩⟩ :=
    flushFile_cases (W := fun m => Backed filename m ∧ Clean filename n m ∧ Aside filename n mgr m)
      (fun hm => hm.1.writable) (fun hm _ hdrop => hdrops hm hdrop) hagree ⟨h, hclean, refl⟩ f
  · rw [hrun]
    exact ha
  · rw [hrun]
    exact ha

/-- A call on another file. -/
theorem call {C : Type} {body : Page → C} {edits : Edits N C} (call : Call F Page) (horderly : call.Orderly filename mgr)
    (hother : filename call.file ≠ n) :
    Aside filename n mgr (call.run (pageFiles filename) hash filename body mgr edits).1 := by
  cases call with
  | readPage f p =>
    have ha := readPage hclean hother (readPage_spec hagree h.writable f p)
    rw [Call.run]
    cases hrun : P3.readPage (pageFiles filename) hash f p mgr <;> rw [hrun] at ha <;> exact ha
  | allocPage f =>
    have ha := allocPage h hclean horderly hother (allocPage_spec hagree h.writable f)
    rw [Call.run]
    cases hrun : P3.allocPage (pageFiles filename) hash f mgr <;> rw [hrun] at ha <;> exact ha
  | unPinPage f p dirty =>
    have ha : Aside filename n mgr (stateAfter (P3.unPinPage hash f p dirty mgr)) :=
      unPinPage hother (unPinPage_spec hagree f p dirty)
    rw [Call.run]
    cases hrun : P3.unPinPage hash f p dirty mgr <;> rw [hrun] at ha <;> exact ha
  | flushFile f =>
    have ha := flushFile hagree h hclean f
    rw [Call.run]
    cases hrun : P3.flushFile (pageFiles filename) hash f mgr <;> rw [hrun] at ha <;> exact ha
  | disposePage f p =>
    have ha : Aside filename n mgr (stateAfter (P3.disposePage (pageFiles filename) hash f p mgr)) :=
      disposePage hother (disposePage_spec hagree f p)
    rw [Call.run]
    cases hrun : P3.disposePage (pageFiles filename) hash f p mgr <;> rw [hrun] at ha <;> exact ha
  | edit f p fid page => exact edited horderly.1 hother page

end Calls

end Aside

end Cs564.P3
