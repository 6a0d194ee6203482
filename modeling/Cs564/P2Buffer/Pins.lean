import Cs564.P2Buffer.Runs

/-!
# Pins protect pages

The number of pins of a page in the pool is the number that the clients count (`Counted`), and while it is positive no
call except `disposePage` of the page takes the page out of its frame (`Outcome.protects`).
-/

namespace Cs564.P2

variable {F P σ : Type} [DecidableEq F]

omit [DecidableEq F] in
theorem BufDesc.Is.unique {desc : BufDesc F} {f g : F} {p q : PageId} (h : desc.Is f p) (h' : desc.Is g q) :
    (g, q) = (f, p) := by
  rw [Option.some.inj (h'.file.symm.trans h.file), h'.pageNo.symm.trans h.pageNo]

namespace BufMgr

/-- The frame has the same page, pins and dirty bit. -/
structure SameFrame (mgr mgr' : BufMgr F P σ) (i : FrameId) : Prop where
  pinCnt : (mgr'.bufDescTable i).pinCnt = (mgr.bufDescTable i).pinCnt
  dirty : (mgr'.bufDescTable i).dirty = (mgr.bufDescTable i).dirty
  page : mgr'.bufPool i = mgr.bufPool i

variable {L : FileLayer F P σ} {hash : F → PageId → Nat} {mgr mgr' : BufMgr F P σ} {i j : FrameId} {f g : F} {p q : PageId}

omit [DecidableEq F] in
theorem SameFrame.trans {mgr'' : BufMgr F P σ} (h : mgr.SameFrame mgr' i) (h' : mgr'.SameFrame mgr'' i) :
    mgr.SameFrame mgr'' i :=
  ⟨h'.pinCnt.trans h.pinCnt, h'.dirty.trans h.dirty, h'.page.trans h.page⟩

omit [DecidableEq F] in
/-- The frames that are not vacated. -/
theorem vacate_desc (table : BufHashTbl F) (hj : j ≠ i) : (mgr.vacate i table).bufDescTable j = mgr.bufDescTable j :=
  Function.update_of_ne hj ..

omit [DecidableEq F] in
theorem withDesc_desc (desc : BufDesc F) (hj : j ≠ i) : (mgr.withDesc i desc).bufDescTable j = mgr.bufDescTable j :=
  Function.update_of_ne hj ..

omit [DecidableEq F] in
theorem withDesc_self (desc : BufDesc F) : (mgr.withDesc i desc).bufDescTable i = desc := Function.update_self ..

omit [DecidableEq F] in
theorem occupy_desc (table : BufHashTbl F) (page : P) (hj : j ≠ i) :
    (mgr.occupy i table f p page).bufDescTable j = mgr.bufDescTable j :=
  Function.update_of_ne hj ..

omit [DecidableEq F] in
theorem occupy_self (table : BufHashTbl F) (page : P) :
    (mgr.occupy i table f p page).bufDescTable i = .Set f p := Function.update_self ..

omit [DecidableEq F] in
/-- Frames that are not occupied keep their pages. -/
theorem occupy_same (table : BufHashTbl F) (page : P) (hj : j ≠ i) : mgr.SameFrame (mgr.occupy i table f p page) j := by
  refine ⟨?_, ?_, Function.update_of_ne hj ..⟩ <;> rw [occupy_desc table page hj]

/-- A quiet step does not change the frames that hold pages after it. -/
theorem Quiet.same (hq : Quiet L hash mgr mgr') (hi : mgr'.Holds i f p) : mgr.SameFrame mgr' i := by
  cases hq with
  | touched t => exact ⟨by rw [t.desc i], by rw [t.desc i], by rw [t.bufPool]⟩
  | evicted =>
    have hne := (holds_vacate.mp hi).1
    exact ⟨by rw [vacate_desc _ hne]; rfl, by rw [vacate_desc _ hne]; rfl, rfl⟩
  | failed => exact ⟨rfl, rfl, rfl⟩
  | orphan invalid =>
    refine ⟨rfl, rfl, Function.update_of_ne ?_ ..⟩
    rintro rfl
    exact Bool.false_ne_true (invalid.symm.trans hi.2.valid)

/-- A quiet step leaves pinned pages in their frames. -/
theorem Quiet.protects (hq : Quiet L hash mgr mgr') (hi : mgr.Holds i f p) (hpin : 0 < (mgr.bufDescTable i).pinCnt) :
    mgr'.Holds i f p := by
  cases hq with
  | touched t => exact t.holds_iff.mpr hi
  | evicted holds unpinned =>
    refine holds_vacate.mpr ⟨?_, hi⟩
    rintro rfl
    exact Nat.ne_of_gt hpin unpinned
  | failed => exact hi
  | orphan => exact hi

theorem QuietSteps.same (hq : QuietSteps L hash mgr mgr') (hi : mgr'.Holds i f p) : mgr.SameFrame mgr' i := by
  induction hq with
  | refl => exact ⟨rfl, rfl, rfl⟩
  | tail _ hstep ih => exact (ih (hstep.holds_of hi)).trans (hstep.same hi)

theorem QuietSteps.protects (hq : QuietSteps L hash mgr mgr') (hi : mgr.Holds i f p)
    (hpin : 0 < (mgr.bufDescTable i).pinCnt) : mgr'.Holds i f p := by
  induction hq with
  | refl => exact hi
  | tail hsteps hstep ih =>
    have hsame := QuietSteps.same hsteps ih
    exact hstep.protects ih (hsame.pinCnt ▸ hpin)

end BufMgr

open BufMgr

/-- The pins and the pointer that the clients know of a page in the pool are those of its frame. -/
structure Counted (mgr : BufMgr F P σ) (clients : Clients F P) : Prop where
  pins : ∀ i f p, mgr.Holds i f p → ((mgr.bufDescTable i).pinCnt : Int) = clients.pins (f, p)
  pointer : ∀ i f p, mgr.Holds i f p → clients.pointer (f, p) = i

variable {L : FileLayer F P σ} {hash : F → PageId → Nat} {mgr mgr' : BufMgr F P σ} {clients clients' : Clients F P}

/-- Quiet steps. -/
theorem Counted.quiet (hc : Counted mgr clients) (hq : QuietSteps L hash mgr mgr') : Counted mgr' clients where
  pins i f p hi := by
    rw [(hq.same hi).pinCnt]
    exact hc.pins i f p (hq.holds_of hi)
  pointer i f p hi := hc.pointer i f p (hq.holds_of hi)

/-- A page is put into a frame, with one pin. -/
theorem Counted.occupy (hc : Counted mgr clients) {i : FrameId} {f : F} {p : PageId} {table : BufHashTbl F} {page : P}
    {files : σ} (loads : Loads hash mgr i f p table)
    (hpins : clients'.pins = Function.update clients.pins (f, p) 1)
    (hpointer : clients'.pointer = Function.update clients.pointer (f, p) i) :
    Counted ((mgr.withFiles files).occupy i table f p page) clients' := by
  have hlt : i < (mgr.withFiles files).numBufs := loads.lt
  have hkeys : ∀ {j : FrameId} {g : F} {q : PageId}, mgr.Holds j g q → (g, q) ≠ (f, p) := by
    intro j g q hj heq
    obtain ⟨rfl, rfl⟩ := Prod.mk.inj heq
    exact loads.absent j hj
  constructor
  · intro j g q hj
    rw [hpins]
    rcases (holds_occupy hlt).mp hj with ⟨rfl, rfl, rfl⟩ | ⟨hne, hj⟩
    · rw [occupy_self, Function.update_self]
      rfl
    · rw [occupy_desc table page hne, Function.update_of_ne (hkeys hj)]
      exact hc.pins j g q hj
  · intro j g q hj
    rw [hpointer]
    rcases (holds_occupy hlt).mp hj with ⟨rfl, rfl, rfl⟩ | ⟨hne, hj⟩
    · exact Function.update_self ..
    · rw [Function.update_of_ne (hkeys hj)]
      exact hc.pointer j g q hj

/-- The pins of a page in the pool change. -/
theorem Counted.withDesc (hc : Counted mgr clients) (h : mgr.Agree hash) {i : FrameId} {f : F} {p : PageId}
    (hi : mgr.Holds i f p) {desc : BufDesc F} (hdesc : desc.Is f p) {pins : Int} (hcount : (desc.pinCnt : Int) = pins)
    (hpins : clients'.pins = Function.update clients.pins (f, p) pins)
    (hpointer : clients'.pointer (f, p) = i) (hothers : ∀ key, key ≠ (f, p) → clients'.pointer key = clients.pointer key) :
    Counted (mgr.withDesc i desc) clients' := by
  have hholds : ∀ {j : FrameId} {g : F} {q : PageId}, (mgr.withDesc i desc).Holds j g q → mgr.Holds j g q := by
    intro j g q hj
    refine (holds_withDesc ?_ ?_ ?_).mp hj
    · exact hdesc.valid.trans hi.2.valid.symm
    · exact hdesc.file.trans hi.2.file.symm
    · exact hdesc.pageNo.trans hi.2.pageNo.symm
  constructor
  · intro j g q hj
    rw [hpins]
    by_cases hji : j = i
    · subst hji
      obtain ⟨rfl, rfl⟩ := Prod.mk.inj (hi.2.unique (hholds hj).2)
      rw [withDesc_self, Function.update_self]
      exact hcount
    · have hne : (g, q) ≠ (f, p) := by
        intro heq
        obtain ⟨rfl, rfl⟩ := Prod.mk.inj heq
        exact hji (h.unique (hholds hj) hi)
      rw [withDesc_desc desc hji, Function.update_of_ne hne]
      exact hc.pins j g q (hholds hj)
  · intro j g q hj
    by_cases heq : (g, q) = (f, p)
    · obtain ⟨rfl, rfl⟩ := Prod.mk.inj heq
      rw [hpointer]
      exact h.unique hi (hholds hj)
    · rw [hothers _ heq]
      exact hc.pointer j g q (hholds hj)

omit [DecidableEq F] in
/-- Calls that concern a page which is not in the pool afterwards. -/
theorem Counted.absent (hc : Counted mgr clients) {f : F} {p : PageId} (hno : ∀ i, ¬ mgr'.Holds i f p)
    (hkeep : ∀ i g q, mgr'.Holds i g q → mgr.Holds i g q ∧ mgr.SameFrame mgr' i)
    (hpins : ∀ key, key ≠ (f, p) → clients'.pins key = clients.pins key)
    (hpointer : clients'.pointer = clients.pointer) : Counted mgr' clients' := by
  constructor
  · intro i g q hi
    have hne : (g, q) ≠ (f, p) := by
      intro heq
      obtain ⟨rfl, rfl⟩ := Prod.mk.inj heq
      exact hno i hi
    obtain ⟨hold, hsame⟩ := hkeep i g q hi
    rw [hsame.pinCnt, hpins _ hne]
    exact hc.pins i g q hold
  · intro i g q hi
    rw [hpointer]
    exact hc.pointer i g q (hkeep i g q hi).1

/-- A page that is given up. -/
theorem vacate_keeps {i : FrameId} {f : F} {p : PageId} (h : mgr.Agree hash) (hi : mgr.Holds i f p)
    (table : BufHashTbl F) (files : σ) :
    (∀ j, ¬ ((mgr.vacate i table).withFiles files).Holds j f p) ∧
      ∀ j g q, ((mgr.vacate i table).withFiles files).Holds j g q →
        mgr.Holds j g q ∧ mgr.SameFrame ((mgr.vacate i table).withFiles files) j := by
  constructor
  · intro j hj
    have hvacated : (mgr.vacate i table).Holds j f p := hj
    obtain ⟨hne, hj⟩ := holds_vacate.mp hvacated
    exact hne (h.unique hj hi)
  · intro j g q hj
    have hvacated : (mgr.vacate i table).Holds j g q := hj
    obtain ⟨hne, hj⟩ := holds_vacate.mp hvacated
    have hdesc : ((mgr.vacate i table).withFiles files).bufDescTable j = mgr.bufDescTable j := vacate_desc table hne
    exact ⟨hj, by rw [hdesc], by rw [hdesc], rfl⟩

/-- The page that `allocPage` gets had no pins. -/
theorem Counted.took_one (hc : Counted mgr clients) {mgr₁ : BufMgr F P σ} (hq : QuietSteps L hash mgr mgr₁) {f : F}
    {p : PageId} (hno : ∀ j, ¬ mgr₁.Holds j f p) : (if mgr.cached f p then clients.pins (f, p) + 1 else 1) = (1 : Int) := by
  by_cases hcached : mgr.cached f p = true
  · obtain ⟨i, hi⟩ := cached_iff.mp hcached
    have hzero : (mgr.bufDescTable i).pinCnt = 0 :=
      Nat.eq_zero_of_not_pos fun hpos => hno i (hq.protects hi hpos)
    rw [if_pos hcached, ← hc.pins i f p hi, hzero]
    rfl
  · rw [if_neg hcached]

/-- One call. -/
theorem Outcome.counted {call : BufCall F P} (h : mgr.Agree hash) (hc : Counted mgr clients)
    (ho : Outcome L hash mgr clients call mgr' clients') : Counted mgr' clients' := by
  cases ho with
  | quiet steps => exact hc.quiet steps
  | @pinned i f p holds =>
    refine hc.withDesc h holds ⟨holds.2.valid, holds.2.file, holds.2.pageNo⟩ ?_ rfl (Function.update_self ..)
      fun key hkey => Function.update_of_ne hkey ..
    rw [if_pos rfl, ← hc.pins i f p holds]
    rfl
  | read absent steps run loads => exact (hc.quiet steps).occupy loads rfl rfl
  | allocated steps run loads =>
    refine (hc.quiet steps).occupy loads ?_ rfl
    rw [← hc.took_one steps loads.absent]
    rfl
  | @unpinned i f p dirty holds pins =>
    refine hc.withDesc h holds ⟨holds.2.valid, holds.2.file, holds.2.pageNo⟩ ?_ rfl (hc.pointer i f p holds)
      fun key _ => rfl
    rw [← hc.pins i f p holds]
    exact Int.natCast_pred_of_pos pins
  | unpinnedAbsent absent =>
    exact hc.absent absent (fun _ _ _ hi => ⟨hi, rfl, rfl, rfl⟩) (fun key hkey => Function.update_of_ne hkey ..) rfl
  | disposed holds removed run =>
    obtain ⟨hno, hkeep⟩ := vacate_keeps h holds _ _
    exact hc.absent hno hkeep (fun key hkey => Function.update_of_ne hkey ..) rfl
  | disposedAbsent absent run =>
    exact hc.absent absent (fun _ _ _ hi => ⟨hi, rfl, rfl, rfl⟩) (fun key hkey => Function.update_of_ne hkey ..) rfl
  | dropped holds removed run =>
    obtain ⟨hno, hkeep⟩ := vacate_keeps h holds _ _
    exact hc.absent hno hkeep (fun _ _ => rfl) rfl
  | edited => exact ⟨hc.pins, hc.pointer⟩

/-- A pinned page stays in its frame when a page is put into another one. -/
private theorem occupy_protects {mgr₁ : BufMgr F P σ} (hq : QuietSteps L hash mgr mgr₁) {i j : FrameId} {f g : F}
    {p q : PageId} (hi : mgr.Holds i f p) (hpin : 0 < (mgr.bufDescTable i).pinCnt) {table : BufHashTbl F}
    (loads : Loads hash mgr₁ j g q table) (files : σ) (page : P) :
    ((mgr₁.withFiles files).occupy j table g q page).Holds i f p ∧
      ((mgr₁.withFiles files).occupy j table g q page).bufPool i = mgr.bufPool i := by
  have hi₁ := hq.protects hi hpin
  have hne : i ≠ j := by
    rintro rfl
    exact Bool.false_ne_true (loads.invalid.symm.trans hi₁.2.valid)
  have hlt : j < (mgr₁.withFiles files).numBufs := loads.lt
  constructor
  · exact (holds_occupy hlt).mpr (.inr ⟨hne, hi₁⟩)
  · exact (occupy_same table page hne).page.trans (hq.same hi₁).page

/-- While a page has pins, no call except `disposePage` of the page takes it out of its frame, and none but a change of
a page by the clients changes the object. -/
theorem Outcome.protects {call : BufCall F P} (ho : Outcome L hash mgr clients call mgr' clients')
    {i : FrameId} {f : F} {p : PageId} (hi : mgr.Holds i f p) (hpin : 0 < (mgr.bufDescTable i).pinCnt)
    (hcall : call ≠ .disposePage f p) :
    mgr'.Holds i f p ∧ ((∀ g q page, call ≠ .edit g q page) → mgr'.bufPool i = mgr.bufPool i) := by
  have hdisposed : ∀ {j g q} (table : BufHashTbl F) (files : σ), mgr.Holds j g q → call = .disposePage g q →
      ((mgr.vacate j table).withFiles files).Holds i f p := by
    intro j g q table files hj hdispose
    have hne : i ≠ j := by
      rintro rfl
      obtain ⟨rfl, rfl⟩ := Prod.mk.inj (hi.2.unique hj.2)
      exact hcall hdispose
    have hvacated : (mgr.vacate j table).Holds i f p := holds_vacate.mpr ⟨hne, hi⟩
    exact hvacated
  cases ho with
  | quiet steps =>
    have hi' := steps.protects hi hpin
    exact ⟨hi', fun _ => (steps.same hi').page⟩
  | @pinned j g q holds =>
    have hi' : (mgr.withDesc j (mgr.bufDescTable j).pinned).Holds i f p := by
      rw [holds_withDesc] <;> first | exact hi | rfl
    exact ⟨hi', fun _ => rfl⟩
  | read absent steps run loads =>
    obtain ⟨hi', hpage⟩ := occupy_protects steps hi hpin loads _ _
    exact ⟨hi', fun _ => hpage⟩
  | allocated steps run loads =>
    obtain ⟨hi', hpage⟩ := occupy_protects steps hi hpin loads _ _
    exact ⟨hi', fun _ => hpage⟩
  | @unpinned j g q dirty holds pins =>
    have hi' : (mgr.withDesc j ((mgr.bufDescTable j).unpinned dirty)).Holds i f p := by
      rw [holds_withDesc] <;> first | exact hi | rfl
    exact ⟨hi', fun _ => rfl⟩
  | unpinnedAbsent absent => exact ⟨hi, fun _ => rfl⟩
  | disposed holds removed run => exact ⟨hdisposed _ _ holds rfl, fun _ => rfl⟩
  | disposedAbsent absent run => exact ⟨hi, fun _ => rfl⟩
  | dropped holds removed run => exact ⟨hdisposed _ _ holds rfl, fun _ => rfl⟩
  | edited => exact ⟨hi, fun hedit => absurd rfl (hedit _ _ _)⟩

variable {start : BufMgr F P σ} {contents : F × PageId → Option P} {cond : Clients F P → BufCall F P → Prop}

omit [DecidableEq F] in
/-- In a new manager no frame holds a page. -/
theorem not_holds_new {bufs : Nat} {page : P} {files : σ} {i : FrameId} {f : F} {p : PageId} :
    ¬ (BufMgr.new bufs page files).Holds i f p := fun hi => BufDesc.not_is_clear hi.2

/-- In every run the pins are counted. -/
theorem BufRun.counted {bufs : Nat} (hbufs : 1 ≤ bufs) {page : P} {files : σ}
    (hrun : BufRun L hash (.new bufs page files) contents cond mgr clients) : Counted mgr clients := by
  induction hrun with
  | start => exact ⟨fun _ _ _ hi => absurd hi not_holds_new, fun _ _ _ hi => absurd hi not_holds_new⟩
  | call call before _ ih =>
    have h := before.agree (BufMgr.agree_new hbufs page files)
    exact (call.outcome h _).counted h ih

/-- In every run over any files: the pins of a page in the pool are those that the clients have, and while there are
some, the page stays where their pointer points to. -/
theorem pins_protect {bufs : Nat} (hbufs : 1 ≤ bufs) {page : P} {files : σ}
    (hrun : BufRun L hash (.new bufs page files) contents (fun _ _ => True) mgr clients) {i : FrameId} {f : F} {p : PageId}
    (hi : mgr.Holds i f p) :
    ((mgr.bufDescTable i).pinCnt : Int) = clients.pins (f, p) ∧ clients.pointer (f, p) = i ∧
      (0 < clients.pins (f, p) → ∀ call : BufCall F P, call ≠ .disposePage f p →
        (call.run L hash mgr clients).1.Holds i f p ∧
          ((∀ g q page', call ≠ .edit g q page') → (call.run L hash mgr clients).1.bufPool i = mgr.bufPool i)) := by
  have h := hrun.agree (BufMgr.agree_new hbufs page files)
  have hc := hrun.counted hbufs
  refine ⟨hc.pins i f p hi, hc.pointer i f p hi, fun hpins call hcall => ?_⟩
  rw [← hc.pins i f p hi] at hpins
  exact (call.outcome h clients).protects hi (Int.natCast_pos.mp hpins) hcall

/-- Page 2 of file 0 is in frame 0. -/
theorem pins_protect_small : ((smallRun.1.bufDescTable 0).pinCnt : Int) = smallRun.2.pins (0, 2) ∧
    smallRun.2.pointer (0, 2) = 0 ∧
      (0 < smallRun.2.pins (0, 2) → ∀ call : BufCall Nat Page, call ≠ .disposePage 0 2 →
        (call.run (pageFiles Nat) (fun f p => f + p) smallRun.1 smallRun.2).1.Holds 0 0 2 ∧
          ((∀ g q page', call ≠ .edit g q page') →
            (call.run (pageFiles Nat) (fun f p => f + p) smallRun.1 smallRun.2).1.bufPool 0 = smallRun.1.bufPool 0)) :=
  pins_protect (by decide) (bufRun_runCalls ..)
    ⟨by decide +kernel, by decide +kernel, by decide +kernel, by decide +kernel⟩

end Cs564.P2
