import Cs564.P2Buffer.Manager

/-!
# The hash table and the frame table agree

`Agree` says that the hash table has exactly the pages that the valid frames hold, and that an invalid frame is as
`clear` leaves it.  It is kept by the four changes that the operations are made of: another number of pins, a frame that
is vacated, a frame that is occupied, other files.
-/

namespace Cs564.P2

variable {F P σ : Type} [DecidableEq F]

namespace BufDesc

variable {F : Type}

/-- The descriptor is the one of page `p` of file `f`. -/
structure Is (desc : BufDesc F) (f : F) (p : PageId) : Prop where
  valid : desc.valid = true
  file : desc.file = some f
  pageNo : desc.pageNo = p

/-- A valid frame has a file; an invalid one has no file, no pins and no dirty bit. -/
structure Tidy (desc : BufDesc F) : Prop where
  named : desc.valid = true → ∃ f, desc.file = some f
  cleared : desc.valid = false → desc.pinCnt = 0 ∧ desc.dirty = false ∧ desc.file = none

theorem not_is_clear {f : F} {p : PageId} : ¬ (clear : BufDesc F).Is f p := fun h => Bool.false_ne_true h.valid

theorem is_Set_iff {f g : F} {p q : PageId} : (Set f p).Is g q ↔ g = f ∧ q = p := by
  constructor
  · intro h
    exact ⟨(Option.some.inj h.file).symm, h.pageNo.symm⟩
  · rintro ⟨rfl, rfl⟩
    exact ⟨rfl, rfl, rfl⟩

theorem is_congr {desc desc' : BufDesc F} (hvalid : desc'.valid = desc.valid) (hfile : desc'.file = desc.file)
    (hpage : desc'.pageNo = desc.pageNo) {f : F} {p : PageId} : desc'.Is f p ↔ desc.Is f p := by
  constructor
  · intro h
    exact ⟨hvalid ▸ h.valid, hfile ▸ h.file, hpage ▸ h.pageNo⟩
  · intro h
    exact ⟨hvalid.trans h.valid, hfile.trans h.file, hpage.trans h.pageNo⟩

theorem tidy_clear : (clear : BufDesc F).Tidy := ⟨fun h => absurd h Bool.false_ne_true, fun _ => ⟨rfl, rfl, rfl⟩⟩

theorem Is.tidy {desc : BufDesc F} {f : F} {p : PageId} (h : desc.Is f p) : desc.Tidy :=
  ⟨fun _ => ⟨f, h.file⟩, fun hinvalid => absurd (hinvalid.symm.trans h.valid) Bool.false_ne_true⟩

end BufDesc

namespace BufMgr

/-- Frame `i` holds page `p` of file `f`. -/
def Holds (mgr : BufMgr F P σ) (i : FrameId) (f : F) (p : PageId) : Prop :=
  i < mgr.numBufs ∧ (mgr.bufDescTable i).Is f p

/-- The hash table maps the pages to the frames that hold them, and the descriptors are tidy. -/
structure Agree (hash : F → PageId → Nat) (mgr : BufMgr F P σ) : Prop where
  pos : 0 < mgr.numBufs
  hand : mgr.clockHand < mgr.numBufs
  distinct : mgr.hashTable.Distinct
  entry_iff : ∀ f p i, mgr.hashTable.entry hash f p = some i ↔ mgr.Holds i f p
  tidy : ∀ i, i < mgr.numBufs → (mgr.bufDescTable i).Tidy

/-- The manager on other files. -/
def withFiles (mgr : BufMgr F P σ) (files : σ) : BufMgr F P σ := { mgr with files := files }

/-- The manager with another descriptor. -/
def withDesc (mgr : BufMgr F P σ) (i : FrameId) (desc : BufDesc F) : BufMgr F P σ :=
  { mgr with bufDescTable := Function.update mgr.bufDescTable i desc }

/-- A frame is given up. -/
def vacate (mgr : BufMgr F P σ) (i : FrameId) (table : BufHashTbl F) : BufMgr F P σ :=
  { mgr with hashTable := table, bufDescTable := Function.update mgr.bufDescTable i .clear }

/-- A page is put into a frame. -/
def occupy (mgr : BufMgr F P σ) (i : FrameId) (table : BufHashTbl F) (f : F) (p : PageId) (page : P) : BufMgr F P σ :=
  { mgr with hashTable := table
             bufDescTable := Function.update mgr.bufDescTable i (.Set f p)
             bufPool := Function.update mgr.bufPool i page }

section Holds

omit [DecidableEq F]

variable {mgr : BufMgr F P σ} {i j : FrameId} {f g : F} {p q : PageId}

/-- A descriptor is changed. -/
private theorem is_update {desc : BufDesc F} :
    (Function.update mgr.bufDescTable i desc j).Is g q ↔
      (j = i ∧ desc.Is g q) ∨ (j ≠ i ∧ (mgr.bufDescTable j).Is g q) := by
  by_cases hj : j = i
  · subst hj
    simp
  · rw [Function.update_of_ne hj]
    simp [hj]

private theorem tidy_update {desc : BufDesc F} (h : ∀ j, j < mgr.numBufs → (mgr.bufDescTable j).Tidy) (hd : desc.Tidy)
    (hj : j < mgr.numBufs) : (Function.update mgr.bufDescTable i desc j).Tidy := by
  by_cases hji : j = i
  · subst hji
    rw [Function.update_self]
    exact hd
  · rw [Function.update_of_ne hji]
    exact h j hj

/-- Another descriptor of the same page. -/
theorem holds_withDesc {desc : BufDesc F} (hvalid : desc.valid = (mgr.bufDescTable i).valid)
    (hfile : desc.file = (mgr.bufDescTable i).file) (hpage : desc.pageNo = (mgr.bufDescTable i).pageNo) :
    (mgr.withDesc i desc).Holds j g q ↔ mgr.Holds j g q := by
  refine and_congr Iff.rfl (is_update.trans ?_)
  rw [BufDesc.is_congr hvalid hfile hpage]
  by_cases hj : j = i
  · subst hj
    simp
  · simp [hj]

theorem holds_vacate {table : BufHashTbl F} : (mgr.vacate i table).Holds j g q ↔ j ≠ i ∧ mgr.Holds j g q := by
  refine (and_congr Iff.rfl is_update).trans ?_
  constructor
  · rintro ⟨hlt, ⟨-, hclear⟩ | ⟨hne, his⟩⟩
    · exact absurd hclear BufDesc.not_is_clear
    · exact ⟨hne, hlt, his⟩
  · rintro ⟨hne, hlt, his⟩
    exact ⟨hlt, .inr ⟨hne, his⟩⟩

theorem holds_occupy {table : BufHashTbl F} {page : P} (hi : i < mgr.numBufs) :
    (mgr.occupy i table f p page).Holds j g q ↔ (j = i ∧ g = f ∧ q = p) ∨ (j ≠ i ∧ mgr.Holds j g q) := by
  refine (and_congr Iff.rfl is_update).trans ?_
  rw [BufDesc.is_Set_iff]
  constructor
  · rintro ⟨hlt, ⟨hj, hkey⟩ | ⟨hne, his⟩⟩
    · exact .inl ⟨hj, hkey⟩
    · exact .inr ⟨hne, hlt, his⟩
  · rintro (⟨rfl, hkey⟩ | ⟨hne, hlt, his⟩)
    · exact ⟨hi, .inl ⟨rfl, hkey⟩⟩
    · exact ⟨hlt, .inr ⟨hne, his⟩⟩

end Holds

/-- A new manager. -/
theorem agree_new {hash : F → PageId → Nat} {bufs : Nat} (hbufs : 1 ≤ bufs) (page : P) (files : σ) :
    (BufMgr.new bufs page files : BufMgr F P σ).Agree hash where
  pos := hbufs
  hand := Nat.sub_lt hbufs Nat.one_pos
  distinct := BufHashTbl.distinct_new _
  entry_iff f p i := by
    constructor
    · intro h
      rw [BufMgr.new, BufHashTbl.entry_new] at h
      cases h
    · rintro ⟨-, his⟩
      exact absurd his BufDesc.not_is_clear
  tidy _ _ := BufDesc.tidy_clear

namespace Agree

variable {hash : F → PageId → Nat} {mgr : BufMgr F P σ} (h : mgr.Agree hash)
include h

/-- Two frames do not hold the same page. -/
theorem unique {i j : FrameId} {f : F} {p : PageId} (hi : mgr.Holds i f p) (hj : mgr.Holds j f p) : i = j := by
  have hentry := (h.entry_iff f p i).mpr hi
  rw [(h.entry_iff f p j).mpr hj] at hentry
  exact (Option.some.inj hentry).symm

theorem entry_none_iff {f : F} {p : PageId} : mgr.hashTable.entry hash f p = none ↔ ∀ i, ¬ mgr.Holds i f p := by
  rw [Option.eq_none_iff_forall_not_mem]
  exact forall_congr' fun i => not_congr (h.entry_iff f p i)

theorem lookup_some {i : FrameId} {f : F} {p : PageId} (hi : mgr.Holds i f p) :
    mgr.hashTable.lookup hash f p = .ok i := by
  rw [BufHashTbl.lookup_eq, (h.entry_iff f p i).mpr hi]

theorem lookup_none {f : F} {p : PageId} (hno : ∀ i, ¬ mgr.Holds i f p) :
    mgr.hashTable.lookup hash f p = .error (.hashNotFound f p) := by
  rw [BufHashTbl.lookup_eq, h.entry_none_iff.mpr hno]

/-- Other files. -/
theorem withFiles (files : σ) : (mgr.withFiles files).Agree hash := ⟨h.pos, h.hand, h.distinct, h.entry_iff, h.tidy⟩

/-- Another page in an object of the pool. -/
theorem withPool (pool : FrameId → P) : ({ mgr with bufPool := pool } : BufMgr F P σ).Agree hash :=
  ⟨h.pos, h.hand, h.distinct, h.entry_iff, h.tidy⟩

/-- Another descriptor of the page that a frame holds. -/
theorem withDesc {i : FrameId} {f : F} {p : PageId} (hi : mgr.Holds i f p) {desc : BufDesc F} (hdesc : desc.Is f p) :
    (mgr.withDesc i desc).Agree hash where
  pos := h.pos
  hand := h.hand
  distinct := h.distinct
  entry_iff g q j := by
    refine (h.entry_iff g q j).trans (holds_withDesc ?_ ?_ ?_).symm
    · exact hdesc.valid.trans hi.2.valid.symm
    · exact hdesc.file.trans hi.2.file.symm
    · exact hdesc.pageNo.trans hi.2.pageNo.symm
  tidy _ hj := tidy_update h.tidy hdesc.tidy hj

/-- A frame is given up. -/
theorem vacate {i : FrameId} {f : F} {p : PageId} (hi : mgr.Holds i f p) :
    ∃ table, mgr.hashTable.remove hash f p = .ok table ∧ (mgr.vacate i table).Agree hash := by
  obtain ⟨table, hremove, hdistinct, hentry⟩ := BufHashTbl.remove_ok h.distinct ((h.entry_iff f p i).mpr hi)
  refine ⟨table, hremove, h.pos, h.hand, hdistinct, fun g q j => ?_, fun _ hj => tidy_update h.tidy BufDesc.tidy_clear hj⟩
  rw [holds_vacate]
  change table.entry hash g q = some j ↔ _
  rw [hentry]
  by_cases hkey : g = f ∧ q = p
  · obtain ⟨rfl, rfl⟩ := hkey
    rw [if_pos ⟨rfl, rfl⟩]
    constructor
    · intro hnone
      cases hnone
    · rintro ⟨hne, hj⟩
      exact absurd (h.unique hj hi) hne
  · rw [if_neg hkey, h.entry_iff]
    constructor
    · intro hj
      refine ⟨?_, hj⟩
      rintro rfl
      exact hkey ⟨Option.some.inj (hj.2.file.symm.trans hi.2.file), hj.2.pageNo.symm.trans hi.2.pageNo⟩
    · exact And.right

/-- A page that no frame holds is put into an invalid frame. -/
theorem occupy {i : FrameId} (hi : i < mgr.numBufs) (hinvalid : (mgr.bufDescTable i).valid = false) {f : F} {p : PageId}
    (hno : ∀ j, ¬ mgr.Holds j f p) (page : P) :
    ∃ table, mgr.hashTable.insert hash f p i = .ok table ∧ (mgr.occupy i table f p page).Agree hash := by
  obtain ⟨table, hinsert, hdistinct, hentry⟩ := BufHashTbl.insert_ok h.distinct (h.entry_none_iff.mpr hno) i
  refine ⟨table, hinsert, h.pos, h.hand, hdistinct, fun g q j => ?_,
    fun _ hj => tidy_update h.tidy (BufDesc.is_Set_iff.mpr ⟨rfl, rfl⟩).tidy hj⟩
  rw [holds_occupy hi]
  change table.entry hash g q = some j ↔ _
  rw [hentry]
  by_cases hkey : g = f ∧ q = p
  · rw [if_pos hkey]
    constructor
    · intro hij
      exact .inl ⟨(Option.some.inj hij).symm, hkey⟩
    · rintro (⟨rfl, -⟩ | ⟨-, hj⟩)
      · rfl
      · obtain ⟨rfl, rfl⟩ := hkey
        exact absurd hj (hno j)
  · rw [if_neg hkey, h.entry_iff]
    constructor
    · intro hj
      refine .inr ⟨?_, hj⟩
      rintro rfl
      exact Bool.false_ne_true (hinvalid.symm.trans hj.2.valid)
    · rintro (⟨-, hgf⟩ | ⟨-, hj⟩)
      · exact absurd hgf hkey
      · exact hj

end Agree

end BufMgr

end Cs564.P2
