import Cs564.P2Buffer.Pins

/-!
# No update is lost

Over a faithful page store (`FileLayer.Faithful`) a frame has the contents of its page after all changes, and the store
has the contents of every page that is not in the pool, or is in the pool and neither dirty nor changed after the last
`unPinPage` that marked it as dirty (`Kept`).  This needs of the clients that they change a page while they have a pin of
it, and do not give back the last pin as clean after a change (`BufCall.Disciplined`).
-/

namespace Cs564.P2

variable {F P σ : Type} [DecidableEq F]

/-- The files are a page store: `store` gives the page under a file and a number.  A call that returns does its work, one
that throws changes nothing, and a page that is there can be deleted. -/
structure FileLayer.Faithful (L : FileLayer F P σ) (store : σ → F × PageId → Option P) : Prop where
  number : ∀ {files f p page}, store files (f, p) = some page → L.page_number page = p
  readPage : ∀ {files files' f p page}, L.readPage f p files = .ok page files' →
    store files (f, p) = some page ∧ store files' = store files
  writePage : ∀ {files files' f page}, L.writePage f page files = .ok () files' →
    store files' = Function.update (store files) (f, L.page_number page) (some page)
  allocatePage : ∀ {files files' f page}, L.allocatePage f files = .ok page files' →
    store files (f, L.page_number page) = none ∧
      store files' = Function.update (store files) (f, L.page_number page) (some page)
  deletePage : ∀ {files files' f p}, L.deletePage f p files = .ok () files' →
    store files' = Function.update (store files) (f, p) none
  throws : ∀ {files files'}, L.Fails files files' → store files' = store files
  deletes : ∀ {files f p}, store files (f, p) ≠ none → ∃ files', L.deletePage f p files = .ok () files'

/-- A page is changed while it has a pin and keeps its number, and the last pin of a page that was changed is given back
with the dirty mark: whoever changed the page has a pin until then. -/
def BufCall.Disciplined (L : FileLayer F P σ) (clients : Clients F P) : BufCall F P → Prop
  | edit f p page => 0 < clients.pins (f, p) ∧ L.page_number page = p
  | unPinPage f p dirty => dirty = false → clients.pending (f, p) = true → 1 < clients.pins (f, p)
  | readPage _ _ => True
  | allocPage _ => True
  | flushFile _ => True
  | disposePage _ _ => True

open BufMgr

/-- The pool and the store have the contents of page `p` of file `f`. -/
structure KeptAt (L : FileLayer F P σ) (store : σ → F × PageId → Option P) (mgr : BufMgr F P σ) (clients : Clients F P)
    (f : F) (p : PageId) : Prop where
  held : 0 < clients.pins (f, p) → mgr.Holds (clients.pointer (f, p)) f p
  pending : clients.pending (f, p) = true → 0 < clients.pins (f, p)
  number : ∀ i, mgr.Holds i f p → L.page_number (mgr.bufPool i) = p
  page : ∀ i, mgr.Holds i f p → clients.contents (f, p) = some (mgr.bufPool i)
  live : ∀ i, mgr.Holds i f p → store mgr.files (f, p) ≠ none
  clean : ∀ i, mgr.Holds i f p → (mgr.bufDescTable i).dirty = false → clients.pending (f, p) = false →
    store mgr.files (f, p) = clients.contents (f, p)
  absent : (∀ i, ¬ mgr.Holds i f p) → store mgr.files (f, p) = clients.contents (f, p)

/-- The pool and the store have the contents of all pages. -/
def Kept (L : FileLayer F P σ) (store : σ → F × PageId → Option P) (mgr : BufMgr F P σ) (clients : Clients F P) : Prop :=
  ∀ f p, KeptAt L store mgr clients f p

/-- The clients know the same of the page. -/
structure Clients.SameAt (clients clients' : Clients F P) (key : F × PageId) : Prop where
  pins : clients'.pins key = clients.pins key
  pointer : clients'.pointer key = clients.pointer key
  contents : clients'.contents key = clients.contents key
  pending : clients'.pending key = clients.pending key

variable {L : FileLayer F P σ} {store : σ → F × PageId → Option P} {hash : F → PageId → Nat} {mgr mgr' : BufMgr F P σ}
  {clients clients' : Clients F P}

omit [DecidableEq F] in
theorem Clients.SameAt.refl (key : F × PageId) : clients.SameAt clients key := ⟨rfl, rfl, rfl, rfl⟩

omit [DecidableEq F] in
/-- A page that is not concerned. -/
theorem KeptAt.congr {f : F} {p : PageId} (hk : KeptAt L store mgr clients f p)
    (hholds : ∀ i, mgr'.Holds i f p ↔ mgr.Holds i f p) (hsame : ∀ i, mgr'.Holds i f p → mgr.SameFrame mgr' i)
    (hstore : store mgr'.files (f, p) = store mgr.files (f, p)) (hclients : clients.SameAt clients' (f, p)) :
    KeptAt L store mgr' clients' f p where
  held hpins := by
    rw [hclients.pins] at hpins
    rw [hclients.pointer, hholds]
    exact hk.held hpins
  pending hpending := by
    rw [hclients.pending] at hpending
    rw [hclients.pins]
    exact hk.pending hpending
  number i hi := by
    rw [(hsame i hi).page]
    exact hk.number i ((hholds i).mp hi)
  page i hi := by
    rw [(hsame i hi).page, hclients.contents]
    exact hk.page i ((hholds i).mp hi)
  live i hi := by
    rw [hstore]
    exact hk.live i ((hholds i).mp hi)
  clean i hi hdirty hpending := by
    rw [(hsame i hi).dirty] at hdirty
    rw [hclients.pending] at hpending
    rw [hstore, hclients.contents]
    exact hk.clean i ((hholds i).mp hi) hdirty hpending
  absent hno := by
    rw [hstore, hclients.contents]
    exact hk.absent fun i hi => hno i ((hholds i).mpr hi)

/-- The store has the contents of a page that is written if it is dirty. -/
theorem KeptAt.written (hL : L.Faithful store) {i : FrameId} {f : F} {p : PageId} (hk : KeptAt L store mgr clients f p)
    {files : σ} (hi : mgr.Holds i f p) (hpending : clients.pending (f, p) = false) (hwritten : mgr.Written L i f files) :
    store files (f, p) = clients.contents (f, p) ∧ ∀ key, key ≠ (f, p) → store files key = store mgr.files key := by
  unfold Written at hwritten
  by_cases hdirty : (mgr.bufDescTable i).dirty = true
  · rw [if_pos hdirty] at hwritten
    have hstore := hL.writePage hwritten
    rw [hk.number i hi] at hstore
    constructor
    · rw [hstore, Function.update_self]
      exact (hk.page i hi).symm
    · intro key hkey
      rw [hstore, Function.update_of_ne hkey]
  · rw [if_neg hdirty] at hwritten
    rw [hwritten]
    exact ⟨hk.clean i hi (Bool.eq_false_iff.mpr hdirty) hpending, fun _ _ => rfl⟩

omit [DecidableEq F] in
/-- A page without pins that leaves the pool, with its contents in the store. -/
theorem KeptAt.of_absent {f : F} {p : PageId} (hno : ∀ i, ¬ mgr'.Holds i f p) (hpins : clients'.pins (f, p) ≤ 0)
    (hpending : clients'.pending (f, p) = true → 0 < clients'.pins (f, p))
    (hstore : store mgr'.files (f, p) = clients'.contents (f, p)) : KeptAt L store mgr' clients' f p where
  held hpos := absurd hpos (Int.not_lt.mpr hpins)
  pending := hpending
  number i hi := absurd hi (hno i)
  page i hi := absurd hi (hno i)
  live i hi := absurd hi (hno i)
  clean i hi := absurd hi (hno i)
  absent _ := hstore

/-- Pages other than the one of a frame that is vacated. -/
private theorem vacate_others (h : mgr.Agree hash) {i : FrameId} {f g : F} {p q : PageId} (hi : mgr.Holds i f p)
    (table : BufHashTbl F) (files : σ) (hne : (g, q) ≠ (f, p)) :
    (∀ j, ((mgr.vacate i table).withFiles files).Holds j g q ↔ mgr.Holds j g q) ∧
      ∀ j, ((mgr.vacate i table).withFiles files).Holds j g q →
        mgr.SameFrame ((mgr.vacate i table).withFiles files) j := by
  obtain ⟨-, hkeep⟩ := vacate_keeps h hi table files
  refine ⟨fun j => ⟨fun hj => (hkeep j g q hj).1, fun hj => ?_⟩, fun j hj => (hkeep j g q hj).2⟩
  have hvacated : (mgr.vacate i table).Holds j g q := by
    refine holds_vacate.mpr ⟨?_, hj⟩
    rintro rfl
    exact hne (hi.2.unique hj.2)
  exact hvacated

/-- One quiet step. -/
theorem Kept.quiet (hL : L.Faithful store) (h : mgr.Agree hash) (hc : Counted mgr clients) (hk : Kept L store mgr clients)
    (hq : Quiet L hash mgr mgr') : Kept L store mgr' clients := by
  intro g q
  cases hq with
  | touched t =>
    refine (hk g q).congr (fun i => t.holds_iff) (fun i _ => ?_) (by rw [t.files]) (.refl _)
    exact ⟨by rw [t.desc i], by rw [t.desc i], by rw [t.bufPool]⟩
  | @evicted i f p files table holds unpinned written removed =>
    have hpins : clients.pins (f, p) = 0 := by
      rw [← hc.pins i f p holds, unpinned]
      rfl
    have hpending : clients.pending (f, p) = false := by
      rw [← Bool.not_eq_true]
      intro hpending
      exact absurd ((hk f p).pending hpending) (hpins ▸ Int.lt_irrefl 0)
    obtain ⟨hself, hothers⟩ := (hk f p).written hL holds hpending written
    by_cases heq : (g, q) = (f, p)
    · obtain ⟨rfl, rfl⟩ := Prod.mk.inj heq
      exact .of_absent (vacate_keeps h holds table files).1 (Int.le_of_eq hpins) (hk g q).pending hself
    · obtain ⟨hholds, hsame⟩ := vacate_others h holds table files heq
      exact (hk g q).congr hholds hsame (hothers _ heq) (.refl _)
  | failed fails =>
    exact (hk g q).congr (fun _ => Iff.rfl) (fun _ _ => ⟨rfl, rfl, rfl⟩) (congrFun (hL.throws fails) _) (.refl _)
  | orphan invalid run holds => exact absurd (hL.allocatePage run).1 ((hk _ _).live _ holds)

/-- Quiet steps. -/
theorem Kept.quietSteps (hL : L.Faithful store) (h : mgr.Agree hash) (hc : Counted mgr clients)
    (hk : Kept L store mgr clients) (hq : QuietSteps L hash mgr mgr') : Kept L store mgr' clients := by
  induction hq with
  | refl => exact hk
  | tail hsteps hstep ih => exact ih.quiet hL (QuietSteps.agree hsteps h) (hc.quiet hsteps) hstep

/-- A page is put into a frame, with one pin. -/
theorem Kept.occupy (hk : Kept L store mgr clients) {i : FrameId} {f : F} {p : PageId} {table : BufHashTbl F} {page : P}
    {files : σ} (loads : Loads hash mgr i f p table) (hpins : clients'.pins (f, p) = 1)
    (hpointer : clients'.pointer (f, p) = i) (hnumber : L.page_number page = p)
    (hcontents : clients'.contents (f, p) = some page)
    (hstore : store files (f, p) = some page) (hclients : ∀ key, key ≠ (f, p) → clients.SameAt clients' key)
    (hothers : ∀ key, key ≠ (f, p) → store files key = store mgr.files key) :
    Kept L store ((mgr.withFiles files).occupy i table f p page) clients' := by
  have hlt : i < (mgr.withFiles files).numBufs := loads.lt
  have hself : ((mgr.withFiles files).occupy i table f p page).bufPool i = page := Function.update_self ..
  have hholds : ((mgr.withFiles files).occupy i table f p page).Holds i f p := (holds_occupy hlt).mpr (.inl ⟨rfl, rfl, rfl⟩)
  have hframe : ∀ j, ((mgr.withFiles files).occupy i table f p page).Holds j f p → j = i := by
    intro j hj
    rcases (holds_occupy hlt).mp hj with ⟨rfl, -, -⟩ | ⟨-, hj⟩
    · rfl
    · exact absurd hj (loads.absent j)
  intro g q
  by_cases heq : (g, q) = (f, p)
  · obtain ⟨rfl, rfl⟩ := Prod.mk.inj heq
    constructor
    · intro _
      rw [hpointer]
      exact hholds
    · intro _
      rw [hpins]
      exact Int.one_pos
    · intro j hj
      rw [hframe j hj, hself]
      exact hnumber
    · intro j hj
      rw [hframe j hj, hself]
      exact hcontents
    · intro j _ hnone
      exact Option.some_ne_none page (hstore.symm.trans hnone)
    · intro j _ _ _
      exact hstore.trans hcontents.symm
    · intro hno
      exact absurd hholds (hno i)
  · have hiff : ∀ j, ((mgr.withFiles files).occupy i table f p page).Holds j g q ↔ mgr.Holds j g q := by
      intro j
      rw [holds_occupy hlt]
      constructor
      · rintro (⟨-, rfl, rfl⟩ | ⟨-, hj⟩)
        · exact absurd rfl heq
        · exact hj
      · intro hj
        refine .inr ⟨?_, hj⟩
        rintro rfl
        exact Bool.false_ne_true (loads.invalid.symm.trans hj.2.valid)
    refine (hk g q).congr hiff (fun j hj => ?_) (hothers _ heq) (hclients _ heq)
    have hji : j ≠ i := by
      rintro rfl
      exact Bool.false_ne_true (loads.invalid.symm.trans ((hiff j).mp hj).2.valid)
    have hsame : (mgr.withFiles files).SameFrame ((mgr.withFiles files).occupy i table f p page) j :=
      occupy_same table page hji
    exact ⟨hsame.pinCnt, hsame.dirty, hsame.page⟩

/-- The pins of a page in the pool change. -/
theorem Kept.withDesc (hk : Kept L store mgr clients) (h : mgr.Agree hash) {i : FrameId} {f : F} {p : PageId}
    (hi : mgr.Holds i f p) {desc : BufDesc F} (hdesc : desc.Is f p)
    (hheld : 0 < clients'.pins (f, p) → clients'.pointer (f, p) = i)
    (hpending : clients'.pending (f, p) = true → 0 < clients'.pins (f, p))
    (hcontents : clients'.contents (f, p) = clients.contents (f, p))
    (hclean : desc.dirty = false → clients'.pending (f, p) = false →
      (mgr.bufDescTable i).dirty = false ∧ clients.pending (f, p) = false)
    (hclients : ∀ key, key ≠ (f, p) → clients.SameAt clients' key) : Kept L store (mgr.withDesc i desc) clients' := by
  have hholds : ∀ j g q, (mgr.withDesc i desc).Holds j g q ↔ mgr.Holds j g q := by
    intro j g q
    refine holds_withDesc ?_ ?_ ?_
    · exact hdesc.valid.trans hi.2.valid.symm
    · exact hdesc.file.trans hi.2.file.symm
    · exact hdesc.pageNo.trans hi.2.pageNo.symm
  intro g q
  by_cases heq : (g, q) = (f, p)
  · obtain ⟨rfl, rfl⟩ := Prod.mk.inj heq
    constructor
    · intro hpins
      rw [hheld hpins]
      exact (hholds i g q).mpr hi
    · exact hpending
    · intro j hj
      exact (hk g q).number j ((hholds j g q).mp hj)
    · intro j hj
      rw [hcontents]
      exact (hk g q).page j ((hholds j g q).mp hj)
    · intro j hj
      exact (hk g q).live j ((hholds j g q).mp hj)
    · intro j hj hdirty hclean'
      obtain rfl := h.unique ((hholds j g q).mp hj) hi
      rw [withDesc_self] at hdirty
      obtain ⟨hdirty, hclean'⟩ := hclean hdirty hclean'
      rw [hcontents]
      exact (hk g q).clean j hi hdirty hclean'
    · intro hno
      exact absurd ((hholds i g q).mpr hi) (hno i)
  · refine (hk g q).congr (fun j => hholds j g q) (fun j hj => ?_) rfl (hclients _ heq)
    have hji : j ≠ i := by
      rintro rfl
      exact heq (hi.2.unique ((hholds j g q).mp hj).2)
    exact ⟨by rw [withDesc_desc desc hji], by rw [withDesc_desc desc hji], rfl⟩

/-- A page that is deleted. -/
private theorem Kept.disposed (hL : L.Faithful store) (hk : Kept L store mgr clients) {f : F} {p : PageId} {files : σ}
    (run : L.deletePage f p mgr.files = .ok () files) (hfiles : mgr'.files = files) (hno : ∀ i, ¬ mgr'.Holds i f p)
    (hkeep : ∀ g q, (g, q) ≠ (f, p) → (∀ i, mgr'.Holds i g q ↔ mgr.Holds i g q) ∧
      ∀ i, mgr'.Holds i g q → mgr.SameFrame mgr' i) : Kept L store mgr' (clients.disposed f p) := by
  have hstore := hL.deletePage run
  intro g q
  by_cases heq : (g, q) = (f, p)
  · obtain ⟨rfl, rfl⟩ := Prod.mk.inj heq
    refine .of_absent hno ?_ (fun hpending => ?_) ?_
    · exact Int.le_of_eq (Function.update_self ..)
    · have hfalse : (clients.disposed g q).pending (g, q) = false := Function.update_self ..
      exact absurd (hfalse.symm.trans hpending) Bool.false_ne_true
    · rw [hfiles, hstore, Function.update_self]
      have hnone : (clients.disposed g q).contents (g, q) = none := Function.update_self ..
      exact hnone.symm
  · obtain ⟨hholds, hsame⟩ := hkeep g q heq
    refine (hk g q).congr hholds hsame ?_ ?_
    · rw [hfiles, hstore, Function.update_of_ne heq]
    · exact ⟨Function.update_of_ne heq .., rfl, Function.update_of_ne heq .., Function.update_of_ne heq ..⟩

/-- Pages that the call does not concern. -/
theorem Clients.sameAt_took {f : F} {p : PageId} {i : FrameId} {cached : Bool} {key : F × PageId}
    (hkey : key ≠ (f, p)) : clients.SameAt (clients.took f p i cached) key :=
  ⟨Function.update_of_ne hkey .., Function.update_of_ne hkey .., rfl, rfl⟩

theorem Clients.sameAt_gaveBack {f : F} {p : PageId} {dirty : Bool} {key : F × PageId} (hkey : key ≠ (f, p)) :
    clients.SameAt (clients.gaveBack f p dirty) key := by
  refine ⟨Function.update_of_ne hkey .., rfl, rfl, ?_⟩
  cases dirty
  · rfl
  · exact Function.update_of_ne hkey ..

/-- A pin on a page that is not in the pool is given back. -/
private theorem Kept.gaveBackAbsent (hk : Kept L store mgr clients) {f : F} {p : PageId} {dirty : Bool}
    (absent : ∀ i, ¬ mgr.Holds i f p) : Kept L store mgr (clients.gaveBack f p dirty) := by
  have hzero : clients.pins (f, p) ≤ 0 := Int.not_lt.mp fun hpos => absent _ ((hk f p).held hpos)
  have hpins : (clients.gaveBack f p dirty).pins (f, p) = clients.pins (f, p) - 1 := Function.update_self ..
  intro g q
  by_cases heq : (g, q) = (f, p)
  · obtain ⟨rfl, rfl⟩ := Prod.mk.inj heq
    refine .of_absent absent (by rw [hpins]; omega) (fun hpending => ?_) ((hk g q).absent absent)
    cases dirty with
    | true =>
      have hfalse : (clients.gaveBack g q true).pending (g, q) = false := Function.update_self ..
      exact absurd (hfalse.symm.trans hpending) Bool.false_ne_true
    | false => exact absurd ((hk g q).pending hpending) (Int.not_lt.mpr hzero)
  · exact (hk g q).congr (fun _ => Iff.rfl) (fun _ _ => ⟨rfl, rfl, rfl⟩) rfl (Clients.sameAt_gaveBack heq)

/-- A page is changed through its pointer. -/
private theorem Kept.edited (hk : Kept L store mgr clients) (h : mgr.Agree hash) {f : F} {p : PageId} {page : P}
    (hpins : 0 < clients.pins (f, p)) (hnumber : L.page_number page = p) :
    Kept L store { mgr with bufPool := Function.update mgr.bufPool (clients.pointer (f, p)) page }
      (clients.edited f p page) := by
  have hi := (hk f p).held hpins
  intro g q
  by_cases heq : (g, q) = (f, p)
  · obtain ⟨rfl, rfl⟩ := Prod.mk.inj heq
    have hframe : ∀ j, mgr.Holds j g q → j = clients.pointer (g, q) := fun j hj => h.unique hj hi
    have hself : Function.update mgr.bufPool (clients.pointer (g, q)) page (clients.pointer (g, q)) = page :=
      Function.update_self ..
    constructor
    · exact fun _ => hi
    · exact fun _ => hpins
    · intro j hj
      rw [hframe j hj]
      exact (congrArg L.page_number hself).trans hnumber
    · intro j hj
      rw [hframe j hj]
      exact (Function.update_self ..).trans (congrArg some hself.symm)
    · exact fun j hj => (hk g q).live j hj
    · intro j _ _ hpending
      have htrue : (clients.edited g q page).pending (g, q) = true := Function.update_self ..
      exact absurd (hpending.symm.trans htrue) Bool.false_ne_true
    · exact fun hno => absurd hi (hno _)
  · refine (hk g q).congr (fun _ => Iff.rfl) (fun j hj => ⟨rfl, rfl, ?_⟩) rfl
      ⟨rfl, rfl, Function.update_of_ne heq .., Function.update_of_ne heq ..⟩
    refine Function.update_of_ne ?_ ..
    rintro rfl
    exact heq (hi.2.unique hj.2)

/-- One call of disciplined clients. -/
theorem Outcome.kept {call : BufCall F P} (hL : L.Faithful store) (h : mgr.Agree hash) (hc : Counted mgr clients)
    (hk : Kept L store mgr clients) (hd : call.Disciplined L clients)
    (ho : Outcome L hash mgr clients call mgr' clients') : Kept L store mgr' clients' := by
  cases ho with
  | quiet steps => exact hk.quietSteps hL h hc steps
  | @pinned i f p holds =>
    refine hk.withDesc h holds ⟨holds.2.valid, holds.2.file, holds.2.pageNo⟩ (fun _ => Function.update_self ..) ?_ rfl
      (fun hdirty hpending => ⟨hdirty, hpending⟩) fun key hkey => Clients.sameAt_took hkey
    intro hpending
    have hpos := (hk f p).pending hpending
    have hpins : (clients.took f p i true).pins (f, p) = clients.pins (f, p) + 1 := Function.update_self ..
    rw [hpins]
    exact Int.lt_add_one_of_le (Int.le_of_lt hpos)
  | @read mgr₁ i f p page files table absent steps run loads =>
    have hk₁ := hk.quietSteps hL h hc steps
    obtain ⟨hpage, hstore⟩ := hL.readPage run
    refine hk₁.occupy loads (Function.update_self ..) (Function.update_self ..) (hL.number hpage) ?_ ?_
      (fun key hkey => Clients.sameAt_took hkey) (fun key _ => congrFun hstore key)
    · exact ((hk₁ f p).absent loads.absent).symm.trans hpage
    · exact (congrFun hstore _).trans hpage
  | @allocated mgr₁ i f page files table steps run loads =>
    have hk₁ := hk.quietSteps hL h hc steps
    obtain ⟨-, hstore⟩ := hL.allocatePage run
    refine hk₁.occupy loads ?_ (Function.update_self ..) rfl (Function.update_self ..) ?_
      (fun key hkey => ?_) fun key hkey => ?_
    · have htook := hc.took_one steps loads.absent
      rw [← htook]
      exact Function.update_self ..
    · rw [hstore, Function.update_self]
    · have htook : clients.SameAt (clients.took f (L.page_number page) i (mgr.cached f (L.page_number page))) key :=
        Clients.sameAt_took hkey
      exact ⟨htook.pins, htook.pointer, Function.update_of_ne hkey .., Function.update_of_ne hkey ..⟩
    · rw [hstore, Function.update_of_ne hkey]
  | @unpinned i f p dirty holds pins =>
    have hpins : (clients.gaveBack f p dirty).pins (f, p) = clients.pins (f, p) - 1 := Function.update_self ..
    refine hk.withDesc h holds ⟨holds.2.valid, holds.2.file, holds.2.pageNo⟩ (fun _ => hc.pointer i f p holds)
      (fun hpending => ?_) rfl (fun hdirty hpending => ?_) fun key hkey => Clients.sameAt_gaveBack hkey
    · rw [hpins]
      cases dirty with
      | true =>
        have hfalse : (clients.gaveBack f p true).pending (f, p) = false := Function.update_self ..
        exact absurd (hfalse.symm.trans hpending) Bool.false_ne_true
      | false => exact Int.sub_pos_of_lt (hd rfl hpending)
    · cases dirty with
      | true => exact absurd hdirty.symm Bool.false_ne_true
      | false => exact ⟨hdirty, hpending⟩
  | unpinnedAbsent absent => exact hk.gaveBackAbsent absent
  | disposed holds removed run =>
    exact hk.disposed hL run rfl (vacate_keeps h holds _ _).1 fun g q hne => vacate_others h holds _ _ hne
  | disposedAbsent absent run =>
    exact hk.disposed hL run rfl absent fun g q _ => ⟨fun _ => Iff.rfl, fun _ _ => ⟨rfl, rfl, rfl⟩⟩
  | dropped holds removed run =>
    obtain ⟨files, hdelete⟩ := hL.deletes ((hk _ _).live _ holds)
    rw [run] at hdelete
    cases hdelete
  | edited => exact hk.edited h hd.1 hd.2

/-- In every run of disciplined clients the contents are kept. -/
theorem BufRun.kept (hL : L.Faithful store) {bufs : Nat} (hbufs : 1 ≤ bufs) {page : P} {files : σ}
    (hrun : BufRun L hash (.new bufs page files) (store files) (fun clients call => call.Disciplined L clients) mgr
      clients) : Kept L store mgr clients := by
  induction hrun with
  | start =>
    exact fun f p => .of_absent (fun i hi => not_holds_new hi) (Int.le_refl 0)
      (fun hpending => absurd hpending Bool.false_ne_true) rfl
  | call call before hd ih =>
    have h := before.agree (BufMgr.agree_new hbufs page files)
    exact (call.outcome h _).kept hL h (before.counted hbufs) ih hd

/-- In every run of disciplined clients over a page store: the page that `readPage` gives has the contents after all
changes, and when `flushFile` returns the store has those contents for every page of the file. -/
theorem no_update_lost (hL : L.Faithful store) {bufs : Nat} (hbufs : 1 ≤ bufs) {page : P} {files : σ}
    (hrun : BufRun L hash (.new bufs page files) (store files) (fun clients call => call.Disciplined L clients) mgr
      clients) :
    (∀ f p fid mgr', readPage L hash f p mgr = .ok fid mgr' → clients.contents (f, p) = some (mgr'.bufPool fid)) ∧
      ∀ (f : F) mgr', flushFile L hash f mgr = .ok () mgr' → ∀ p, store mgr'.files (f, p) = clients.contents (f, p) := by
  have h := hrun.agree (BufMgr.agree_new hbufs page files)
  have hc := hrun.counted hbufs
  have hk := hrun.kept hL hbufs
  constructor
  · intro f p fid mgr' hread
    rcases readPage_cases (L := L) h f p with
      ⟨i, hi, hpin⟩ | ⟨-, ⟨e, mgr₁, hthrow, -⟩ | ⟨mgr₁, i, page, files, table, hq, hfile, hload, hloaded⟩⟩
    · rw [hpin] at hread
      obtain ⟨rfl, rfl⟩ := EStateM.Result.ok.inj hread
      exact (hk f p).page i hi
    · rw [hthrow] at hread
      cases hread
    · rw [hloaded] at hread
      obtain ⟨rfl, rfl⟩ := EStateM.Result.ok.inj hread
      have hpage : ((mgr₁.withFiles files).occupy i table f p page).bufPool i = page := Function.update_self ..
      rw [hpage, ← (hk.quietSteps hL h hc hq f p).absent hload.absent]
      exact (hL.readPage hfile).1
  · intro f mgr' hflush p
    rcases flushFile_quiet (L := L) h f with ⟨e, mgr₁, hthrow, -⟩ | ⟨_, mgr₁, hdone, hq, hno⟩
    · rw [hthrow] at hflush
      cases hflush
    · rw [hdone] at hflush
      obtain ⟨-, rfl⟩ := EStateM.Result.ok.inj hflush
      exact (hk.quietSteps hL h hc hq f p).absent fun i => hno i p

/-! ### A page store -/

/-- The pages of all files by their bodies, and the number of the next page. -/
structure Disk (F B : Type) where
  bodies : F × PageId → Option B
  next : PageId

/-- A disk as files; a page is its number and its body. -/
def diskFiles (F B : Type) [DecidableEq F] (body : B) : FileLayer F (PageId × B) (Disk F B) where
  readPage f p := fun disk =>
    match disk.bodies (f, p) with
    | some b => .ok (p, b) disk
    | none => .error (.invalidPage p) disk
  writePage f page := fun disk =>
    .ok () { disk with bodies := Function.update disk.bodies (f, page.1) (some page.2) }
  allocatePage f := fun disk =>
    match disk.bodies (f, disk.next) with
    | some _ => .error .assertion disk
    | none =>
      .ok (disk.next, body)
        { bodies := Function.update disk.bodies (f, disk.next) (some body), next := disk.next + 1 }
  deletePage f p := fun disk =>
    match disk.bodies (f, p) with
    | some _ => .ok () { disk with bodies := Function.update disk.bodies (f, p) none }
    | none => .error (.invalidPage p) disk
  page_number := Prod.fst

/-- The pages on a disk. -/
def Disk.pages {F B : Type} (disk : Disk F B) (key : F × PageId) : Option (PageId × B) :=
  (disk.bodies key).map fun b => (key.2, b)

private theorem pages_update {B : Type} (bodies : F × PageId → Option B) (next : PageId) (f : F) (p : PageId)
    (body : Option B) : (Disk.mk (Function.update bodies (f, p) body) next).pages =
      Function.update (Disk.mk bodies next).pages (f, p) (body.map fun b => (p, b)) := by
  funext key
  by_cases hkey : key = (f, p)
  · subst hkey
    rw [Function.update_self, Disk.pages]
    exact congrArg (Option.map fun b => (p, b)) (Function.update_self ..)
  · rw [Function.update_of_ne hkey, Disk.pages]
    exact congrArg (Option.map fun b => (key.2, b)) (Function.update_of_ne hkey ..)

/-- A failed call leaves the disk as it is. -/
private theorem diskFiles_throws {F B : Type} [DecidableEq F] (body : B) {disk disk' : Disk F B}
    (hfails : (diskFiles F B body).Fails disk disk') : disk'.pages = disk.pages := by
  cases hfails with
  | readPage f p e hrun =>
    cases hbody : disk.bodies (f, p) with
    | none =>
      simp only [diskFiles, hbody] at hrun
      obtain ⟨-, rfl⟩ := EStateM.Result.error.inj hrun
      rfl
    | some b =>
      simp only [diskFiles, hbody] at hrun
      cases hrun
  | writePage f page e hrun => cases hrun
  | allocatePage f e hrun =>
    cases hbody : disk.bodies (f, disk.next) with
    | none =>
      simp only [diskFiles, hbody] at hrun
      cases hrun
    | some b =>
      simp only [diskFiles, hbody] at hrun
      obtain ⟨-, rfl⟩ := EStateM.Result.error.inj hrun
      rfl
  | deletePage f p e hrun =>
    cases hbody : disk.bodies (f, p) with
    | none =>
      simp only [diskFiles, hbody] at hrun
      obtain ⟨-, rfl⟩ := EStateM.Result.error.inj hrun
      rfl
    | some b =>
      simp only [diskFiles, hbody] at hrun
      cases hrun

theorem diskFiles_faithful (F B : Type) [DecidableEq F] (body : B) : (diskFiles F B body).Faithful Disk.pages where
  number := by
    intro disk f p page hpage
    obtain ⟨b, -, rfl⟩ := Option.map_eq_some_iff.mp hpage
    rfl
  readPage := by
    intro disk disk' f p page hrun
    cases hbody : disk.bodies (f, p) with
    | none =>
      simp only [diskFiles, hbody] at hrun
      cases hrun
    | some b =>
      simp only [diskFiles, hbody] at hrun
      obtain ⟨rfl, rfl⟩ := EStateM.Result.ok.inj hrun
      exact ⟨by rw [Disk.pages, hbody]; rfl, rfl⟩
  writePage := by
    intro disk disk' f page hrun
    obtain ⟨-, rfl⟩ := EStateM.Result.ok.inj hrun
    exact pages_update ..
  allocatePage := by
    intro disk disk' f page hrun
    cases hbody : disk.bodies (f, disk.next) with
    | some b =>
      simp only [diskFiles, hbody] at hrun
      cases hrun
    | none =>
      simp only [diskFiles, hbody] at hrun
      obtain ⟨rfl, rfl⟩ := EStateM.Result.ok.inj hrun
      refine ⟨?_, pages_update ..⟩
      change Disk.pages disk (f, disk.next) = none
      rw [Disk.pages, hbody]
      rfl
  deletePage := by
    intro disk disk' f p hrun
    cases hbody : disk.bodies (f, p) with
    | none =>
      simp only [diskFiles, hbody] at hrun
      cases hrun
    | some b =>
      simp only [diskFiles, hbody] at hrun
      obtain ⟨-, rfl⟩ := EStateM.Result.ok.inj hrun
      exact pages_update ..
  throws := diskFiles_throws body
  deletes := by
    intro disk f p hlive
    cases hbody : disk.bodies (f, p) with
    | none => exact absurd (by rw [Disk.pages, hbody]; rfl) hlive
    | some b => exact ⟨_, by simp only [diskFiles, hbody]; rfl⟩

/-- Calls with one frame over an empty disk. -/
def diskRun (calls : List (BufCall Nat (PageId × Nat))) :
    BufMgr Nat (PageId × Nat) (Disk Nat Nat) × Clients Nat (PageId × Nat) :=
  runCalls (diskFiles Nat Nat 0) (fun f p => f + p) (.new 1 (0, 0) ⟨fun _ => none, 1⟩) (Disk.pages ⟨fun _ => none, 1⟩) calls

/-- A page is allocated, changed, given back as dirty, and another one takes its frame. -/
def evicted : BufMgr Nat (PageId × Nat) (Disk Nat Nat) × Clients Nat (PageId × Nat) :=
  diskRun [.allocPage 0, .edit 0 1 (1, 42), .unPinPage 0 1 true, .allocPage 0, .unPinPage 0 2 false]

theorem no_update_lost_evicted :
    (∀ f p fid mgr', readPage (diskFiles Nat Nat 0) (fun f p => f + p) f p evicted.1 = .ok fid mgr' →
        evicted.2.contents (f, p) = some (mgr'.bufPool fid)) ∧
      ∀ (f : Nat) mgr', flushFile (diskFiles Nat Nat 0) (fun f p => f + p) f evicted.1 = .ok () mgr' →
        ∀ p, mgr'.files.pages (f, p) = evicted.2.contents (f, p) := by
  have h₀ : BufRun (diskFiles Nat Nat 0) (fun f p => f + p) (.new 1 (0, 0) ⟨fun _ => none, 1⟩)
      (Disk.pages ⟨fun _ => none, 1⟩) (fun clients call => call.Disciplined (diskFiles Nat Nat 0) clients)
      (diskRun []).1 (diskRun []).2 := .start
  have h₁ := bufRun_append h₀ (.allocPage 0) trivial
  have h₂ := bufRun_append h₁ (.edit 0 1 (1, 42)) ⟨by decide +kernel, rfl⟩
  have h₃ := bufRun_append h₂ (.unPinPage 0 1 true) fun hdirty => absurd hdirty.symm Bool.false_ne_true
  have h₄ := bufRun_append h₃ (.allocPage 0) trivial
  have h₅ := bufRun_append h₄ (.unPinPage 0 2 false) fun _ hpending => absurd hpending (by decide +kernel)
  exact no_update_lost (diskFiles_faithful Nat Nat 0) (by decide) h₅

end Cs564.P2
