import Cs564.P3Buffer.Shutdown
import Cs564.SlottedPage.Contents

/-!
# A store of records

Clients of the manager that insert, update and delete records on the pages they have pins on.  Beside the manager runs
what the records are for: a map from the pages in use to their live records (`Heap`).  In every session the pages in the
pool have the records of the map (`RecordRun.getRecord`), and the files that `~BufMgr` leaves store the map
(`destroyBufMgr_stores`).
-/

namespace Cs564

namespace Page

/-! ### Pages but for their numbers and links -/

variable {page page' : Page} {number : PageId} {live : RecordMap}

/-- Pages that are the same but for their numbers and links. -/
private theorem bare_same (h : page'.bare = page.bare) :
    (page'.header.free_space_lower_bound = page.header.free_space_lower_bound ∧
      page'.header.free_space_upper_bound = page.header.free_space_upper_bound ∧
      page'.header.num_slots = page.header.num_slots ∧ page'.header.num_free_slots = page.header.num_free_slots) ∧
    ∀ pos, pos < DATA_SIZE → page'.data pos = page.data pos := by
  refine ⟨⟨(congrArg (fun p : Page => p.header.free_space_lower_bound) h :),
    (congrArg (fun p : Page => p.header.free_space_upper_bound) h :),
    (congrArg (fun p : Page => p.header.num_slots) h :),
    (congrArg (fun p : Page => p.header.num_free_slots) h :)⟩, fun pos hpos => ?_⟩
  have hdata : page'.bare.data pos = page.bare.data pos := congrFun (congrArg Page.data h) pos
  have hbare : ∀ page₀ : Page, page₀.bare.data pos = page₀.data pos := fun page₀ => if_pos hpos
  rw [hbare, hbare] at hdata
  exact hdata

/-- They have the same records. -/
theorem Valid.of_bare (hvalid : page.Valid) (h : page'.bare = page.bare) :
    page'.Valid ∧ page'.contents = page.contents := by
  obtain ⟨⟨hlower, hupper, hslots, hfree⟩, hdata⟩ := bare_same h
  have hle := hvalid.num_slots_le
  -- the slot array lies in the page
  have hslot : ∀ i, 1 ≤ i → i ≤ page.header.num_slots → page'.used i = page.used i ∧
      page'.item_offset i = page.item_offset i ∧ page'.item_length i = page.item_length i := by
    intro i hi hi'
    refine slot_congr hi fun q _ hq => hdata q ?_
    have hadd := getSlot_add hi
    rw [dataSize_eq]
    omega
  have hstored : ∀ i, page'.Stored i ↔ page.Stored i := by
    intro i
    unfold Stored
    rw [hslots]
    refine and_congr_right fun hi => and_congr_right fun hi' => ?_
    rw [(hslot i hi hi').1]
  have hfields : ∀ i, page.Stored i → page'.item_offset i = page.item_offset i ∧
      page'.item_length i = page.item_length i := fun i hi => (hslot i hi.1 hi.2.1).2
  constructor
  · constructor
    · rw [hlower, hslots]
      exact hvalid.lower_eq
    · rw [hlower, hupper]
      exact hvalid.lower_le
    · rw [hfree, hvalid.free_eq, unusedSlots, unusedSlots, hslots]
      refine List.countP_congr fun i hi => ?_
      obtain ⟨hlow, hhigh⟩ := List.mem_range'_1.mp hi
      rw [(hslot i hlow (by omega)).1]
    · intro i hi
      rw [(hfields i ((hstored i).mp hi)).1]
      exact hvalid.offset_le i ((hstored i).mp hi)
    · rw [hupper]
      exact hvalid.tiles.congr hstored (fun i hi => (hfields i hi).1) fun i hi => (hfields i hi).2
  · funext i
    unfold contents
    by_cases hi : page.Stored i
    · rw [if_pos hi, if_pos ((hstored i).mpr hi)]
      obtain ⟨hoffset, hlength⟩ := hfields i hi
      refine congrArg some (bytes_congr hlength fun k hk => ?_)
      rw [hoffset]
      refine hdata _ ?_
      have hend := hvalid.end_le hi
      rw [dataSize_eq]
      omega
    · rw [if_neg hi, if_neg (mt (hstored i).mp hi)]

/-- The records of a page under its number are those of the page without it. -/
theorem holds_iff_bare : page.Holds number live ↔ page.page_number = number ∧ page.bare.Holds INVALID_NUMBER live := by
  constructor
  · intro h
    obtain ⟨hvalid, hcontents⟩ := h.valid.of_bare page.bare_bare
    exact ⟨h.number_eq, hvalid, rfl, hcontents.trans h.contents_eq⟩
  · rintro ⟨hnumber, h⟩
    obtain ⟨hvalid, hcontents⟩ := h.valid.of_bare page.bare_bare.symm
    exact ⟨hvalid, hnumber, hcontents.trans h.contents_eq⟩

/-- A blank page has no records. -/
theorem holds_fresh : fresh.Holds INVALID_NUMBER fun _ => none := by
  obtain ⟨hvalid, hcontents⟩ := initializePage_valid fresh INVALID_NUMBER
  have hsame : fresh.bare = (fresh.initializePage.set_page_number INVALID_NUMBER).bare := by
    rw [bare_set_page_number, bare_initializePage, bare_fresh]
  obtain ⟨hvalid', hcontents'⟩ := hvalid.of_bare hsame
  exact ⟨hvalid', rfl, hcontents'.trans hcontents⟩

end Page

namespace P3

open P2 (BufError BufHashTbl BufDesc BufMgr BufM)
open P2.BufMgr PageFile

variable {F N : Type} [DecidableEq F] [DecidableEq N]

/-- The pages in use of the files, each with its live records. -/
abbrev Heap (N : Type) := N × PageId → Option RecordMap

/-- What clients do; `onPage` is a call on a page through its pointer. -/
inductive RecordCall (F : Type) where
  | readPage (file : F) (pageNo : PageId)
  | allocPage (file : F)
  | unPinPage (file : F) (pageNo : PageId) (dirty : Bool)
  | flushFile (file : F)
  | disposePage (file : F) (pageNo : PageId)
  | onPage (file : F) (pageNo : PageId) (fid : FrameId) (call : PageCall)

namespace RecordCall

/-- The call of the manager, or the change of the page. -/
def toCall (mgr : BufMgr F Page (N → PageFile)) : RecordCall F → Call F Page
  | readPage f p => .readPage f p
  | allocPage f => .allocPage f
  | unPinPage f p dirty => .unPinPage f p dirty
  | flushFile f => .flushFile f
  | disposePage f p => .disposePage f p
  | onPage f p fid call => .edit f p fid (call.run (mgr.bufPool fid) fun _ => none).1

/-- The map after the call: a new page has no records, and a call on a page does to the records what it does to a page that
is in order. -/
def heap (hash : F → PageId → Nat) (filename : F → N) (mgr : BufMgr F Page (N → PageFile)) (heap : Heap N) :
    RecordCall F → Heap N
  | readPage _ _ => heap
  | allocPage f =>
    match P3.allocPage (pageFiles filename) hash f mgr with
    | .ok new _ => Function.update heap (filename f, new.1) (some fun _ => none)
    | .error _ _ => heap
  | unPinPage _ _ _ => heap
  | flushFile _ => heap
  | disposePage f p =>
    match P3.disposePage (pageFiles filename) hash f p mgr with
    | .ok () _ => Function.update heap (filename f, p) none
    | .error _ _ => heap
  | onPage f p fid call =>
    Function.update heap (filename f, p) ((heap (filename f, p)).map fun live => (call.run (mgr.bufPool fid) live).2)

/-- The clients keep to the rules: of a call on a page, it has a pin, names a live record if any, and neither lets the slot
array grow onto a byte that is not zero nor moves a record in front of the others. -/
def Proper (filename : F → N) (mgr : BufMgr F Page (N → PageFile)) (edits : Edits N Page) (heap : Heap N) :
    RecordCall F → Prop
  | onPage f p fid call => (mgr.Holds fid f p ∧ 0 < (mgr.bufDescTable fid).pinCnt) ∧ call.Safe (mgr.bufPool fid) ∧
      ∃ live, heap (filename f, p) = some live ∧ call.Names p live
  | readPage f p => (Call.readPage f p).Proper filename mgr edits
  | allocPage f => (Call.allocPage f).Proper filename mgr edits
  | unPinPage f p dirty => (Call.unPinPage f p dirty).Proper filename mgr edits
  | flushFile f => (Call.flushFile f).Proper filename mgr edits
  | disposePage f p => (Call.disposePage f p).Proper filename mgr edits

end RecordCall

/-- The states that proper calls lead to from a new manager over `files`, with the map beside them. -/
inductive RecordRun (hash : F → PageId → Nat) (filename : F → N) (bufs : Nat) (page : Page) (files : N → PageFile)
    (heap₀ : Heap N) : BufMgr F Page (N → PageFile) → Edits N Page → Heap N → Prop where
  | start : RecordRun hash filename bufs page files heap₀ (newBufMgr bufs page files)
      ⟨pagesOf files, fun _ => false⟩ heap₀
  | call {mgr : BufMgr F Page (N → PageFile)} {edits : Edits N Page} {heap : Heap N} (call : RecordCall F)
      (before : RecordRun hash filename bufs page files heap₀ mgr edits heap)
      (proper : call.Proper filename mgr edits heap) :
      RecordRun hash filename bufs page files heap₀
        ((call.toCall mgr).run (pageFiles filename) hash filename Page.bare mgr edits).1
        ((call.toCall mgr).run (pageFiles filename) hash filename Page.bare mgr edits).2
        (call.heap hash filename mgr heap)

/-- The files are neat, and their pages in use have the records of the map. -/
structure Stores (files : N → PageFile) (heap : Heap N) : Prop where
  neat : ∀ n, (files n).Neat
  records : ∀ n p, Option.Rel (fun page live => page.Holds p live) (contentsOn (files n).pages p) (heap (n, p))

/-- The pages, without their numbers, have the records of the map. -/
def Matching (contents : N × PageId → Option Page) (heap : Heap N) : Prop :=
  ∀ key, Option.Rel (fun page live => page.Holds INVALID_NUMBER live) (contents key) (heap key)

variable {hash : F → PageId → Nat} {filename : F → N} {mgr : BufMgr F Page (N → PageFile)} {edits : Edits N Page}
  {heap heap₀ : Heap N} {bufs : Nat} {page : Page} {files : N → PageFile}

/-- One page and its records change. -/
theorem Matching.update {contents : N × PageId → Option Page} (h : Matching contents heap) (key : N × PageId)
    {page : Option Page} {live : Option RecordMap}
    (hrel : Option.Rel (fun page live => page.Holds INVALID_NUMBER live) page live) :
    Matching (Function.update contents key page) (Function.update heap key live) := by
  intro key'
  by_cases hkey : key' = key
  · subst hkey
    rw [Function.update_self, Function.update_self]
    exact hrel
  · rw [Function.update_of_ne hkey, Function.update_of_ne hkey]
    exact h key'

/-- A relation to the image of an optional value. -/
private theorem rel_map_iff {α β γ : Type} {S : α → γ → Prop} {R : β → γ → Prop} {g : α → β} {a : Option α} {c : Option γ}
    (h : ∀ x y, a = some x → (S x y ↔ R (g x) y)) : Option.Rel S a c ↔ Option.Rel R (a.map g) c := by
  cases a with
  | none => cases c <;> simp
  | some x => cases c <;> simp [h]

omit [DecidableEq N] in
/-- Neat files store what their pages match. -/
theorem stores_iff : Stores files heap ↔ (∀ n, (files n).Neat) ∧ Matching (pagesOf files) heap := by
  have hrecords : (∀ n, (files n).Neat) → ∀ n p,
      (Option.Rel (fun page live => page.Holds p live) (contentsOn (files n).pages p) (heap (n, p)) ↔
        Option.Rel (fun page live => page.Holds INVALID_NUMBER live) (pagesOf files (n, p)) (heap (n, p))) := by
    intro hneat n p
    refine rel_map_iff fun page live hpage => ?_
    obtain ⟨left, hsound⟩ := (hneat n).sound
    obtain ⟨old, hold, hmarked⟩ := contentsOn_ne_none_iff.mp (hpage ▸ Option.some_ne_none page)
    have hnumber : page.page_number = p := by
      rw [contentsOn_used hold hmarked] at hpage
      rw [← Option.some.inj hpage, Page.page_number_unlinked]
      exact hsound.number_used hold hmarked
    exact Page.holds_iff_bare.trans (and_iff_right hnumber)
  constructor
  · exact fun h => ⟨h.neat, fun key => (hrecords h.neat key.1 key.2).mp (h.records key.1 key.2)⟩
  · exact fun h => ⟨h.1, fun n p => (hrecords h.1 n p).mpr (h.2 (n, p))⟩

/-! ### One call -/

/-- What a call does to a page does not depend on the map. -/
theorem run_page (call : PageCall) (page : Page) (live live' : RecordMap) :
    (call.run page live).1 = (call.run page live').1 := by
  cases call with
  | insertRecord record_data =>
    rw [PageCall.run, PageCall.run]
    cases page.insertRecord record_data with
    | mk page' r => cases r <;> rfl
  | updateRecord record_id record_data =>
    rw [PageCall.run, PageCall.run]
    cases page.updateRecord record_id record_data with
    | mk page' r => cases r <;> rfl
  | deleteRecord record_id =>
    rw [PageCall.run, PageCall.run]
    cases page.deleteRecord record_id with
    | mk page' r => cases r <;> rfl

section Step

variable (h : Stocked hash filename mgr) (hk : Kept filename Page.bare neatPages mgr edits)
  (hmatch : Matching edits.contents heap) {call : RecordCall F}
include h hk hmatch

omit [DecidableEq N] in
/-- The pages in the pool have the records of the map. -/
theorem Stocked.pool_holds {i : FrameId} {f : F} {p : PageId} (hi : mgr.Holds i f p) :
    ∃ live, heap (filename f, p) = some live ∧ (mgr.bufPool i).Holds p live := by
  have hrel := hmatch (filename f, p)
  rw [(hk (filename f) p).current i f hi rfl] at hrel
  cases hheap : heap (filename f, p) with
  | none =>
    rw [hheap] at hrel
    cases hrel
  | some live =>
    rw [hheap] at hrel
    cases hrel with
    | some hholds => exact ⟨live, rfl, Page.holds_iff_bare.mpr ⟨h.backed.number i f p hi, hholds⟩⟩

omit [DecidableEq N] in
/-- A call on a page in the pool. -/
private theorem Stocked.onPage {f : F} {p : PageId} {fid : FrameId} {call : PageCall} (holds : mgr.Holds fid f p)
    (hsafe : call.Safe (mgr.bufPool fid)) (hnames : ∃ live, heap (filename f, p) = some live ∧ call.Names p live) :
    ∃ live, heap (filename f, p) = some live ∧ (call.run (mgr.bufPool fid) fun _ => none).1.Holds p
      (call.run (mgr.bufPool fid) live).2 := by
  obtain ⟨live, hheap, hpage⟩ := h.pool_holds hk hmatch holds
  obtain ⟨live', hheap', hnames⟩ := hnames
  obtain rfl := Option.some.inj (hheap.symm.trans hheap')
  rw [run_page call (mgr.bufPool fid) _ live]
  exact ⟨live, hheap, hpage.call call hnames hsafe⟩

omit [DecidableEq N] in
/-- A call that keeps to the rules is a proper one of the manager. -/
theorem Stocked.toCall_proper (hproper : call.Proper filename mgr edits heap) :
    (call.toCall mgr).Proper filename mgr edits := by
  cases call with
  | onPage f p fid call =>
    obtain ⟨⟨holds, hpin⟩, hsafe, hnames⟩ := hproper
    obtain ⟨live, -, hpage⟩ := h.onPage hk hmatch holds hsafe hnames
    refine ⟨⟨holds, ?_⟩, ⟨holds, hpin⟩, trivial⟩
    exact hpage.number_eq.trans (h.backed.number fid f p holds).symm
  | readPage f p => exact hproper
  | allocPage f => exact hproper
  | unPinPage f p dirty => exact hproper
  | flushFile f => exact hproper
  | disposePage f p => exact hproper

/-- The pages and the map after a call. -/
theorem Stocked.matching (hproper : call.Proper filename mgr edits heap) :
    Matching ((call.toCall mgr).run (pageFiles filename) hash filename Page.bare mgr edits).2.contents
      (call.heap hash filename mgr heap) := by
  cases call with
  | readPage f p =>
    rw [RecordCall.toCall, Call.run]
    cases P3.readPage (pageFiles filename) hash f p mgr <;> exact hmatch
  | allocPage f =>
    rw [RecordCall.toCall, Call.run, RecordCall.heap]
    have hspec := allocPage_spec h.agree h.backed.writable f
    cases hrun : P3.allocPage (pageFiles filename) hash f mgr with
    | error e m => exact hmatch
    | ok new m =>
      rw [hrun] at hspec
      cases hspec with
      | @allocated i m new files table freed run loads =>
        obtain ⟨page, file, hreturns, -, hblank, -⟩ := h.allocates hproper.orderly freed
        obtain ⟨rfl, -⟩ := EStateM.Result.ok.inj (hreturns.symm.trans run)
        have hpage : ((m.withFiles files).occupy i table f page.page_number page).bufPool i = page :=
          Function.update_self ..
        refine hmatch.update _ (.some ?_)
        dsimp only
        rw [hpage, hblank]
        exact Page.holds_fresh
  | unPinPage f p dirty =>
    rw [RecordCall.toCall, Call.run]
    cases P3.unPinPage hash f p dirty mgr <;> exact hmatch
  | flushFile f =>
    rw [RecordCall.toCall, Call.run]
    cases P3.flushFile (pageFiles filename) hash f mgr <;> exact hmatch
  | disposePage f p =>
    rw [RecordCall.toCall, Call.run, RecordCall.heap]
    cases P3.disposePage (pageFiles filename) hash f p mgr with
    | error e m => exact hmatch
    | ok _ m => exact hmatch.update _ .none
  | onPage f p fid call =>
    obtain ⟨⟨holds, -⟩, hsafe, hnames⟩ := hproper
    obtain ⟨live, hheap, hpage⟩ := h.onPage hk hmatch holds hsafe hnames
    rw [RecordCall.heap, hheap]
    exact hmatch.update _ (.some (Page.holds_iff_bare.mp hpage).2)

end Step

/-- In a pool without frames nothing changes. -/
private theorem empty_recordCall (hzero : mgr.numBufs = 0) (hnone : ∀ f p, mgr.hashTable.entry hash f p = none)
    {call : RecordCall F} (hproper : call.Proper filename mgr edits heap) :
    (call.toCall mgr).run (pageFiles filename) hash filename Page.bare mgr edits = (mgr, edits) ∧
      call.heap hash filename mgr heap = heap := by
  have hno : ∀ {i f p}, ¬ mgr.Holds i f p := fun hi => Nat.not_lt_zero _ (hzero ▸ hi.1)
  have hsame : (call.toCall mgr).run (pageFiles filename) hash filename Page.bare mgr edits = (mgr, edits) := by
    refine empty_call hzero hnone _ fun f p fid page hcall => ?_
    cases call with
    | onPage => exact absurd hproper.1.1 hno
    | readPage | allocPage | unPinPage | flushFile | disposePage => cases hcall
  cases call with
  | onPage f p fid call => exact absurd hproper.1.1 hno
  | allocPage f =>
    have halloc : P3.allocPage (pageFiles filename) hash f mgr = .error .bufferExceeded mgr := by
      refine run_bind_error ?_
      rw [allocBuf, run_bind_ok (run_get mgr), hzero]
      rfl
    refine ⟨hsame, ?_⟩
    rw [RecordCall.heap, halloc]
  | disposePage f p =>
    have hdispose : P3.disposePage (pageFiles filename) hash f p mgr = .error (.hashNotFound f p) mgr := by
      rw [P3.disposePage, run_bind_ok (run_get mgr), BufHashTbl.lookup_eq, hnone]
      rfl
    refine ⟨hsame, ?_⟩
    rw [RecordCall.heap, hdispose]
  | readPage f p => exact ⟨hsame, rfl⟩
  | unPinPage f p dirty => exact ⟨hsame, rfl⟩
  | flushFile f => exact ⟨hsame, rfl⟩

/-! ### Sessions -/

omit [DecidableEq N] in
theorem stores_create : Stores (fun _ : N => .create) fun _ => none := ⟨fun _ => neat_create, fun _ _ => .none⟩

section Sessions

variable (hstores : Stores files heap₀) (hrun : RecordRun hash filename bufs page files heap₀ mgr edits heap)
include hstores hrun

/-- A session is a run of proper calls, and the map goes along with the pages. -/
theorem RecordRun.run : Run (pageFiles filename) hash filename Page.bare bufs page files (pagesOf files)
    (fun mgr edits call => call.Proper filename mgr edits) mgr edits ∧ Matching edits.contents heap := by
  induction hrun with
  | start => exact ⟨.start, (stores_iff.mp hstores).2⟩
  | @call mgr edits heap call before proper ih =>
    obtain ⟨hbefore, hmatch⟩ := ih
    rcases hbefore.stocked hstores.neat with ⟨h, hk⟩ | ⟨hzero, hnone, -, -⟩
    · exact ⟨.call _ hbefore (h.toCall_proper hk hmatch proper), h.matching hk hmatch proper⟩
    · obtain ⟨hsame, hheap⟩ := empty_recordCall hzero hnone proper
      rw [hsame, hheap]
      exact ⟨hbefore, hmatch⟩

/-- The pages in the pool have the records of the map. -/
theorem RecordRun.pool_holds {i : FrameId} {f : F} {p : PageId} (hi : mgr.Holds i f p) :
    ∃ live, heap (filename f, p) = some live ∧ (mgr.bufPool i).Holds p live := by
  obtain ⟨hproper, hmatch⟩ := hrun.run hstores
  rcases hproper.stocked hstores.neat with ⟨h, hk⟩ | ⟨hzero, -⟩
  · exact h.pool_holds hk hmatch hi
  · exact absurd hi.1 (hzero ▸ Nat.not_lt_zero i)

/-- At any moment of a session over files that store a map: `getRecord` of a page in the pool gives the live records, and
when all changes are marked, `~BufMgr` leaves files that store the map as it is then. -/
theorem destroyBufMgr_stores :
    (∀ i f record_id record, mgr.Holds i f record_id.page_number →
      ∀ live, heap (filename f, record_id.page_number) = some live → live record_id.slot_number = some record →
        (mgr.bufPool i).getRecord record_id = .ok record) ∧
    ((∀ n p, Marked filename mgr edits n p) →
      ∃ mgr', destroyBufMgr (pageFiles filename) mgr = .ok () mgr' ∧ Stores mgr'.files heap) := by
  constructor
  · intro i f record_id record hi live hheap hlive
    obtain ⟨live', hheap', hholds⟩ := hrun.pool_holds hstores hi
    obtain rfl := Option.some.inj (hheap.symm.trans hheap')
    rw [← hholds.contents_eq] at hlive
    obtain ⟨hstored, hbytes⟩ := Page.contents_eq_some.mp hlive
    rw [hholds.valid.getRecord_eq hholds.number_eq.symm hstored, hbytes]
  · intro hmarked
    obtain ⟨hproper, hmatch⟩ := hrun.run hstores
    obtain ⟨mgr', hreturns, hneat, hpages⟩ := hproper.destroyed hstores.neat
    have hsame : pagesOf mgr'.files = edits.contents := funext fun key => hpages key.1 key.2 (hmarked key.1 key.2)
    exact ⟨mgr', hreturns, stores_iff.mpr ⟨hneat, hsame.symm ▸ hmatch⟩⟩

end Sessions

/-! ### A session on fixed calls -/

/-- The state after the calls in order, from a new pool of `bufs` frames over one new page file. -/
def runRecordCalls (bufs : Nat) (calls : List (RecordCall Unit)) :
    BufMgr Unit Page (Unit → PageFile) × Edits Unit Page × Heap Unit :=
  calls.foldl (fun state call =>
      let next := (call.toCall state.1).run (pageFiles id) (P3.hash fun _ => 0) id Page.bare state.1 state.2.1
      (next.1, next.2, call.heap (P3.hash fun _ => 0) id state.1 state.2.2))
    (newBufMgr bufs .fresh fun _ => .create, ⟨fun _ => none, fun _ => false⟩, fun _ => none)

/-- The sessions of `runRecordCalls`. -/
def FixedRun (bufs : Nat) (calls : List (RecordCall Unit)) : Prop :=
  RecordRun (P3.hash fun _ => 0) id bufs .fresh (fun _ => .create) (fun _ => none) (runRecordCalls bufs calls).1
    (runRecordCalls bufs calls).2.1 (runRecordCalls bufs calls).2.2

/-- One more call. -/
theorem fixedRun_append {bufs : Nat} {calls : List (RecordCall Unit)} (h : FixedRun bufs calls) (call : RecordCall Unit)
    (hproper : call.Proper id (runRecordCalls bufs calls).1 (runRecordCalls bufs calls).2.1
      (runRecordCalls bufs calls).2.2) : FixedRun bufs (calls ++ [call]) := by
  rw [FixedRun, runRecordCalls, List.foldl_append]
  exact .call call h hproper

/-- A page is allocated, gets a record and is given back. -/
def oneRecord : List (RecordCall Unit) := [.allocPage (), .onPage () 1 0 (.insertRecord [7, 0, 0, 0]), .unPinPage () 1 true]

theorem fixedRun_oneRecord : FixedRun 1 oneRecord := by
  have h₀ : FixedRun 1 [] := .start
  have h₁ := fixedRun_append h₀ (.allocPage ())
    ⟨⟨fun _ => Nat.zero_le 1, fun _ => (by decide : 1 + 1 < 2 ^ 32)⟩, trivial, trivial⟩
  have holds : (runRecordCalls 1 [.allocPage ()]).1.Holds 0 () 1 :=
    ⟨by decide +kernel, by decide +kernel, by decide +kernel, by decide +kernel⟩
  obtain ⟨live, hheap, -⟩ := h₁.pool_holds stores_create holds
  have h₂ := fixedRun_append h₁ (.onPage () 1 0 (.insertRecord [7, 0, 0, 0]))
    ⟨⟨holds, by decide +kernel⟩, fun _ _ => by decide +kernel, live, hheap, trivial⟩
  exact fixedRun_append h₂ (.unPinPage () 1 true) ⟨trivial, fun hfalse => absurd hfalse.symm Bool.false_ne_true, trivial⟩

/-- `~BufMgr` writes the record to the file. -/
theorem destroyBufMgr_stores_one : ∃ mgr', destroyBufMgr (pageFiles id) (runRecordCalls 1 oneRecord).1 = .ok () mgr' ∧
    Stores mgr'.files (runRecordCalls 1 oneRecord).2.2 := by
  refine (destroyBufMgr_stores stores_create fixedRun_oneRecord).2 fun n p i f hi _ => ?_
  have hnum : (runRecordCalls 1 oneRecord).1.numBufs = 1 := by decide +kernel
  have hpage : ((runRecordCalls 1 oneRecord).1.bufDescTable 0).pageNo = 1 := by decide +kernel
  have hsaved : (runRecordCalls 1 oneRecord).2.1.unsaved ((), 1) = false := by decide +kernel
  obtain rfl : i = 0 := Nat.lt_one_iff.mp (hnum ▸ hi.1)
  rw [← hi.2.pageNo, hpage]
  exact hsaved

end P3

end Cs564
