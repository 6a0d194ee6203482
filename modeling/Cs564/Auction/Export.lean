import Cs564.Auction.Users

/-!
# The files of the tables

`flush` writes a table as lines of fields with bars between them, the texts between double quotes and the numbers as they
are.  The tables of users, categories and bids are read back as they were (`export_reads`): whatever stands in a text, its
quotes are doubled, and no number holds a bar, a quote or an end of line.
-/

namespace Cs564.Auction

/-- The delimiters of the `.dat` files. -/
def bars : Delimiters Char where
  sep := '|'
  quote := quote
  eol := '\n'
  sep_ne_quote := by decide
  eol_ne_quote := by decide
  eol_ne_sep := by decide

/-- `str` of an id. -/
def strNat (n : Nat) : List Char := Nat.toDigits 10 n

/-- `str` of a cell; `other` is `str` of the values that are neither strings nor integers.  In `Json` the cells `1.0` and
`True` are the integer `1`, whose text is another one. -/
def str (other : Json → List Char) : Json → List Char
  | .str s => s
  | .num q => if q.den = 1 then (toString q.num).toList else other (.num q)
  | v => other v

/-- `CategoryData.flush`: the text it writes, and the table it leaves. -/
def CategoryData.flush (t : CategoryData) : Except PyError (List Char × CategoryData) := do
  let lns ← (List.range t.uids.length).mapM fun i => do
    let uid ← cell t.uids i
    let name ← cell t.names i
    return line bars [strNat uid, name]
  return (lns.flatten, { t with uids := [], names := [] })

/-- `UserData.flush`. -/
def UserData.flush (other : Json → List Char) (t : UserData) : Except PyError (List Char × UserData) := do
  let lns ← (List.range t.uids.length).mapM fun i => do
    let uid ← cell t.uids i
    let rating ← cell t.ratings i
    let location ← cell t.locations i
    let country ← cell t.countries i
    return line bars [uid, str other rating, location, country]
  return (lns.flatten, .fresh)

/-- `BidData.flush`. -/
def BidData.flush (other : Json → List Char) (t : BidData) : Except PyError (List Char × BidData) := do
  let lns ← (List.range t.uids.length).mapM fun i => do
    let uid ← cell t.uids i
    let userId ← cell t.userIds i
    let itemId ← cell t.itemIds i
    let time ← cell t.times i
    let amount ← cell t.amounts i
    return line bars [strNat uid, userId, str other itemId, time, amount]
  return (lns.flatten, { t with uids := [], userIds := [], itemIds := [], times := [], amounts := [] })

/-- A string of decimal digits. -/
def IsDigits (s : List Char) : Prop := s ≠ [] ∧ ∀ c ∈ s, (digit c).isSome = true

/-- A call with a rating of digits, if any. -/
structure Call.Exported (call : Call) : Prop where
  rating : call.rating = .null ∨ (∃ s, call.rating = .str s ∧ IsDigits s) ∨ ∃ n : Int, call.rating = .num n
  location : IsText call.location
  country : IsText call.country

/-- The arguments of a call of `BidData.add`. -/
structure Bid where
  userId : List Char
  itemId : List Char
  time : Json
  amount : Json

/-- A bid on an item with an id of digits. -/
structure Bid.Exported (bid : Bid) : Prop where
  itemId : IsDigits bid.itemId
  time : IsText bid.time
  amount : IsText bid.amount

/-- The calls of `add_if_absent`, one after the other. -/
def addCategories (counter : Nat) (names : List (List Char)) : Except PyError CategoryData :=
  names.foldlM (fun t name => do return (← t.addIfAbsent (.str name)).1) (.fresh counter)

/-- The calls of `BidData.add`, one after the other. -/
def addBids (counter : Nat) (bids : List Bid) : Except PyError BidData :=
  bids.foldlM (fun t bid => do return (← t.add (.str bid.userId) (.str bid.itemId) bid.time bid.amount).1) (.fresh counter)

/-- A text without its quotes, `NULL` standing for `None`. -/
def bareText : Json → List Char
  | .str s => s
  | _ => nullText

/-- The text that the table keeps of the values of a user, without its quotes. -/
def keptBare (values : List Json) : List Char := firstKnown (· == nullText) nullText (values.map bareText)

/-- The rating that the table keeps of the values of a user, in decimal digits. -/
def ratingText (other : Json → List Char) (values : List Json) : List Char :=
  if isMarker (keptRating values) then nullText else str other (keptRating values)

/-- The row of a user. -/
def userRow (other : Json → List Char) (calls : List Call) (uid : List Char) : List (List Char) :=
  [uid, ratingText other (valuesOf Call.rating calls uid), keptBare (valuesOf Call.location calls uid),
    keptBare (valuesOf Call.country calls uid)]

/-- The row of a category, by its name and id. -/
def categoryRow (entry : List Char × Nat) : List (List Char) := [strNat entry.2, entry.1]

/-- The row of a bid, by its values and id. -/
def bidRow (entry : Bid × Nat) : List (List Char) :=
  [strNat entry.2, entry.1.userId, entry.1.itemId, bareText entry.1.time, bareText entry.1.amount]

/-! ### Characters of the numbers -/

section Numbers

variable {other : Json → List Char} {s : List Char} {c : Char} {v : Json}

/-- No character of the text has a meaning in the file. -/
def Clean (s : List Char) : Prop := ∀ c ∈ s, c ≠ bars.sep ∧ c ≠ bars.eol ∧ c ≠ bars.quote

theorem clean_of_isDigit (h : ∀ c ∈ s, c.isDigit = true) : Clean s := by
  intro c hc
  have hdigit := h c hc
  refine ⟨?_, ?_, ?_⟩ <;> rintro rfl <;> exact absurd hdigit (by decide)

theorem IsDigits.clean (h : IsDigits s) : Clean s := by
  intro c hc
  have hdigit := h.2 c hc
  refine ⟨?_, ?_, ?_⟩ <;> rintro rfl <;> exact absurd hdigit (by decide)

theorem clean_strNat (n : Nat) : Clean (strNat n) :=
  clean_of_isDigit fun _ hc => Nat.isDigit_of_mem_toDigits (by decide) (by decide) hc

theorem clean_toString (n : Int) : Clean (toString n).toList := by
  cases n with
  | ofNat n =>
    change Clean (Nat.repr n).toList
    rw [Nat.toList_repr]
    exact clean_strNat n
  | negSucc n =>
    change Clean ("-" ++ Nat.repr (n + 1)).toList
    rw [String.toList_append, Nat.toList_repr]
    intro c hc
    rcases List.mem_append.mp hc with hc | hc
    · obtain rfl := List.mem_singleton.mp hc
      decide
    · exact clean_strNat (n + 1) c hc

/-! ### Digits as integers -/

/-- `isSpace`, by the code of the character. -/
def isSpaceCode (n : Nat) : Bool :=
  (9 ≤ n && n ≤ 13) || (0x1c ≤ n && n ≤ 0x20) || (0x2000 ≤ n && n ≤ 0x200a) ||
    [0x85, 0xa0, 0x1680, 0x2028, 0x2029, 0x202f, 0x205f, 0x3000].contains n

theorem isSpace_of_digit (h : (digit c).isSome = true) : isSpace c = false := by
  -- the digits stand between the spaces
  have hall : ∀ z ∈ decimalZeros, z = 0x30 ∨ (0xa0 < z ∧ z + 9 < 0x1680) ∨ (0x1680 < z ∧ z + 9 < 0x2000) ∨ 0x3000 < z := by
    decide
  rw [digit, Option.isSome_map] at h
  obtain ⟨z, hfind⟩ := Option.isSome_iff_exists.mp h
  have hrange := List.find?_some hfind
  rw [decide_eq_true_eq] at hrange
  have hbetween := hall z (List.mem_of_find?_eq_some hfind)
  have hcode : isSpaceCode c.toNat = false := by
    rw [Bool.eq_false_iff]
    intro hspace
    simp only [isSpaceCode, List.contains_cons, List.contains_nil, Bool.or_eq_true, Bool.and_eq_true, decide_eq_true_eq,
      beq_iff_eq, Bool.false_eq_true, or_false] at hspace
    omega
  exact hcode

theorem IsDigits.stripBlanks (h : IsDigits s) : stripBlanks s = s := by
  have hnone : ∀ l : List Char, (∀ c ∈ l, c ∈ s) → l.dropWhile isBlank = l := by
    intro l hl
    cases l with
    | nil => rfl
    | cons c l => rw [List.dropWhile_cons_of_neg (by simp [isBlank, isSpace_of_digit (h.2 c (hl c (by simp)))])]
  rw [Auction.stripBlanks, hnone s fun c hc => hc, hnone s.reverse fun c hc => List.mem_reverse.mp hc,
    List.reverse_reverse]

theorem mapM_digit (h : ∀ c ∈ s, (digit c).isSome = true) : ∃ ds, s.mapM digit = some ds := by
  induction s with
  | nil => exact ⟨[], rfl⟩
  | cons c s ih =>
    obtain ⟨d, hd⟩ := Option.isSome_iff_exists.mp (h c (by simp))
    obtain ⟨ds, hds⟩ := ih fun c' hc' => h c' (by simp [hc'])
    exact ⟨d :: ds, by rw [List.mapM_cons, hd, hds]; rfl⟩

/-- A string of digits is an integer literal. -/
theorem IsDigits.literal (h : IsDigits s) : IsIntLiteral (.str s) := by
  have hchar : ∀ ch : Char, (digit ch).isSome = false → ch ∉ s := by
    intro ch hch hmem
    rw [h.2 ch hmem] at hch
    cases hch
  have hsign : sign s = (1, s) := by
    unfold sign
    split
    · exact absurd (List.mem_cons_self) (hchar '+' (by decide))
    · exact absurd (List.mem_cons_self) (hchar '-' (by decide))
    · rfl
  have hsplit : s.splitOn '_' = [s] := by
    apply List.splitOnP_eq_singleton
    intro c hc
    rw [beq_eq_false_iff_ne]
    rintro rfl
    exact hchar '_' (by decide) hc
  obtain ⟨ds, hds⟩ := mapM_digit h.2
  obtain ⟨n, hn⟩ : ∃ n, digits s = some n := by
    rw [digits, hsplit, List.mapM_cons, if_neg h.1, hds]
    exact ⟨_, rfl⟩
  refine Or.inl ⟨s, 1 * (n : Int), rfl, ?_⟩
  rw [intOfStr, h.stripBlanks, hsign, hn]
  rfl

end Numbers

theorem Call.Exported.legal {call : Call} (h : call.Exported) : call.Legal := by
  refine ⟨?_, h.location, h.country⟩
  rcases h.rating with hnull | ⟨s, hs, hdigits⟩ | ⟨n, hn⟩
  · exact Or.inl hnull
  · exact Or.inr (hs ▸ hdigits.literal)
  · exact Or.inr (Or.inr ⟨n, hn⟩)

/-! ### The lines of the files -/

section Lines

/-- A loop over the rows of a table whose columns are given by its entries. -/
theorem mapM_range_ok {ε κ β : Type} {f : Nat → Except ε β} {entries : List κ} {g : κ → β}
    (h : ∀ i k, entries[i]? = some k → f i = .ok (g k)) :
    (List.range entries.length).mapM f = .ok (entries.map g) := by
  induction entries using List.reverseRecOn with
  | nil => rfl
  | append_singleton entries k ih =>
    have hbefore := ih fun i k' hi => h i k' (by
      obtain ⟨hlt, -⟩ := List.getElem?_eq_some_iff.mp hi
      rw [List.getElem?_append_left hlt, hi])
    have hlast := h entries.length k (by simp)
    rw [List.length_append, List.length_singleton, List.range_succ, List.mapM_append, hbefore, List.map_append]
    simp only [List.mapM_cons, List.mapM_nil, hlast]
    rfl

theorem cell_map {κ γ : Type} {entries : List κ} {f : κ → γ} {i : Nat} {k : κ} (hk : entries[i]? = some k) :
    cell (entries.map f) i = .ok (f k) := by
  rw [cell, List.getElem?_map, hk]
  rfl

variable {other : Json → List Char} {calls : List Call} {values : List Json} {v : Json} {s : List Char}

theorem writes_text (h : IsText v) : Writes bars (textOf v) (bareText v) := by
  rcases h with rfl | ⟨s, rfl⟩
  · change Writes bars safernull nullText
    rw [safernull_eq]
    exact Writes.quoted nullText
  · exact Writes.quoted s

theorem keptText_eq (h : ∀ v ∈ values, IsText v) : keptText values = enclose quote (keptBare values) := by
  have hencode : values.map textOf = (values.map bareText).map (enclose quote) := by
    rw [List.map_map]
    apply List.map_congr_left
    intro v hv
    rcases h v hv with rfl | ⟨s, rfl⟩
    · exact safernull_eq
    · rfl
  rw [keptText, keptBare, hencode]
  conv_lhs => rw [safernull_eq]
  apply firstKnown_map
  intro s _
  rw [Bool.eq_iff_iff, beq_iff_eq, beq_iff_eq, (enclose_injective quote).eq_iff]

theorem writes_keptText (h : ∀ v ∈ values, IsText v) : Writes bars (keptText values) (keptBare values) := by
  rw [keptText_eq h]
  exact Writes.quoted _

/-- What the table keeps of ratings of digits: the marker, a string of digits or an integer. -/
theorem keptRating_cases
    (h : ∀ v ∈ values, v = .null ∨ (∃ s, v = .str s ∧ IsDigits s) ∨ ∃ n : Int, v = .num n) :
    keptRating values = .str safernull ∨ (∃ s, keptRating values = .str s ∧ IsDigits s) ∨
      ∃ n : Int, keptRating values = .num n := by
  cases values with
  | nil => exact Or.inl rfl
  | cons v values =>
    rcases @firstKnown_cases _ isMarker (.str safernull) (ratingCells (v :: values)) with ⟨-, hmarker⟩ | ⟨hmem, -⟩
    · exact Or.inl hmarker
    · rw [← keptRating, ratingCells] at hmem
      rcases List.mem_cons.mp hmem with hfirst | hlater
      · -- the first rating has been through `saferint`
        rw [hfirst]
        rcases h v List.mem_cons_self with rfl | ⟨s, rfl, hs⟩ | ⟨n, rfl⟩
        · exact Or.inl rfl
        · rcases hs.literal with ⟨s', n, hss, hn⟩ | ⟨n, hn⟩
          · obtain rfl := Json.str.inj hss
            rw [ratingOf, saferint_str hn]
            exact Or.inr (Or.inr ⟨n, rfl⟩)
          · cases hn
        · rw [ratingOf, saferint_num]
          exact Or.inr (Or.inr ⟨n, rfl⟩)
      · -- a later one is as it was
        obtain ⟨w, hw, hcell⟩ := List.mem_map.mp hlater
        rw [← hcell]
        rcases h w (List.mem_cons_of_mem _ hw) with rfl | ⟨s, rfl, hs⟩ | ⟨n, rfl⟩
        · exact Or.inl rfl
        · exact Or.inr (Or.inl ⟨s, rfl, hs⟩)
        · exact Or.inr (Or.inr ⟨n, rfl⟩)

theorem writes_rating (h : ∀ v ∈ values, v = .null ∨ (∃ s, v = .str s ∧ IsDigits s) ∨ ∃ n : Int, v = .num n) :
    Writes bars (str other (keptRating values)) (ratingText other values) := by
  unfold ratingText
  rcases keptRating_cases h with hkept | ⟨s, hkept, hs⟩ | ⟨n, hkept⟩
  · rw [hkept, if_pos ((isMarker_iff _).mpr rfl), str, safernull_eq]
    exact Writes.quoted nullText
  · rw [hkept, (isMarker_literal hs.literal).1, str]
    exact Writes.plain hs.clean
  · have hint : (n : Rat).den = 1 := by simp
    have hnum : (n : Rat).num = n := by simp
    have hstr : str other (.num n) = (toString n).toList := by
      rw [str, if_pos hint, hnum]
    rw [hkept, (isMarker_literal (Or.inr ⟨n, rfl⟩)).1, hstr]
    exact Writes.plain (clean_toString n)

/-- The lines of a table are read as its rows. -/
theorem read_lines {κ : Type} {entries : List κ} {cells row : κ → List (List Char)}
    (h : ∀ k ∈ entries, cells k ≠ [] ∧ List.Forall₂ (Writes bars) (cells k) (row k)) :
    read bars (entries.map fun k => line bars (cells k)).flatten = some (entries.map row) := by
  have hlines : (entries.map fun k => line bars (cells k)).flatten = (entries.map cells).flatMap (line bars) := by
    rw [List.flatMap_map, List.flatMap_def]
  rw [hlines]
  apply read_table
  rw [List.forall₂_map_left_iff, List.forall₂_map_right_iff, List.forall₂_same]
  exact h

end Lines

/-! ### The three tables -/

section Tables

variable {other : Json → List Char} {calls : List Call}

/-- The cells of a user's line. -/
def userCells (other : Json → List Char) (calls : List Call) (uid : List Char) : List (List Char) :=
  [enclose quote uid, str other (keptRating (valuesOf Call.rating calls uid)),
    keptText (valuesOf Call.location calls uid), keptText (valuesOf Call.country calls uid)]

theorem flush_usersTable (calls : List Call) : (usersTable calls).flush other =
    .ok (((users calls).map fun uid => line bars (userCells other calls uid)).flatten, .fresh) := by
  have hlen : (usersTable calls).uids.length = (users calls).length := List.length_map ..
  have hrows : (List.range (users calls).length).mapM (fun i => do
      let uid ← cell (usersTable calls).uids i
      let rating ← cell (usersTable calls).ratings i
      let location ← cell (usersTable calls).locations i
      let country ← cell (usersTable calls).countries i
      return line bars [uid, str other rating, location, country]) =
        .ok ((users calls).map fun uid => line bars (userCells other calls uid)) := by
    apply mapM_range_ok
    intro i uid hi
    simp only [usersTable, column, cell_map hi]
    rfl
  rw [UserData.flush, hlen, hrows]
  rfl

/-- The users' file is read as the rows that the table keeps. -/
theorem read_users (h : ∀ call ∈ calls, call.Exported) :
    read bars ((users calls).map fun uid => line bars (userCells other calls uid)).flatten =
      some ((users calls).map (userRow other calls)) := by
  apply read_lines
  intro uid _
  have hrating := @writes_rating other _ (forall_valuesOf (fun call hcall => (h call hcall).rating) uid)
  have hlocation := writes_keptText (forall_valuesOf (fun call hcall => (h call hcall).location) uid)
  have hcountry := writes_keptText (forall_valuesOf (fun call hcall => (h call hcall).country) uid)
  exact ⟨by simp [userCells], .cons (Writes.quoted uid) (.cons hrating (.cons hlocation (.cons hcountry .nil)))⟩

/-- The categories after the calls, each name with its id. -/
def categories (counter : Nat) (names : List (List Char)) : List (List Char × Nat) := (firsts names).zipIdx counter

/-- The table after the calls. -/
def categoriesTable (counter : Nat) (names : List (List Char)) : CategoryData where
  counter := counter + (firsts names).length
  uids := (categories counter names).map (·.2)
  names := (categories counter names).map fun entry => enclose quote entry.1

section Rows

variable {t : CategoryData} {name : List Char}

theorem addIfAbsent_new (hrow : firstRow t.names.length (fun i => t.names[i]? == some (enclose quote name)) = none) :
    t.addIfAbsent (.str name) =
      .ok ({ counter := t.counter + 1, uids := t.uids ++ [t.counter], names := t.names ++ [enclose quote name] },
        t.counter) := by
  have hstr : saferstr (.str name) = .ok (enclose quote name) := rfl
  rw [CategoryData.addIfAbsent, hstr]
  simp only [Json.isNull, Bool.false_eq_true, if_false, ok_bind, hrow]
  rfl

theorem addIfAbsent_known {i : Nat}
    (hrow : firstRow t.names.length (fun i => t.names[i]? == some (enclose quote name)) = some i) :
    t.addIfAbsent (.str name) = do return (t, ← cell t.uids i) := by
  have hstr : saferstr (.str name) = .ok (enclose quote name) := rfl
  rw [CategoryData.addIfAbsent, hstr]
  simp only [Json.isNull, Bool.false_eq_true, if_false, ok_bind, hrow]

end Rows

theorem addIfAbsent_categoriesTable (counter : Nat) (names : List (List Char)) (name : List Char) :
    ∃ uid, (categoriesTable counter names).addIfAbsent (.str name) = .ok (categoriesTable counter (names ++ [name]), uid) := by
  have hnames : (categoriesTable counter names).names = (firsts names).map (enclose quote) := by
    change (categories counter names).map (enclose quote ∘ Prod.fst) = _
    rw [← List.map_map, categories, List.zipIdx_map_fst]
  rcases firstRow_keys (firsts names) name with ⟨hrow, hnew⟩ | ⟨i, hrow, hi⟩
  · have hfirsts : firsts (names ++ [name]) = firsts names ++ [name] := firsts_append_of_notMem (mt mem_firsts.mpr hnew)
    have htable : categoriesTable counter (names ++ [name]) =
        { counter := (categoriesTable counter names).counter + 1
          uids := (categoriesTable counter names).uids ++ [(categoriesTable counter names).counter]
          names := (categoriesTable counter names).names ++ [enclose quote name] } := by
      simp [categoriesTable, categories, hfirsts, List.zipIdx_append, Nat.add_assoc]
    rw [addIfAbsent_new (by rw [hnames, hrow]), htable]
    exact ⟨_, rfl⟩
  · have hfirsts : firsts (names ++ [name]) = firsts names :=
      firsts_append_of_mem (mem_firsts.mp (List.mem_of_getElem? hi))
    have htable : categoriesTable counter (names ++ [name]) = categoriesTable counter names := by
      rw [categoriesTable, categories, hfirsts]
      rfl
    have hentry : (categories counter names)[i]? = some (name, counter + i) := by
      rw [categories, List.getElem?_zipIdx, hi]
      rfl
    have huid : cell (categoriesTable counter names).uids i = .ok (counter + i) := cell_map hentry
    rw [addIfAbsent_known (by rw [hnames, hrow]), htable, huid]
    exact ⟨_, rfl⟩

theorem addCategories_eq (counter : Nat) (names : List (List Char)) :
    addCategories counter names = .ok (categoriesTable counter names) := by
  induction names using List.reverseRecOn with
  | nil => rfl
  | append_singleton names name ih =>
    obtain ⟨uid, hstep⟩ := addIfAbsent_categoriesTable counter names name
    rw [addCategories] at ih ⊢
    rw [List.foldlM_append, ih]
    change ((do return (← (categoriesTable counter names).addIfAbsent (.str name)).1) >>= pure) = _
    rw [hstep]
    rfl

theorem flush_categories (counter : Nat) (names : List (List Char)) : (categoriesTable counter names).flush =
    .ok (((categories counter names).map fun entry => line bars [strNat entry.2, enclose quote entry.1]).flatten,
      .fresh (counter + (firsts names).length)) := by
  have hlen : (categoriesTable counter names).uids.length = (categories counter names).length := List.length_map ..
  have hrows : (List.range (categories counter names).length).mapM (fun i => do
      let uid ← cell (categoriesTable counter names).uids i
      let name ← cell (categoriesTable counter names).names i
      return line bars [strNat uid, name]) =
        .ok ((categories counter names).map fun entry => line bars [strNat entry.2, enclose quote entry.1]) := by
    apply mapM_range_ok
    intro i entry hi
    simp only [categoriesTable, cell_map hi]
    rfl
  rw [CategoryData.flush, hlen, hrows]
  rfl

theorem read_categories (counter : Nat) (names : List (List Char)) :
    read bars ((categories counter names).map fun entry => line bars [strNat entry.2, enclose quote entry.1]).flatten =
      some ((categories counter names).map categoryRow) := by
  apply read_lines
  intro entry _
  exact ⟨by simp, .cons (Writes.plain (clean_strNat entry.2)) (.cons (Writes.quoted entry.1) .nil)⟩

/-- The table after the calls. -/
def bidsTable (counter : Nat) (bids : List Bid) : BidData where
  counter := counter + bids.length
  uids := (bids.zipIdx counter).map (·.2)
  userIds := (bids.zipIdx counter).map fun entry => enclose quote entry.1.userId
  itemIds := (bids.zipIdx counter).map fun entry => .str entry.1.itemId
  times := (bids.zipIdx counter).map fun entry => textOf entry.1.time
  amounts := (bids.zipIdx counter).map fun entry => textOf entry.1.amount

theorem addBids_eq (counter : Nat) {bids : List Bid} (h : ∀ bid ∈ bids, bid.Exported) :
    addBids counter bids = .ok (bidsTable counter bids) := by
  induction bids using List.reverseRecOn with
  | nil => rfl
  | append_singleton bids bid ih =>
    have hbefore := ih fun b hb => h b (List.mem_append_left _ hb)
    have hbid := h bid (List.mem_append_right _ (List.mem_singleton_self bid))
    have htable : bidsTable counter (bids ++ [bid]) =
        { counter := (bidsTable counter bids).counter + 1
          uids := (bidsTable counter bids).uids ++ [(bidsTable counter bids).counter]
          userIds := (bidsTable counter bids).userIds ++ [enclose quote bid.userId]
          itemIds := (bidsTable counter bids).itemIds ++ [.str bid.itemId]
          times := (bidsTable counter bids).times ++ [textOf bid.time]
          amounts := (bidsTable counter bids).amounts ++ [textOf bid.amount] } := by
      simp [bidsTable, List.zipIdx_append, Nat.add_assoc]
    have hstep : (bidsTable counter bids).add (.str bid.userId) (.str bid.itemId) bid.time bid.amount =
        .ok (bidsTable counter (bids ++ [bid]), (bidsTable counter bids).counter) := by
      rw [BidData.add, saferstr_str, saferstr_text hbid.time, saferstr_text hbid.amount, htable]
      rfl
    rw [addBids] at hbefore ⊢
    rw [List.foldlM_append, hbefore]
    change ((do return (← (bidsTable counter bids).add (.str bid.userId) (.str bid.itemId) bid.time bid.amount).1) >>=
      pure) = _
    rw [hstep]
    rfl

/-- The cells of a bid's line. -/
def bidCells (entry : Bid × Nat) : List (List Char) :=
  [strNat entry.2, enclose quote entry.1.userId, entry.1.itemId, textOf entry.1.time, textOf entry.1.amount]

theorem flush_bids (counter : Nat) (bids : List Bid) : (bidsTable counter bids).flush other =
    .ok (((bids.zipIdx counter).map fun entry => line bars (bidCells entry)).flatten, .fresh (counter + bids.length)) := by
  have hlen : (bidsTable counter bids).uids.length = (bids.zipIdx counter).length := List.length_map ..
  have hrows : (List.range (bids.zipIdx counter).length).mapM (fun i => do
      let uid ← cell (bidsTable counter bids).uids i
      let userId ← cell (bidsTable counter bids).userIds i
      let itemId ← cell (bidsTable counter bids).itemIds i
      let time ← cell (bidsTable counter bids).times i
      let amount ← cell (bidsTable counter bids).amounts i
      return line bars [strNat uid, userId, str other itemId, time, amount]) =
        .ok ((bids.zipIdx counter).map fun entry => line bars (bidCells entry)) := by
    apply mapM_range_ok
    intro i entry hi
    simp only [bidsTable, cell_map hi]
    rfl
  rw [BidData.flush, hlen, hrows]
  rfl

theorem read_bids (counter : Nat) {bids : List Bid} (h : ∀ bid ∈ bids, bid.Exported) :
    read bars ((bids.zipIdx counter).map fun entry => line bars (bidCells entry)).flatten =
      some ((bids.zipIdx counter).map bidRow) := by
  apply read_lines
  intro entry hentry
  have hbid := h entry.1 (List.fst_mem_of_mem_zipIdx hentry)
  exact ⟨by simp [bidCells], .cons (Writes.plain (clean_strNat entry.2)) (.cons (Writes.quoted entry.1.userId)
    (.cons (Writes.plain hbid.itemId.clean) (.cons (writes_text hbid.time) (.cons (writes_text hbid.amount) .nil))))⟩

end Tables

/-- The files of the users, the categories and the bids are read back as the rows of the tables. -/
theorem export_reads (other : Json → List Char) :
    (∀ calls : List Call, (∀ call ∈ calls, call.Exported) → ∃ t text after, addUsers calls = .ok t ∧
      t.flush other = .ok (text, after) ∧ read bars text = some ((users calls).map (userRow other calls))) ∧
    (∀ (counter : Nat) (names : List (List Char)), ∃ t text after, addCategories counter names = .ok t ∧
      t.flush = .ok (text, after) ∧ read bars text = some (((firsts names).zipIdx counter).map categoryRow)) ∧
    ∀ (counter : Nat) (bids : List Bid), (∀ bid ∈ bids, bid.Exported) → ∃ t text after, addBids counter bids = .ok t ∧
      t.flush other = .ok (text, after) ∧ read bars text = some ((bids.zipIdx counter).map bidRow) := by
  refine ⟨fun calls h => ?_, fun counter names => ?_, fun counter bids h => ?_⟩
  · exact ⟨_, _, _, addUsers_eq fun call hcall => (h call hcall).legal, flush_usersTable calls, read_users h⟩
  · exact ⟨_, _, _, addCategories_eq counter names, flush_categories counter names, read_categories counter names⟩
  · exact ⟨_, _, _, addBids_eq counter h, flush_bids counter bids, read_bids counter h⟩

/-- A user whose texts hold all the delimiters. -/
def awkwardUser : Call :=
  { uid := ['|', quote, quote], rating := .str ['7'], location := .str [quote, '\n', '|'], country := .null }

theorem export_reads_awkward : ∃ t text after, addUsers [awkwardUser] = .ok t ∧
    t.flush (fun _ => []) = .ok (text, after) ∧
      read bars text = some [[['|', quote, quote], ['7'], [quote, '\n', '|'], ['N', 'U', 'L', 'L']]] := by
  have hexported : ∀ call ∈ [awkwardUser], call.Exported := by
    intro call hcall
    obtain rfl := List.mem_singleton.mp hcall
    have hdigits : ∀ c ∈ ['7'], (digit c).isSome = true := List.forall_mem_singleton.mpr (by decide)
    exact ⟨Or.inr (Or.inl ⟨_, rfl, by decide, hdigits⟩), Or.inr ⟨_, rfl⟩, Or.inl rfl⟩
  have hrow : (users [awkwardUser]).map (userRow (fun _ => []) [awkwardUser]) =
      [[['|', quote, quote], ['7'], [quote, '\n', '|'], ['N', 'U', 'L', 'L']]] := by decide +kernel
  obtain ⟨t, text, after, hadd, hflush, hread⟩ := (export_reads fun _ => []).1 [awkwardUser] hexported
  exact ⟨t, text, after, hadd, hflush, hread.trans (congrArg some hrow)⟩

end Cs564.Auction
