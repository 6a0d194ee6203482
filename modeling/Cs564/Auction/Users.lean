import Cs564.Auction.Keys
import Cs564.Lib.FirstKnown
import Cs564.Lib.Separated

/-!
# The users

`UserData.smart_add` keeps one row for each user and fills the cells that are missing as further records of the user come
in.  What a cell holds in the end is given by the records of the user alone (`usersTable`).  It is the first known value,
unless a rating comes as a string in a later record (which is stored as it is, without `saferint`) or the first known
location or country is the string `NULL` (which `smart_add` takes for the marker) (`addUsers_merged_iff`).
-/

namespace Cs564.Auction

/-- The arguments of a call of `smart_add`. -/
structure Call where
  uid : List Char
  rating : Json
  location : Json
  country : Json

/-- A string that `int` takes, or an integer. -/
def IsIntLiteral (v : Json) : Prop := (∃ s n, v = .str s ∧ intOfStr s = some n) ∨ ∃ n : Int, v = .num n

/-- `None` or a string. -/
def IsText (v : Json) : Prop := v = .null ∨ ∃ s, v = .str s

/-- A call with values of the right kinds. -/
structure Call.Legal (call : Call) : Prop where
  rating : call.rating = .null ∨ IsIntLiteral call.rating
  location : IsText call.location
  country : IsText call.country

/-- The calls, one after the other. -/
def addUsers (calls : List Call) : Except PyError UserData :=
  calls.foldlM (fun t call => t.smartAdd (.str call.uid) call.rating call.location call.country) .fresh

/-- The users, in the order of their first appearance. -/
def users (calls : List Call) : List (List Char) := firsts (calls.map Call.uid)

/-- The values that the calls for a user have in a field. -/
def valuesOf (field : Call → Json) (calls : List Call) (uid : List Char) : List Json :=
  (calls.filter fun call => call.uid = uid).map field

/-- The first value that is not `None`. -/
def firstValue (values : List Json) : Json := firstKnown Json.isNull .null values

/-- A row for each user, with the encodings of the first known values. -/
structure Merged (calls : List Call) (t : UserData) : Prop where
  uids : t.uids.map .ok = (users calls).map fun uid => saferstr (.str uid)
  ratings : t.ratings.map .ok = (users calls).map fun uid => saferint (firstValue (valuesOf Call.rating calls uid))
  locations : t.locations.map .ok = (users calls).map fun uid => saferstr (firstValue (valuesOf Call.location calls uid))
  countries : t.countries.map .ok = (users calls).map fun uid => saferstr (firstValue (valuesOf Call.country calls uid))

/-- The string that reads like `safernull`. -/
def nullText : List Char := ['N', 'U', 'L', 'L']

/-- A first known rating that is a string comes with the first record. -/
def RatingKept (values : List Json) : Prop := ∀ s, firstValue values = .str s → values.head? = some (.str s)

/-- If the first known text is `NULL`, no other text is known. -/
def TextKept (values : List Json) : Prop :=
  firstValue values = .str nullText → ∀ v ∈ values, v = .null ∨ v = .str nullText

/-- The records of a user in which nothing is changed on the way into the table. -/
structure Kept (calls : List Call) (uid : List Char) : Prop where
  rating : RatingKept (valuesOf Call.rating calls uid)
  location : TextKept (valuesOf Call.location calls uid)
  country : TextKept (valuesOf Call.country calls uid)

/-- The two tables say the same of a user. -/
def SameRow (uid : List Char) (t t' : UserData) : Prop :=
  ∀ i i' : Nat, t.uids[i]? = some (enclose quote uid) → t'.uids[i']? = some (enclose quote uid) →
    t.ratings[i]? = t'.ratings[i']? ∧ t.locations[i]? = t'.locations[i']? ∧ t.countries[i]? = t'.countries[i']?

/-- No two known values are different. -/
def Agree (values : List Json) : Prop := ∀ v ∈ values, ∀ w ∈ values, v ≠ .null → w ≠ .null → v = w

/-- The records of a user never contradict each other. -/
structure Consistent (calls : List Call) (uid : List Char) : Prop where
  rating : Agree (valuesOf Call.rating calls uid)
  location : Agree (valuesOf Call.location calls uid)
  country : Agree (valuesOf Call.country calls uid)

/-! ### The encodings -/

section Encodings

variable {v : Json} {s : List Char}

theorem isNull_iff : v.isNull = true ↔ v = .null := by
  cases v <;> simp [Json.isNull]

theorem safernull_eq : safernull = enclose quote nullText := by decide

theorem saferstr_str (s : List Char) : saferstr (.str s) = .ok (enclose quote s) := rfl

/-- `saferstr` of a text. -/
def textOf : Json → List Char
  | .str s => enclose quote s
  | _ => safernull

theorem saferstr_text (h : IsText v) : saferstr v = .ok (textOf v) := by
  rcases h with rfl | ⟨s, rfl⟩ <;> rfl

theorem textOf_eq_safernull (h : IsText v) : textOf v = safernull ↔ v = .null ∨ v = .str nullText := by
  rcases h with rfl | ⟨s, rfl⟩
  · exact iff_of_true rfl (Or.inl rfl)
  · rw [textOf, safernull_eq, (enclose_injective quote).eq_iff]
    simp

/-- `ratings[i] == safernull`. -/
def isMarker (v : Json) : Bool := v.same (.str safernull)

theorem isMarker_iff (v : Json) : isMarker v = true ↔ v = .str safernull := by
  cases v <;> simp [isMarker, Json.same]

/-- What `saferint` makes of a rating. -/
def ratingOf (v : Json) : Json :=
  match saferint v with
  | .ok w => w
  | .error _ => .str safernull

/-- A rating as it is, the marker standing for `None`. -/
def ratingAsIs : Json → Json
  | .null => .str safernull
  | v => v

/-- `saferint` of a number. -/
theorem saferint_num (n : Int) : saferint (.num n) = .ok (.num n) := by
  have htdiv : (n : Rat).num.tdiv (n : Rat).den = n := by simp
  change Except.ok (Json.num ((n : Rat).num.tdiv (n : Rat).den : Int)) = _
  rw [htdiv]

theorem saferint_str {n : Int} (h : intOfStr s = some n) : saferint (.str s) = .ok (.num n) := by
  simp only [saferint, toInt, h]
  rfl

theorem saferint_rating (h : v = .null ∨ IsIntLiteral v) : saferint v = .ok (ratingOf v) := by
  rcases h with rfl | ⟨s, n, rfl, hs⟩ | ⟨n, rfl⟩
  · rfl
  · rw [ratingOf, saferint_str hs]
  · rw [ratingOf, saferint_num]

/-- No literal is taken for the marker. -/
theorem isMarker_literal (h : IsIntLiteral v) : isMarker v = false ∧ isMarker (ratingOf v) = false := by
  rcases h with ⟨s, n, rfl, hs⟩ | ⟨n, rfl⟩
  · rw [ratingOf, saferint_str hs]
    refine ⟨?_, rfl⟩
    rw [← Bool.not_eq_true, isMarker_iff]
    intro hnull
    have hnone : intOfStr safernull = none := by decide
    rw [Json.str.inj hnull, hnone] at hs
    cases hs
  · rw [ratingOf, saferint_num]
    exact ⟨rfl, rfl⟩

end Encodings

/-! ### The table of the calls -/

/-- What a user's rating cell is filled with, one record after the other. -/
def ratingCells : List Json → List Json
  | [] => []
  | v :: values => ratingOf v :: values.map ratingAsIs

/-- The rating that the table keeps. -/
def keptRating (values : List Json) : Json := firstKnown isMarker (.str safernull) (ratingCells values)

/-- The text that the table keeps. -/
def keptText (values : List Json) : List Char := firstKnown (· == safernull) safernull (values.map textOf)

/-- A column of the table: what it keeps of the values of each user. -/
def column {γ : Type} (field : Call → Json) (kept : List Json → γ) (calls : List Call) : List γ :=
  (users calls).map fun uid => kept (valuesOf field calls uid)

/-- The table after the calls. -/
def usersTable (calls : List Call) : UserData where
  uids := (users calls).map (enclose quote)
  ratings := column Call.rating keptRating calls
  locations := column Call.location keptText calls
  countries := column Call.country keptText calls

section Table

variable {calls : List Call} {call : Call} {uid : List Char} {values : List Json} {v : Json} {field : Call → Json}

theorem valuesOf_append (field : Call → Json) (calls : List Call) (call : Call) (uid : List Char) :
    valuesOf field (calls ++ [call]) uid = valuesOf field calls uid ++ if call.uid = uid then [field call] else [] := by
  rw [valuesOf, List.filter_append, List.map_append, valuesOf]
  congr 1
  by_cases h : call.uid = uid <;> simp [h]

theorem mem_users : uid ∈ users calls ↔ ∃ call ∈ calls, call.uid = uid := by
  rw [users, mem_firsts, List.mem_map]

theorem valuesOf_ne_nil (h : uid ∈ users calls) : valuesOf field calls uid ≠ [] := by
  obtain ⟨call, hcall, huid⟩ := mem_users.mp h
  apply List.ne_nil_of_mem (a := field call)
  exact List.mem_map_of_mem (List.mem_filter.mpr ⟨hcall, by simpa using huid⟩)

theorem valuesOf_eq_nil (h : uid ∉ users calls) : valuesOf field calls uid = [] := by
  rw [valuesOf, List.map_eq_nil_iff, List.filter_eq_nil_iff]
  intro call hcall huid
  exact h (mem_users.mpr ⟨call, hcall, by simpa using huid⟩)

theorem beq_safernull_iff (s : List Char) : (s == safernull) = true ↔ s = safernull := beq_iff_eq

theorem keptText_append : keptText (values ++ [v]) =
    if keptText values = safernull then textOf v else keptText values := by
  rw [keptText, List.map_append, List.map_singleton, firstKnown_append beq_safernull_iff, ← keptText]
  simp only [beq_iff_eq]

theorem keptRating_append (hne : values ≠ []) : keptRating (values ++ [v]) =
    if isMarker (keptRating values) then ratingAsIs v else keptRating values := by
  obtain ⟨w, values, rfl⟩ := List.exists_cons_of_ne_nil hne
  have hcells : ratingCells ((w :: values) ++ [v]) = ratingCells (w :: values) ++ [ratingAsIs v] := by
    simp [ratingCells]
  rw [keptRating, hcells, firstKnown_append isMarker_iff, ← keptRating]

theorem keptText_singleton : keptText [v] = textOf v := by
  rw [← List.nil_append [v], keptText_append]
  rfl

theorem keptRating_singleton : keptRating [v] = ratingOf v := by
  rw [keptRating, ratingCells, List.map_nil, firstKnown_cons]
  by_cases h : isMarker (ratingOf v) = true
  · rw [if_pos h, (isMarker_iff _).mp h]
    rfl
  · rw [if_neg h]

theorem users_known (hmem : call.uid ∈ users calls) : users (calls ++ [call]) = users calls := by
  rw [users, List.map_append, List.map_singleton, firsts_append_of_mem (mem_firsts.mp hmem), users]

theorem users_new (hnew : call.uid ∉ users calls) : users (calls ++ [call]) = users calls ++ [call.uid] := by
  rw [users, List.map_append, List.map_singleton, firsts_append_of_notMem (mt mem_firsts.mpr hnew), users]

/-- A further record of a user changes the user's cell. -/
theorem column_known {γ : Type} {kept : List Json → γ} {i : Nat} (hi : (users calls)[i]? = some call.uid) :
    column field kept (calls ++ [call]) =
      (column field kept calls).set i (kept (valuesOf field calls call.uid ++ [field call])) := by
  have hself : kept (valuesOf field calls call.uid ++ [field call]) = kept (valuesOf field (calls ++ [call]) call.uid) := by
    rw [valuesOf_append, if_pos rfl]
  rw [column, users_known (List.mem_of_getElem? hi), hself, column]
  symm
  apply set_map (f := fun uid => kept (valuesOf field calls uid))
    (g := fun uid => kept (valuesOf field (calls ++ [call]) uid)) (nodup_firsts (calls.map Call.uid)) hi
  intro uid _ hne
  rw [valuesOf_append, if_neg (Ne.symm hne), List.append_nil]

/-- The first record of a user makes a new cell. -/
theorem column_new {γ : Type} {kept : List Json → γ} (hnew : call.uid ∉ users calls) :
    column field kept (calls ++ [call]) = column field kept calls ++ [kept [field call]] := by
  rw [column, users_new hnew, List.map_append, column]
  congr 1
  · apply List.map_congr_left
    intro uid huid
    have hne : call.uid ≠ uid := fun h => hnew (h ▸ huid)
    rw [valuesOf_append, if_neg hne, List.append_nil]
  · rw [List.map_singleton, valuesOf_append, if_pos rfl, valuesOf_eq_nil hnew, List.nil_append]

theorem getElem?_column {γ : Type} {kept : List Json → γ} {i : Nat} (hi : (users calls)[i]? = some uid) :
    (column field kept calls)[i]? = some (kept (valuesOf field calls uid)) := by
  rw [column, List.getElem?_map, hi, Option.map_some]

private theorem set_self {γ : Type} {cells : List γ} {i : Nat} {x : γ} (h : cells[i]? = some x) : cells.set i x = cells := by
  obtain ⟨hi, rfl⟩ := List.getElem?_eq_some_iff.mp h
  exact List.set_getElem_self hi

/-- A text cell takes a further value. -/
theorem fillText_eq {cells : List (List Char)} {i : Nat} (hcell : cells[i]? = some (keptText values)) (hv : IsText v) :
    fillText cells i v = .ok (cells.set i (keptText (values ++ [v]))) := by
  have hget : cell cells i = .ok (keptText values) := by rw [cell, hcell]
  have hself : cells.set i (keptText values) = cells := set_self hcell
  rw [fillText, hget, keptText_append]
  change (if keptText values = safernull ∧ v.isNull = false then _ else _) = _
  by_cases hknown : keptText values = safernull
  · cases hnull : v.isNull with
    | true =>
      obtain rfl := isNull_iff.mp hnull
      rw [hknown] at hself
      rw [if_neg (by simp), if_pos hknown]
      exact congrArg Except.ok hself.symm
    | false =>
      rw [if_pos ⟨hknown, rfl⟩, if_pos hknown, saferstr_text hv]
      rfl
  · rw [if_neg fun h => hknown h.1, if_neg hknown, hself]
    rfl

/-- A rating cell takes a further value. -/
theorem fillRating_eq {cells : List Json} {i : Nat} (hcell : cells[i]? = some (keptRating values)) (hne : values ≠ []) :
    (if isMarker (keptRating values) && !v.isNull then cells.set i v else cells) =
      cells.set i (keptRating (values ++ [v])) := by
  have hself : cells.set i (keptRating values) = cells := set_self hcell
  rw [keptRating_append hne]
  by_cases hmarker : isMarker (keptRating values) = true
  · cases hnull : v.isNull with
    | true =>
      obtain rfl := isNull_iff.mp hnull
      rw [(isMarker_iff _).mp hmarker] at hself ⊢
      exact hself.symm
    | false =>
      have hraw : ratingAsIs v = v := by
        cases v <;> first | rfl | cases hnull
      rw [if_pos hmarker, hraw, hmarker]
      rfl
  · rw [if_neg hmarker, hself, if_neg (by simp [hmarker])]

/-- The row of a key, if there is one. -/
theorem firstRow_keys (keys : List (List Char)) (key : List Char) :
    (firstRow (keys.map (enclose quote)).length (fun i => (keys.map (enclose quote))[i]? == some (enclose quote key)) =
        none ∧ key ∉ keys) ∨
      ∃ i, firstRow (keys.map (enclose quote)).length (fun i => (keys.map (enclose quote))[i]? ==
        some (enclose quote key)) = some i ∧ keys[i]? = some key := by
  cases hrow : firstRow (keys.map (enclose quote)).length (fun i => (keys.map (enclose quote))[i]? ==
      some (enclose quote key)) with
  | none => exact Or.inl ⟨rfl, fun hmem => notMem_of_firstRow hrow (List.mem_map_of_mem hmem)⟩
  | some i =>
    obtain ⟨-, hi⟩ := firstRow_some hrow
    rw [List.getElem?_map, beq_iff_eq, Option.map_eq_some_iff] at hi
    obtain ⟨key', hkey', heq⟩ := hi
    exact Or.inr ⟨i, rfl, by rw [hkey', enclose_injective quote heq]⟩

theorem usersTable_new (hnew : call.uid ∉ users calls) : usersTable (calls ++ [call]) =
    { uids := (usersTable calls).uids ++ [enclose quote call.uid]
      ratings := (usersTable calls).ratings ++ [ratingOf call.rating]
      locations := (usersTable calls).locations ++ [textOf call.location]
      countries := (usersTable calls).countries ++ [textOf call.country] } := by
  rw [usersTable, column_new hnew, column_new hnew, column_new hnew, users_new hnew, List.map_append, keptRating_singleton,
    keptText_singleton, keptText_singleton]
  rfl

theorem usersTable_known {i : Nat} (hi : (users calls)[i]? = some call.uid) : usersTable (calls ++ [call]) =
    { uids := (usersTable calls).uids
      ratings := (usersTable calls).ratings.set i (keptRating (valuesOf Call.rating calls call.uid ++ [call.rating]))
      locations := (usersTable calls).locations.set i (keptText (valuesOf Call.location calls call.uid ++ [call.location]))
      countries := (usersTable calls).countries.set i (keptText (valuesOf Call.country calls call.uid ++ [call.country])) } := by
  rw [usersTable, column_known hi, column_known hi, column_known hi, users_known (List.mem_of_getElem? hi)]
  rfl

section Rows

variable {t : UserData} {uid : List Char} {rating location country : Json}

/-- A user who is not in the table gets a row of their own. -/
theorem smartAdd_new (hrow : firstRow t.uids.length (fun i => t.uids[i]? == some (enclose quote uid)) = none) :
    t.smartAdd (.str uid) rating location country = do
      let saferrating ← saferint rating
      let saferlocation ← saferstr location
      let safercountry ← saferstr country
      return { uids := t.uids ++ [enclose quote uid], ratings := t.ratings ++ [saferrating],
               locations := t.locations ++ [saferlocation], countries := t.countries ++ [safercountry] } := by
  have hstr : saferstr (.str uid) = .ok (enclose quote uid) := rfl
  rw [UserData.smartAdd, hstr]
  simp only [Json.isNull, Bool.false_eq_true, if_false, ok_bind, hrow]

/-- The row of a known user is filled in. -/
theorem smartAdd_known {i : Nat}
    (hrow : firstRow t.uids.length (fun i => t.uids[i]? == some (enclose quote uid)) = some i) :
    t.smartAdd (.str uid) rating location country = do
      let known ← cell t.ratings i
      let locations ← fillText t.locations i location
      let countries ← fillText t.countries i country
      return { t with
        ratings := if isMarker known && !rating.isNull then t.ratings.set i rating else t.ratings, locations, countries } := by
  have hstr : saferstr (.str uid) = .ok (enclose quote uid) := rfl
  rw [UserData.smartAdd, hstr]
  simp only [Json.isNull, Bool.false_eq_true, if_false, ok_bind, hrow]
  rfl

end Rows

/-- A call of `smart_add` on the table of the calls before. -/
theorem smartAdd_usersTable (hlegal : call.Legal) :
    (usersTable calls).smartAdd (.str call.uid) call.rating call.location call.country =
      .ok (usersTable (calls ++ [call])) := by
  have huids : (usersTable calls).uids = (users calls).map (enclose quote) := rfl
  rcases firstRow_keys (users calls) call.uid with ⟨hrow, hnew⟩ | ⟨i, hrow, hi⟩
  · -- the first record of the user: every value is encoded
    rw [smartAdd_new (by rw [huids, hrow]), usersTable_new hnew, saferint_rating hlegal.rating,
      saferstr_text hlegal.location, saferstr_text hlegal.country]
    rfl
  · -- a further record: the cells that still hold the marker are filled
    have hne : valuesOf Call.rating calls call.uid ≠ [] := valuesOf_ne_nil (List.mem_of_getElem? hi)
    have hrating : (usersTable calls).ratings[i]? = some (keptRating (valuesOf Call.rating calls call.uid)) :=
      getElem?_column hi
    have hcell : cell (usersTable calls).ratings i = .ok (keptRating (valuesOf Call.rating calls call.uid)) := by
      rw [cell, hrating]
    have hlocation : fillText (usersTable calls).locations i call.location = .ok _ :=
      fillText_eq (getElem?_column hi) hlegal.location
    have hcountry : fillText (usersTable calls).countries i call.country = .ok _ :=
      fillText_eq (getElem?_column hi) hlegal.country
    rw [smartAdd_known (by rw [huids, hrow]), usersTable_known hi, ← fillRating_eq hrating hne, hcell, hlocation, hcountry]
    rfl

/-- The table of the calls is the one they leave behind; by induction on the calls. -/
theorem addUsers_eq (h : ∀ call ∈ calls, call.Legal) : addUsers calls = .ok (usersTable calls) := by
  induction calls using List.reverseRecOn with
  | nil => rfl
  | append_singleton calls call ih =>
    have hbefore := ih fun c hc => h c (List.mem_append_left _ hc)
    have hstep := @smartAdd_usersTable calls call (h call (List.mem_append_right _ (List.mem_singleton_self call)))
    rw [addUsers] at hbefore ⊢
    rw [List.foldlM_append, hbefore]
    change ((usersTable calls).smartAdd (.str call.uid) call.rating call.location call.country >>= pure) = _
    rw [hstep]
    rfl

end Table

/-! ### What the cells hold -/

section Cells

variable {values : List Json} {v : Json}

theorem firstValue_null (values : List Json) : firstValue (.null :: values) = firstValue values := firstKnown_cons

theorem firstValue_known (hv : v ≠ .null) (values : List Json) : firstValue (v :: values) = v := by
  rw [firstValue, firstKnown_cons, if_neg fun h => hv (isNull_iff.mp h)]

theorem ne_null_of_literal (hv : IsIntLiteral v) : v ≠ .null := by
  rcases hv with ⟨s, n, rfl, -⟩ | ⟨n, rfl⟩ <;> nofun

theorem firstValue_cases (values : List Json) :
    ((∀ v ∈ values, v = .null) ∧ firstValue values = .null) ∨
      (firstValue values ∈ values ∧ firstValue values ≠ .null) := by
  rcases @firstKnown_cases _ Json.isNull .null values with ⟨hall, hnull⟩ | ⟨hmem, hknown⟩
  · exact Or.inl ⟨fun v hv => isNull_iff.mp (hall v hv), hnull⟩
  · refine Or.inr ⟨hmem, fun hnull => ?_⟩
    rw [firstValue] at hnull
    rw [hnull] at hknown
    cases hknown

/-- Later ratings go in as they are. -/
theorem firstKnown_asIs (h : ∀ v ∈ values, v = .null ∨ IsIntLiteral v) :
    firstKnown isMarker (.str safernull) (values.map ratingAsIs) = ratingAsIs (firstValue values) := by
  induction values with
  | nil => rfl
  | cons v values ih =>
    have hrest := ih fun w hw => h w (List.mem_cons_of_mem _ hw)
    rw [List.map_cons, firstKnown_cons]
    rcases h v List.mem_cons_self with rfl | hv
    · have hmarker : isMarker (ratingAsIs .null) = true := (isMarker_iff _).mpr rfl
      rw [firstValue_null, if_pos hmarker, hrest]
    · have hraw : ratingAsIs v = v := by
        rcases hv with ⟨s, n, rfl, -⟩ | ⟨n, rfl⟩ <;> rfl
      rw [firstValue_known (ne_null_of_literal hv), hraw, (isMarker_literal hv).1]
      rfl

/-- The rating in the table is the encoding of the first known one exactly if that one was encoded. -/
theorem keptRating_iff (hne : values ≠ []) (h : ∀ v ∈ values, v = .null ∨ IsIntLiteral v) :
    saferint (firstValue values) = .ok (keptRating values) ↔ RatingKept values := by
  obtain ⟨v, values, rfl⟩ := List.exists_cons_of_ne_nil hne
  rw [keptRating, ratingCells, firstKnown_cons, RatingKept, List.head?_cons]
  rcases h v List.mem_cons_self with rfl | hv
  · -- the first record has no rating
    have hmarker : isMarker (ratingOf .null) = true := (isMarker_iff _).mpr rfl
    rw [firstValue_null, if_pos hmarker, firstKnown_asIs fun w hw => h w (List.mem_cons_of_mem _ hw)]
    rcases firstValue_cases values with ⟨-, hnull⟩ | ⟨hmem, hknown⟩
    · rw [hnull]
      exact iff_of_true rfl fun s hs => nomatch hs
    · rcases (h _ (List.mem_cons_of_mem _ hmem)).resolve_left hknown with ⟨s, n, hs, hn⟩ | ⟨n, hn⟩
      · rw [hs, saferint_str hn]
        refine iff_of_false (fun heq => nomatch Except.ok.inj heq) fun hkept => ?_
        exact nomatch Option.some.inj (hkept s rfl)
      · rw [hn, saferint_num]
        exact iff_of_true rfl fun s hs => nomatch hs
  · rw [firstValue_known (ne_null_of_literal hv), (isMarker_literal hv).2]
    exact iff_of_true (saferint_rating (Or.inr hv)) fun s hs => congrArg some hs

/-- The text cell stays open as long as all texts read like the marker. -/
theorem keptText_eq_safernull (h : ∀ v ∈ values, IsText v) :
    keptText values = safernull ↔ ∀ v ∈ values, v = .null ∨ v = .str nullText := by
  constructor
  · intro hkept v hv
    rcases @firstKnown_cases _ (· == safernull) safernull (values.map textOf) with ⟨hmiss, -⟩ | ⟨-, hknown⟩
    · rw [← textOf_eq_safernull (h v hv)]
      simpa using hmiss _ (List.mem_map_of_mem hv)
    · rw [← keptText, hkept] at hknown
      simp at hknown
  · intro hmiss
    apply firstKnown_of_missing
    intro cell hcell
    obtain ⟨v, hv, rfl⟩ := List.mem_map.mp hcell
    rw [beq_iff_eq, textOf_eq_safernull (h v hv)]
    exact hmiss v hv

/-- The text in the table is the encoding of the first known one exactly if that one is not taken for the marker. -/
theorem keptText_iff (h : ∀ v ∈ values, IsText v) :
    saferstr (firstValue values) = .ok (keptText values) ↔ TextKept values := by
  induction values with
  | nil => exact iff_of_true rfl fun heq => nomatch heq
  | cons v values ih =>
    have hv := h v List.mem_cons_self
    have hrest : ∀ w ∈ values, IsText w := fun w hw => h w (List.mem_cons_of_mem _ hw)
    rw [keptText, List.map_cons, firstKnown_cons, ← keptText, TextKept]
    simp only [beq_iff_eq]
    by_cases hnull : v = .null
    · subst hnull
      have hmissing : textOf .null = safernull := rfl
      rw [firstValue_null, if_pos hmissing, ih hrest, TextKept]
      simp
    · rw [firstValue_known hnull]
      by_cases htext : v = .str nullText
      · -- the first known text reads like the marker
        rw [if_pos ((textOf_eq_safernull hv).mpr (Or.inr htext)), htext, saferstr_str, ← safernull_eq]
        constructor
        · intro hkept _ w hw
          rcases List.mem_cons.mp hw with rfl | hw
          · exact Or.inr rfl
          · exact (keptText_eq_safernull hrest).mp (Except.ok.inj hkept).symm w hw
        · intro hkept
          rw [(keptText_eq_safernull hrest).mpr fun w hw => hkept rfl w (List.mem_cons_of_mem _ hw)]
      · have hneq : textOf v ≠ safernull := by
          rw [Ne, textOf_eq_safernull hv]
          exact not_or.mpr ⟨hnull, htext⟩
        rw [if_neg hneq, saferstr_text hv]
        exact iff_of_true rfl fun heq => absurd heq htext

/-- Values that agree have the same first known one in any order. -/
theorem firstValue_perm {values' : List Json} (hperm : values'.Perm values) (hagree : Agree values) :
    firstValue values' = firstValue values := by
  rcases firstValue_cases values' with ⟨hall', hnull'⟩ | ⟨hmem', hknown'⟩
  · rcases firstValue_cases values with ⟨-, hnull⟩ | ⟨hmem, hknown⟩
    · rw [hnull, hnull']
    · exact absurd (hall' _ (hperm.mem_iff.mpr hmem)) hknown
  · rcases firstValue_cases values with ⟨hall, -⟩ | ⟨hmem, hknown⟩
    · exact absurd (hall _ (hperm.mem_iff.mp hmem')) hknown'
    · exact hagree _ (hperm.mem_iff.mp hmem') _ hmem hknown' hknown

/-- Ratings that agree leave the same cell in any order. -/
theorem keptRating_perm {values' : List Json} (hne : values ≠ []) (h : ∀ v ∈ values, v = .null ∨ IsIntLiteral v)
    (hperm : values'.Perm values) (hagree : Agree values) (hkept : RatingKept values) (hkept' : RatingKept values') :
    keptRating values = keptRating values' := by
  have hne' : values' ≠ [] := fun hnil => hne (List.nil_perm.mp (hnil ▸ hperm))
  have hok := (keptRating_iff hne h).mpr hkept
  have hok' := (keptRating_iff hne' fun v hv => h v (hperm.mem_iff.mp hv)).mpr hkept'
  rw [firstValue_perm hperm hagree] at hok'
  exact Except.ok.inj (hok.symm.trans hok')

/-- The same for texts. -/
theorem keptText_perm {values' : List Json} (h : ∀ v ∈ values, IsText v) (hperm : values'.Perm values)
    (hagree : Agree values) (hkept : TextKept values) (hkept' : TextKept values') : keptText values = keptText values' := by
  have hok := (keptText_iff h).mpr hkept
  have hok' := (keptText_iff fun v hv => h v (hperm.mem_iff.mp hv)).mpr hkept'
  rw [firstValue_perm hperm hagree] at hok'
  exact Except.ok.inj (hok.symm.trans hok')

end Cells

/-! ### The first known values -/

section Merging

variable {calls : List Call}

/-- What is known of a field in every call is known of the values of every user. -/
theorem forall_valuesOf {P : Json → Prop} {field : Call → Json} (h : ∀ call ∈ calls, P (field call)) (uid : List Char) :
    ∀ v ∈ valuesOf field calls uid, P v := by
  intro v hv
  obtain ⟨call, hcall, rfl⟩ := List.mem_map.mp hv
  exact h call (List.mem_filter.mp hcall).1

private theorem map_ok_iff {ε γ κ : Type} {keys : List κ} {f : κ → γ} {g : κ → Except ε γ} :
    (keys.map f).map .ok = keys.map g ↔ ∀ k ∈ keys, g k = .ok (f k) := by
  rw [List.map_map, List.map_inj_left]
  exact forall₂_congr fun k _ => eq_comm

/-- The table is the one the first known values give exactly if no user's values are changed on the way. -/
theorem merged_iff (h : ∀ call ∈ calls, call.Legal) :
    Merged calls (usersTable calls) ↔ ∀ uid ∈ users calls, Kept calls uid := by
  have hrating : ∀ uid ∈ users calls, saferint (firstValue (valuesOf Call.rating calls uid)) =
      .ok (keptRating (valuesOf Call.rating calls uid)) ↔ RatingKept (valuesOf Call.rating calls uid) :=
    fun uid huid => keptRating_iff (valuesOf_ne_nil huid) (forall_valuesOf (fun call hcall => (h call hcall).rating) uid)
  have hlocation := fun uid => keptText_iff (forall_valuesOf (fun call hcall => (h call hcall).location) uid)
  have hcountry := fun uid => keptText_iff (forall_valuesOf (fun call hcall => (h call hcall).country) uid)
  constructor
  · intro hmerged uid huid
    refine ⟨?_, ?_, ?_⟩
    · exact (hrating uid huid).mp (map_ok_iff.mp hmerged.ratings uid huid)
    · exact (hlocation uid).mp (map_ok_iff.mp hmerged.locations uid huid)
    · exact (hcountry uid).mp (map_ok_iff.mp hmerged.countries uid huid)
  · intro hkept
    refine ⟨?_, ?_, ?_, ?_⟩
    · exact map_ok_iff.mpr fun uid _ => rfl
    · exact map_ok_iff.mpr fun uid huid => (hrating uid huid).mpr (hkept uid huid).rating
    · exact map_ok_iff.mpr fun uid huid => (hlocation uid).mpr (hkept uid huid).location
    · exact map_ok_iff.mpr fun uid huid => (hcountry uid).mpr (hkept uid huid).country

/-- The order of the records does not matter where they agree. -/
theorem sameRow_of_perm {calls' : List Call} (h : ∀ call ∈ calls, call.Legal) (hperm : calls'.Perm calls)
    {uid : List Char} (hkept : Kept calls uid) (hkept' : Kept calls' uid) (hagree : Consistent calls uid) :
    SameRow uid (usersTable calls) (usersTable calls') := by
  have hvalues : ∀ field, (valuesOf field calls' uid).Perm (valuesOf field calls uid) := fun field =>
    (hperm.filter _).map field
  intro i i' hi hi'
  have hat : ∀ (calls : List Call) (i : Nat), (usersTable calls).uids[i]? = some (enclose quote uid) →
      (users calls)[i]? = some uid := by
    intro calls i hi
    obtain ⟨uid', huid', heq⟩ := Option.map_eq_some_iff.mp (List.getElem?_map .. ▸ hi)
    rw [huid', enclose_injective quote heq]
  have hrow := hat calls i hi
  have hrow' := hat calls' i' hi'
  have hrating := keptRating_perm (valuesOf_ne_nil (List.mem_of_getElem? hrow))
    (forall_valuesOf (fun call hcall => (h call hcall).rating) uid) (hvalues _) hagree.rating hkept.rating hkept'.rating
  have hlocation := keptText_perm (forall_valuesOf (fun call hcall => (h call hcall).location) uid) (hvalues _)
    hagree.location hkept.location hkept'.location
  have hcountry := keptText_perm (forall_valuesOf (fun call hcall => (h call hcall).country) uid) (hvalues _)
    hagree.country hkept.country hkept'.country
  simp only [usersTable, getElem?_column hrow, getElem?_column hrow', hrating, hlocation, hcountry, and_self]

/-- The rows are those of the first known values exactly if no user's values are changed on the way into the table, and
then they do not depend on the order of records that agree. -/
theorem addUsers_merged_iff (calls : List Call) (h : ∀ call ∈ calls, call.Legal) :
    ∃ t, addUsers calls = .ok t ∧ (Merged calls t ↔ ∀ uid ∈ users calls, Kept calls uid) ∧
      ∀ calls' t', calls'.Perm calls → addUsers calls' = .ok t' →
        ∀ uid, Kept calls uid → Kept calls' uid → Consistent calls uid → SameRow uid t t' := by
  refine ⟨usersTable calls, addUsers_eq h, merged_iff h, ?_⟩
  intro calls' t' hperm ht' uid hkept hkept' hagree
  have heq : addUsers calls' = .ok (usersTable calls') := addUsers_eq fun call hcall => h call (hperm.mem_iff.mp hcall)
  rw [heq] at ht'
  obtain rfl := Except.ok.inj ht'
  exact sameRow_of_perm h hperm hkept hkept' hagree

/-- A record without values and one with all of them. -/
def twoRecords (rating : Json) : List Call :=
  [{ uid := ['u'], rating := .null, location := .null, country := .null },
    { uid := ['u'], rating := rating, location := .str ['R', 'o', 'm', 'e'], country := .str ['I', 't', 'a', 'l', 'y'] }]

theorem addUsers_merged_iff_number :
    ∃ t, addUsers (twoRecords (.num (7 : Int))) = .ok t ∧
      (Merged (twoRecords (.num (7 : Int))) t ↔ ∀ uid ∈ users (twoRecords (.num (7 : Int))),
        Kept (twoRecords (.num (7 : Int))) uid) ∧
      ∀ calls' t', calls'.Perm (twoRecords (.num (7 : Int))) → addUsers calls' = .ok t' → ∀ uid,
        Kept (twoRecords (.num (7 : Int))) uid → Kept calls' uid → Consistent (twoRecords (.num (7 : Int))) uid →
          SameRow uid t t' := by
  apply addUsers_merged_iff
  intro call hcall
  rcases List.mem_pair.mp hcall with rfl | rfl
  · exact ⟨Or.inl rfl, Or.inl rfl, Or.inl rfl⟩
  · exact ⟨Or.inr (Or.inr ⟨7, rfl⟩), Or.inr ⟨_, rfl⟩, Or.inr ⟨_, rfl⟩⟩

theorem addUsers_007 : ¬ ∀ calls : List Call, (∀ call ∈ calls, call.Legal) → ∃ t, addUsers calls = .ok t ∧ Merged calls t := by
  intro h
  have hliteral : intOfStr ['0', '0', '7'] = some 7 := by decide
  have hlegal : ∀ call ∈ twoRecords (.str ['0', '0', '7']), call.Legal := by
    intro call hcall
    rcases List.mem_pair.mp hcall with rfl | rfl
    · exact ⟨Or.inl rfl, Or.inl rfl, Or.inl rfl⟩
    · exact ⟨Or.inr (Or.inl ⟨_, _, rfl, hliteral⟩), Or.inr ⟨_, rfl⟩, Or.inr ⟨_, rfl⟩⟩
  obtain ⟨t, ht, hmerged⟩ := h _ hlegal
  rw [addUsers_eq hlegal] at ht
  obtain rfl := Except.ok.inj ht
  have hkept := (merged_iff hlegal).mp hmerged ['u'] (by decide)
  exact absurd (hkept.rating ['0', '0', '7'] rfl) nofun

end Merging

end Cs564.Auction
