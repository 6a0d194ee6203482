import Cs564.Auction.Export

/-!
# The import of the users

`load.txt` imports the users' file and sets the locations and countries that are `NULL` to null.  The text `NULL` stands
for `None` in the file, but it is also what the string `NULL` is written as.  So every user comes back as it was exactly
if no first known location or country is this string (`import_iff`).
-/

namespace Cs564.Auction

/-- A row of the table `User`, with null for `none`. -/
structure User where
  uid : List Char
  rating : List Char
  location : Option (List Char)
  country : Option (List Char)

/-- `update User set location = null where location = 'NULL'`, for one text. -/
def setNull (text : List Char) : Option (List Char) := if text = nullText then none else some text

/-- The lines of `load.txt` about the users, on the text of their file; a row has four fields. -/
def loadUsers (text : List Char) : Option (List User) := do
  (← read bars text).mapM fun fields =>
    match fields with
    | [uid, rating, location, country] => some { uid, rating, location := setNull location, country := setNull country }
    | _ => none

/-- A value as it was: `none` for `None`, and the string otherwise. -/
def original : Json → Option (List Char)
  | .str s => some s
  | _ => none

section Import

variable {other : Json → List Char} {calls : List Call} {values : List Json}

theorem keptBare_cons (v : Json) (values : List Json) :
    keptBare (v :: values) = if bareText v = nullText then keptBare values else bareText v := by
  rw [keptBare, List.map_cons, firstKnown_cons, ← keptBare]
  simp only [beq_iff_eq]

/-- A text survives the export and the import exactly if it is not the one that stands for `None`. -/
theorem setNull_iff (h : ∀ v ∈ values, IsText v) :
    setNull (keptBare values) = original (firstValue values) ↔ firstValue values ≠ .str nullText := by
  induction values with
  | nil => exact iff_of_true rfl nofun
  | cons v values ih =>
    have hrest := ih fun w hw => h w (List.mem_cons_of_mem _ hw)
    rw [keptBare_cons]
    rcases h v List.mem_cons_self with rfl | ⟨s, rfl⟩
    · have hbare : bareText .null = nullText := rfl
      rw [firstValue_null, if_pos hbare, hrest]
    · have hbare : bareText (.str s) = s := rfl
      have hknown : Json.str s ≠ .null := nofun
      rw [firstValue_known hknown, original, hbare]
      by_cases hs : s = nullText
      · -- the string is taken for `None`, and whatever the table keeps instead is another text or null
        rw [if_pos hs, hs, setNull]
        refine iff_of_false ?_ (fun hne => hne rfl)
        split
        · nofun
        · rename_i hkept
          exact fun heq => hkept (Option.some.inj heq)
      · rw [if_neg hs, setNull, if_neg hs]
        exact iff_of_true rfl fun heq => hs (Json.str.inj heq)

/-- The rows that the import makes of the users' file. -/
theorem loadUsers_eq (h : ∀ call ∈ calls, call.Exported) :
    loadUsers ((users calls).map fun uid => line bars (userCells other calls uid)).flatten =
      some ((users calls).map fun uid =>
        { uid := uid, rating := ratingText other (valuesOf Call.rating calls uid),
          location := setNull (keptBare (valuesOf Call.location calls uid)),
          country := setNull (keptBare (valuesOf Call.country calls uid)) }) := by
  rw [loadUsers, read_users h]
  change ((users calls).map (userRow other calls)).mapM _ = _
  induction users calls with
  | nil => rfl
  | cons uid uids ih =>
    rw [List.map_cons, List.mapM_cons, ih]
    rfl

/-- The users come back from the import as they were exactly if no first known location or country is `NULL`. -/
theorem import_iff (other : Json → List Char) (calls : List Call) (h : ∀ call ∈ calls, call.Exported) :
    ∃ t text after rows, addUsers calls = .ok t ∧ t.flush other = .ok (text, after) ∧ loadUsers text = some rows ∧
      ((rows.map fun user => (user.uid, user.location, user.country)) = ((users calls).map fun uid =>
          (uid, original (firstValue (valuesOf Call.location calls uid)),
            original (firstValue (valuesOf Call.country calls uid)))) ↔
        ∀ uid ∈ users calls, firstValue (valuesOf Call.location calls uid) ≠ .str nullText ∧
          firstValue (valuesOf Call.country calls uid) ≠ .str nullText) := by
  refine ⟨_, _, _, _, addUsers_eq fun call hcall => (h call hcall).legal, flush_usersTable calls, loadUsers_eq h, ?_⟩
  have hlocation := forall_valuesOf fun call hcall => (h call hcall).location
  have hcountry := forall_valuesOf fun call hcall => (h call hcall).country
  rw [List.map_map, List.map_inj_left]
  refine forall₂_congr fun uid _ => ?_
  rw [← setNull_iff (hlocation uid), ← setNull_iff (hcountry uid), Function.comp_apply, Prod.mk.injEq, Prod.mk.injEq]
  exact and_iff_right rfl

/-- A user without a rating and a country. -/
def oneUser (location : List Char) : List Call :=
  [{ uid := ['u'], rating := .null, location := .str location, country := .null }]

theorem oneUser_exported (location : List Char) : ∀ call ∈ oneUser location, call.Exported := by
  intro call hcall
  obtain rfl := List.mem_singleton.mp hcall
  exact ⟨Or.inl rfl, Or.inr ⟨location, rfl⟩, Or.inl rfl⟩

theorem import_iff_null :
    ∃ t text after rows, addUsers (oneUser "null".toList) = .ok t ∧ t.flush (fun _ => []) = .ok (text, after) ∧
      loadUsers text = some rows ∧
      ((rows.map fun user => (user.uid, user.location, user.country)) = ((users (oneUser "null".toList)).map fun uid =>
          (uid, original (firstValue (valuesOf Call.location (oneUser "null".toList) uid)),
            original (firstValue (valuesOf Call.country (oneUser "null".toList) uid)))) ↔
        ∀ uid ∈ users (oneUser "null".toList),
          firstValue (valuesOf Call.location (oneUser "null".toList) uid) ≠ .str nullText ∧
          firstValue (valuesOf Call.country (oneUser "null".toList) uid) ≠ .str nullText) :=
  import_iff (fun _ => []) (oneUser "null".toList) (oneUser_exported "null".toList)

theorem import_NULL : ¬ ∀ (other : Json → List Char) (calls : List Call), (∀ call ∈ calls, call.Exported) →
    ∃ t text after rows, addUsers calls = .ok t ∧ t.flush other = .ok (text, after) ∧ loadUsers text = some rows ∧
      (rows.map fun user => (user.uid, user.location, user.country)) = (users calls).map fun uid =>
        (uid, original (firstValue (valuesOf Call.location calls uid)),
          original (firstValue (valuesOf Call.country calls uid))) := by
  intro h
  have hexported := oneUser_exported nullText
  obtain ⟨t, text, after, rows, ht, htext, hrows, heq⟩ := h (fun _ => []) (oneUser nullText) hexported
  rw [addUsers_eq fun call hcall => (hexported call hcall).legal] at ht
  obtain rfl := Except.ok.inj ht
  rw [flush_usersTable] at htext
  obtain ⟨rfl, -⟩ := Prod.mk.inj (Except.ok.inj htext)
  rw [loadUsers_eq hexported] at hrows
  obtain rfl := Option.some.inj hrows
  exact absurd heq (by decide)

end Import

end Cs564.Auction
