import Cs564.Auction.MissingKeys
import Mathlib.Data.List.Induction

/-!
# The report of missing values

`gnullmap` of `debug_parser.Parser` is to name, for each key, the files in which a value was missing.  The parser has one
flag per file for all keys: behind the first missing value of a file, only keys that no file has missed before are noted.
So the report is complete exactly if every key that was missing in an earlier file is the first one missing in each file
that misses it, and it repeats a name if two files that miss a key have one name there (`gnullmap_iff`).
-/

namespace Cs564.Auction.Debug

/-- The names of the files, as the report has them, and the keys missing in them. -/
def missingKeys (files : List (List Char × Json)) : List (List Char × List String) :=
  files.map fun file => (fileName file.1, fileMissing file.2)

/-- What a run over the files finds missing: all that they lack, or, if an exception has ended it, what those before a
file lack and the first few keys of that file. -/
def Processed (files : List (List Char × Json)) (stopped : Option PyError) (runs : List (List Char × List String)) :
    Prop :=
  match stopped with
  | none => runs = missingKeys files
  | some _ => ∃ before file after found, files = before ++ file :: after ∧ found <+: fileMissing file.2 ∧
      runs = missingKeys before ++ [(fileName file.1, found)]

/-- The files in which a key was missing. -/
def filesMissing (runs : List (List Char × List String)) (key : String) : List (List Char) :=
  (runs.filter fun run => key ∈ run.2).map (·.1)

/-- The map has an entry for each key that was missing, with the files in which it was, none of them twice. -/
def Reported (gnullmap : List (String × List (List Char))) (runs : List (List Char × List String)) : Prop :=
  ∀ key, gnullmap.lookup key = (if filesMissing runs key = [] then none else some (filesMissing runs key)) ∧
    ∀ l, gnullmap.lookup key = some l → l.Nodup

/-- The key, where it is missing again in a later file, is the first one missing there. -/
def FirstAgain (runs : List (List Char × List String)) (key : String) : Prop :=
  ∀ i run, runs[i]? = some run → key ∈ run.2 → (∃ earlier ∈ runs.take i, key ∈ earlier.2) → run.2.head? = some key

/-- No two files that miss the key have one name. -/
def Apart (runs : List (List Char × List String)) (key : String) : Prop :=
  runs.Pairwise fun run later => key ∈ run.2 → key ∈ later.2 → run.1 ≠ later.1

/-! ### What a file adds -/

section Files

variable {gnullmap : List (String × List (List Char))} {fn : List Char} {keys : List String} {key : String}

/-- `_log_if_none` for a key, as far as `logged` and `gnullmap` go. -/
def noteKey (fn : List Char) (state : Bool × List (String × List (List Char))) (key : String) :
    Bool × List (String × List (List Char)) :=
  if (state.2.lookup key).isNone ∨ state.1 = false then (true, addTo state.2 key fn) else state

/-- What `gnullmap` depends on: the name of the file, the flag, and `gnullmap` before. -/
def noted (log : NullLog) : List Char × Bool × List (String × List (List Char)) := (log.fn, log.logged, log.gnullmap)

/-- `_log_if_none` for a key, the name of the file staying. -/
def noteHere (state : List Char × Bool × List (String × List (List Char))) (key : String) :
    List Char × Bool × List (String × List (List Char)) :=
  (state.1, noteKey state.1 state.2 key)

theorem noted_note (key : String) (mark : Json) (log : NullLog) : noted (log.note key mark) = noteHere (noted log) key := by
  unfold noted noteHere NullLog.note noteKey
  cases hlookup : log.gnullmap.lookup key with
  | none =>
    have hadd : addTo log.gnullmap key log.fn = log.gnullmap ++ [(key, [log.fn])] := by
      rw [addTo, hlookup]
      rfl
    simp [hadd]
  | some l => cases hlogged : log.logged <;> simp [hlogged]

theorem foldl_noteHere (keys : List String) (fn : List Char) (state : Bool × List (String × List (List Char))) :
    keys.foldl noteHere (fn, state) = (fn, keys.foldl (noteKey fn) state) := by
  induction keys generalizing state with
  | nil => rfl
  | cons key keys ih =>
    rw [List.foldl_cons, List.foldl_cons]
    exact ih _

/-- Once the flag is set, a key is noted if no file has missed it before. -/
theorem lookup_noteKeys_logged (keys : List String) (gnullmap : List (String × List (List Char))) (key : String) :
    (keys.foldl (noteKey fn) (true, gnullmap)).2.lookup key =
      (gnullmap.lookup key).or (if key ∈ keys then some [fn] else none) := by
  induction keys generalizing gnullmap with
  | nil => simp
  | cons k keys ih =>
    rw [List.foldl_cons, noteKey]
    cases hk : gnullmap.lookup k with
    | none =>
      -- no file has missed this key before
      rw [if_pos (by simp), ih, lookup_addTo, hk]
      by_cases hkey : key = k
      · simp [hkey, hk]
      · simp [hkey]
    | some l =>
      -- the flag keeps the file out of the list
      rw [if_neg (by simp), ih]
      by_cases hkey : key = k
      · simp [hkey, hk]
      · simp [hkey]

/-- A file notes the first key found missing in it, and the other ones that no file has missed before. -/
theorem lookup_noteKeys (keys : List String) (gnullmap : List (String × List (List Char))) (key : String) :
    (keys.foldl (noteKey fn) (false, gnullmap)).2.lookup key =
      if key ∈ keys ∧ (gnullmap.lookup key = none ∨ keys.head? = some key) then
        some ((gnullmap.lookup key).getD [] ++ [fn])
      else gnullmap.lookup key := by
  cases keys with
  | nil => simp
  | cons k keys =>
    rw [List.foldl_cons, noteKey, if_pos (Or.inr rfl), lookup_noteKeys_logged, lookup_addTo]
    by_cases hkey : key = k
    · simp [hkey]
    · have hne : k ≠ key := Ne.symm hkey
      cases hlookup : gnullmap.lookup key with
      | none => by_cases hmem : key ∈ keys <;> simp [hkey, hmem]
      | some l => simp [hkey, hne]

/-- A file in front of those of a run. -/
theorem Processed.cons {files : List (List Char × Json)} {stopped : Option PyError} {runs : List (List Char × List String)}
    (h : Processed files stopped runs) (file : List Char × Json) :
    Processed (file :: files) stopped ((fileName file.1, fileMissing file.2) :: runs) := by
  cases stopped with
  | none => exact congrArg _ h
  | some e =>
    obtain ⟨before, last, after, found, rfl, hfound, rfl⟩ := h
    exact ⟨file :: before, last, after, found, rfl, hfound, rfl⟩

/-- What the files of a run leave in `gnullmap`, one after the other. -/
def noteFiles (gnullmap : List (String × List (List Char))) (runs : List (List Char × List String)) :
    List (String × List (List Char)) :=
  runs.foldl (fun gnullmap run => (run.2.foldl (noteKey run.1) (false, gnullmap)).2) gnullmap

theorem noteFiles_cons (gnullmap : List (String × List (List Char))) (run : List Char × List String)
    (runs : List (List Char × List String)) : noteFiles gnullmap (run :: runs) =
      noteFiles (run.2.foldl (noteKey run.1) (false, gnullmap)).2 runs := rfl

/-- A file whose keys, as far as they are found missing, are `keys`. -/
theorem gnullmap_of_noted {parser : DebugParser} {file : List Char} {log : NullLog} {keys : List String}
    (h : noted log = keys.foldl noteHere (noted (setFile parser file).log)) :
    log.gnullmap = (keys.foldl (noteKey (fileName file)) (false, parser.log.gnullmap)).2 := by
  have hnoted : noted (setFile parser file).log = (fileName file, false, parser.log.gnullmap) := rfl
  rw [hnoted, foldl_noteHere] at h
  exact congrArg (·.2.2) h

/-- `gnullmap` after the files is that of the keys they lack.  By induction on the files: an exception ends the run at one
of them. -/
theorem parseFiles_gnullmap (parser : DebugParser) (files : List (List Char × Json)) :
    ∃ runs, Processed files (parseFiles parser files).2 runs ∧
      (parseFiles parser files).1.log.gnullmap = noteFiles parser.log.gnullmap runs := by
  induction files generalizing parser with
  | nil => exact ⟨[], rfl, rfl⟩
  | cons entry files ih =>
    obtain ⟨file, items⟩ := entry
    have hfile := @logs_parse _ _ NullLog.note noted noteHere parser.tables noted_note items (setFile parser file).log
    rw [parseFiles]
    cases hrun : parse NullLog.note parser.tables items (setFile parser file).log with
    | ok tables log =>
      rw [hrun] at hfile
      obtain ⟨runs, hruns, hgnullmap⟩ := ih { tables, log }
      refine ⟨(fileName file, fileMissing items) :: runs, hruns.cons (file, items), ?_⟩
      rw [hgnullmap, noteFiles_cons, gnullmap_of_noted hfile.1]
    | error e log =>
      rw [hrun] at hfile
      obtain ⟨found, hfound, hlog⟩ := hfile
      exact ⟨[(fileName file, found)], ⟨[], (file, items), files, found, rfl, hfound, rfl⟩, gnullmap_of_noted hlog⟩

/-- The files after each other. -/
theorem noteFiles_append (gnullmap : List (String × List (List Char))) (runs : List (List Char × List String))
    (run : List Char × List String) : noteFiles gnullmap (runs ++ [run]) =
      (run.2.foldl (noteKey run.1) (false, noteFiles gnullmap runs)).2 := by
  rw [noteFiles, List.foldl_append]
  rfl

end Files

/-! ### The report of all files -/

section Report

variable {runs : List (List Char × List String)} {run : List Char × List String} {key : String}

theorem filesMissing_append : filesMissing (runs ++ [run]) key =
    filesMissing runs key ++ if key ∈ run.2 then [run.1] else [] := by
  rw [filesMissing, List.filter_append, List.map_append, filesMissing]
  by_cases hkey : key ∈ run.2 <;> simp [hkey]

theorem filesMissing_ne_nil : filesMissing runs key ≠ [] ↔ ∃ earlier ∈ runs, key ∈ earlier.2 := by
  rw [filesMissing, Ne, List.map_eq_nil_iff, List.filter_eq_nil_iff]
  simp

theorem firstAgain_append : FirstAgain (runs ++ [run]) key ↔
    FirstAgain runs key ∧ (key ∈ run.2 → filesMissing runs key ≠ [] → run.2.head? = some key) := by
  constructor
  · intro h
    constructor
    · intro i earlier hi hkey hbefore
      obtain ⟨hlt, -⟩ := List.getElem?_eq_some_iff.mp hi
      apply h i earlier (by rw [List.getElem?_append_left hlt, hi]) hkey
      rwa [List.take_append_of_le_length (by omega)]
    · intro hkey hmissing
      apply h runs.length run (by simp) hkey
      rw [List.take_left]
      exact filesMissing_ne_nil.mp hmissing
  · rintro ⟨hbefore, hlast⟩ i last hi hkey hearlier
    rcases Nat.lt_trichotomy i runs.length with hlt | rfl | hgt
    · rw [List.getElem?_append_left hlt] at hi
      rw [List.take_append_of_le_length (by omega)] at hearlier
      exact hbefore i last hi hkey hearlier
    · rw [List.getElem?_concat_length] at hi
      obtain rfl := Option.some.inj hi
      rw [List.take_left] at hearlier
      exact hlast hkey (filesMissing_ne_nil.mpr hearlier)
    · rw [List.getElem?_eq_none (by simp; omega)] at hi
      cases hi

/-- A key has an entry exactly if it was missing; the entry never names too many files, and it names all of them as long
as the key, where it is missing again, is the first one found missing.  By induction on the files. -/
theorem lookup_noteFiles (runs : List (List Char × List String)) (key : String) :
    ((noteFiles [] runs).lookup key = none ↔ filesMissing runs key = []) ∧
    (((noteFiles [] runs).lookup key).getD []).length ≤ (filesMissing runs key).length ∧
    (((noteFiles [] runs).lookup key).getD [] = filesMissing runs key ↔ FirstAgain runs key) := by
  induction runs using List.reverseRecOn with
  | nil => exact ⟨iff_of_true rfl rfl, Nat.le_refl _, iff_of_true rfl fun i run hi => by simp at hi⟩
  | append_singleton runs run ih =>
    obtain ⟨hnone, hle, hiff⟩ := ih
    rw [noteFiles_append, lookup_noteKeys, filesMissing_append, firstAgain_append]
    by_cases hkey : key ∈ run.2
    · rw [if_pos hkey]
      by_cases hnoted : (noteFiles [] runs).lookup key = none ∨ run.2.head? = some key
      · -- the file is noted
        have hfirst : key ∈ run.2 → filesMissing runs key ≠ [] → run.2.head? = some key :=
          fun _ hmissing => hnoted.resolve_left fun h => hmissing (hnone.mp h)
        rw [if_pos ⟨hkey, hnoted⟩, Option.getD_some, List.length_append, List.length_append, and_iff_left hfirst, ← hiff,
          List.append_left_inj]
        exact ⟨by simp, by omega, Iff.rfl⟩
      · -- the file is left out, and never made up for
        obtain ⟨hknown, hhead⟩ := not_or.mp hnoted
        rw [if_neg fun h => hnoted h.2]
        refine ⟨iff_of_false hknown (by simp), by rw [List.length_append]; omega, ?_⟩
        refine iff_of_false ?_ fun h => hhead (h.2 hkey fun hnil => hknown (hnone.mpr hnil))
        intro heq
        rw [heq, List.length_append, List.length_singleton] at hle
        omega
    · rw [if_neg hkey, if_neg fun h => hkey h.1, List.append_nil, and_iff_left fun h => absurd h hkey]
      exact ⟨hnone, hle, hiff⟩

/-- No file is named twice for a key if the names of those that miss it differ. -/
theorem nodup_filesMissing (runs : List (List Char × List String)) (key : String) :
    (filesMissing runs key).Nodup ↔ Apart runs key := by
  rw [filesMissing, List.Nodup, List.pairwise_map, List.pairwise_filter]
  simp only [decide_eq_true_eq]
  rfl

theorem reported_iff (runs : List (List Char × List String)) :
    Reported (noteFiles [] runs) runs ↔ ∀ key, FirstAgain runs key ∧ Apart runs key := by
  refine forall_congr' fun key => ?_
  obtain ⟨hnone, -, hiff⟩ := lookup_noteFiles runs key
  rw [← hiff, ← nodup_filesMissing]
  by_cases hmissing : filesMissing runs key = []
  · rw [if_pos hmissing, hnone.mpr hmissing, hmissing]
    simp
  · rw [if_neg hmissing]
    cases hlookup : (noteFiles [] runs).lookup key with
    | none => exact absurd (hnone.mp hlookup) hmissing
    | some l =>
      rw [Option.some.injEq, Option.getD_some]
      constructor
      · rintro ⟨rfl, hnodup⟩
        exact ⟨rfl, hnodup _ rfl⟩
      · rintro ⟨rfl, hnodup⟩
        refine ⟨rfl, ?_⟩
        rintro _ ⟨⟩
        exact hnodup

/-- The report names the files that lack a key, for all keys and without repetition, exactly if every key that is missing
again in a later file is the first one missing there, and files that lack one key have different names.  This is so
whatever the files are; at an exception, which ends the run, it goes for what has been read up to there. -/
theorem gnullmap_iff (categories bids categorizations : Nat) (files : List (List Char × Json)) :
    ∃ runs, Processed files (parseFiles (fresh categories bids categorizations) files).2 runs ∧
      (Reported (parseFiles (fresh categories bids categorizations) files).1.log.gnullmap runs ↔
        ∀ key, FirstAgain runs key ∧ Apart runs key) := by
  obtain ⟨runs, hruns, hgnullmap⟩ := parseFiles_gnullmap (fresh categories bids categorizations) files
  refine ⟨runs, hruns, ?_⟩
  rw [hgnullmap]
  exact reported_iff runs

/-- An item without bids, categories and texts. -/
def bareItem (itemId : Char) : Json :=
  .obj [("ItemID", .str [itemId]), ("Seller", .obj [("UserID", .str ['u'])]),
    ("Started", .str "Dec-03-01 18:10:40".toList), ("Ends", .str "Dec-13-01 18:10:40".toList)]

theorem gnullmap_bareItems : ¬ ∀ (categories bids categorizations : Nat) (files : List (List Char × Json)),
    (files.map (·.1)).Nodup → (parseFiles (fresh categories bids categorizations) files).2 = none →
      Reported (parseFiles (fresh categories bids categorizations) files).1.log.gnullmap (missingKeys files) := by
  intro h
  have hreported := h 0 0 0 [("items-0.json".toList, .arr [bareItem '1']), ("items-1.json".toList, .arr [bareItem '2'])]
    (by decide) (by decide +kernel)
  have hbids := (hreported "Bids").1
  exact absurd hbids (by decide +kernel)

end Report

end Cs564.Auction.Debug
