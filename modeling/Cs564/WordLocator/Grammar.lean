import Cs564.WordLocator.Command
/-!
# The grammar of the commands

`Reads` says what the commands are, without any reference to regular expressions: a keyword in any letter case and its
arguments, with white space around them.  `Command::Parse` accepts exactly these commands, with their arguments as they
stand in the line (`parse_grammar`).
-/

namespace Cs564.WordLocator

open Regex

/-- White space, or nothing. -/
def Blank (text : List Char) : Prop := ∀ ch ∈ text, isSpace ch = true

/-- The line begins with the keyword, in any letter case and behind white space, and goes on with `tail`. -/
def Opens (keyword line tail : List Char) : Prop :=
  ∃ gap word, line = gap ++ (word ++ tail) ∧ Blank gap ∧ toLower word = keyword

/-- White space and then `text`. -/
def Spaced (tail text : List Char) : Prop := ∃ gap, gap ≠ [] ∧ Blank gap ∧ tail = gap ++ text

/-- A path between double quotes, which may hold quotes and white space itself. -/
def Quoted (tail path : List Char) : Prop :=
  ∃ behind, Spaced tail (quote :: (path ++ quote :: behind)) ∧ Blank behind

/-- A path without white space. -/
def Plain (tail path : List Char) : Prop :=
  path ≠ [] ∧ (∀ ch ∈ path, isSpace ch = false) ∧ ∃ behind, Spaced tail (path ++ behind) ∧ Blank behind

/-- A decimal numeral without leading zero. -/
def IsNumeral (digits : List Char) : Prop :=
  (∃ d rest, digits = d :: rest ∧ d ≠ '0') ∧ ∀ ch ∈ digits, ch.isDigit = true

/-- A word of letters, digits and apostrophes, and a numeral. -/
def Located (tail word digits : List Char) : Prop :=
  word ≠ [] ∧ (∀ ch ∈ word, isWordChar ch = true) ∧ IsNumeral digits ∧
    ∃ between behind, Spaced tail (word ++ between) ∧ Spaced between (digits ++ behind) ∧ Blank behind

/-- The line is a command, and what it says. -/
inductive Reads (line : List Char) : List (List Char) → Prop
  | new {tail} : Opens ['n', 'e', 'w'] line tail → Blank tail → Reads line [['n', 'e', 'w']]
  | ends {tail} : Opens ['e', 'n', 'd'] line tail → Blank tail → Reads line [['e', 'n', 'd']]
  | quoted {tail path} : Opens ['l', 'o', 'a', 'd'] line tail → Quoted tail path →
      Reads line [['l', 'o', 'a', 'd'], path]
  | plain {tail path} : Opens ['l', 'o', 'a', 'd'] line tail → (∀ path', ¬ Quoted tail path') → Plain tail path →
      Reads line [['l', 'o', 'a', 'd'], path]
  | locate {tail word digits} : Opens ['l', 'o', 'c', 'a', 't', 'e'] line tail → Located tail word digits →
      Reads line [['l', 'o', 'c', 'a', 't', 'e'], toLower word, digits]

/-! ### White space -/

section Spaces

variable {text gap keyword : List Char}

theorem toNat_le_of_isSpace {ch : Char} (h : isSpace ch = true) : ch.toNat ≤ 32 := by
  unfold isSpace at h
  rw [Bool.or_eq_true, beq_iff_eq, Bool.and_eq_true, decide_eq_true_eq, decide_eq_true_eq] at h
  rcases h with rfl | h
  · decide
  · omega

theorem toLower_of_isSpace {ch : Char} (h : isSpace ch = true) : ch.toLower = ch := by
  have hle := toNat_le_of_isSpace h
  have hnot : ¬ ('A'.val ≤ ch.val ∧ ch.val ≤ 'Z'.val) := by
    rintro ⟨hlo, -⟩
    have hnat : 65 ≤ ch.toNat := UInt32.le_iff_toNat_le.mp hlo
    omega
  change (if h : _ then _ else _ : Char) = _
  rw [dif_neg hnot]

theorem le_toNat_of_isDigit {ch : Char} (h : ch.isDigit = true) : 48 ≤ ch.toNat := by
  rw [Char.isDigit, Bool.and_eq_true, decide_eq_true_eq] at h
  exact UInt32.le_iff_toNat_le.mp h.1

theorem isDigit_of_isSpace {ch : Char} (h : isSpace ch = true) : ch.isDigit = false := by
  have hle := toNat_le_of_isSpace h
  by_contra hdigit
  have hlo := le_toNat_of_isDigit (by simpa using hdigit)
  omega

theorem le_toNat_of_isWordChar {ch : Char} (h : isWordChar ch = true) : 39 ≤ ch.toNat := by
  have hclass : ((decide ('A'.val ≤ ch.val ∧ ch.val ≤ 'Z'.val) || decide ('a'.val ≤ ch.val) && decide (ch.val ≤ 'z'.val) ||
    ch.isDigit) || ch == Char.ofNat 39) = true := h
  simp only [Bool.or_eq_true, Bool.and_eq_true, decide_eq_true_eq, beq_iff_eq] at hclass
  rcases hclass with ((⟨h, -⟩ | ⟨h, -⟩) | h) | rfl
  · have hlo : 65 ≤ ch.toNat := UInt32.le_iff_toNat_le.mp h
    omega
  · have hlo : 97 ≤ ch.toNat := UInt32.le_iff_toNat_le.mp h
    omega
  · have hlo := le_toNat_of_isDigit h
    omega
  · decide

theorem isWordChar_of_isSpace {ch : Char} (h : isSpace ch = true) : isWordChar ch = false := by
  have hle := toNat_le_of_isSpace h
  by_contra hword
  have hlo := le_toNat_of_isWordChar (by simpa using hword)
  omega

theorem isSpace_of_isWordChar {ch : Char} (h : isWordChar ch = true) : isSpace ch = false := by
  by_contra hspace
  rw [isWordChar_of_isSpace (by simpa using hspace)] at h
  cases h

theorem isSpace_of_isDigit {ch : Char} (h : ch.isDigit = true) : isSpace ch = false := by
  by_contra hspace
  rw [isDigit_of_isSpace (by simpa using hspace)] at h
  cases h

/-- A text in front of another one holds its first character. -/
theorem head_append {word behind : List Char} {p : Char → Bool} (hne : word ≠ []) (h : ∀ ch ∈ word, p ch = false) :
    ∀ ch ∈ (word ++ behind).head?, p ch = false := by
  obtain ⟨c, word, rfl⟩ := List.exists_cons_of_ne_nil hne
  intro ch hch
  obtain rfl := Option.some.inj hch
  exact h _ List.mem_cons_self

theorem blank_iff_all (text : List Char) : text.all isSpace = true ↔ Blank text := List.all_eq_true

theorem blank_takeWhile (text : List Char) : Blank (text.takeWhile isSpace) := fun _ hch => List.mem_takeWhile_imp hch

/-- A gap is a run of white space, all of it. -/
theorem spaced_iff {tail : List Char} (htext : ∀ ch ∈ text.head?, isSpace ch = false) :
    Spaced tail text ↔ tail.takeWhile isSpace ≠ [] ∧ tail.dropWhile isSpace = text := by
  constructor
  · rintro ⟨gap, hne, hgap, rfl⟩
    rw [takeWhile_append_stop hgap htext, dropWhile_append_stop hgap htext]
    exact ⟨hne, rfl⟩
  · rintro ⟨hne, rfl⟩
    exact ⟨_, hne, blank_takeWhile tail, List.takeWhile_append_dropWhile.symm⟩

end Spaces

/-! ### The keyword and the end of the line -/

section Ends

variable {β : Type} {s : State Char} {k : State Char → Option β} {keyword line : List Char} {r : Regex Char}

/-- Only white space is left. -/
def closed (s : State Char) : Option (Nat → Option (List Char)) :=
  if s.rest.all isSpace then some s.captures else none

theorem closed_of_head {c : Char} {rest : List Char} (h : s.rest = c :: rest) (hc : isSpace c = false) :
    closed s = none := by
  simp [closed, h, hc]

theorem first_closing : closing.first s atEnd = closed s := by
  have hstop : ∀ t : State Char, ∀ c rest, t.rest = c :: rest → isSpace c = true →
      Regex.stop.first t atEnd = none := by
    intro t c rest ht _
    rw [first_stop, ht]
    rfl
  rw [closing, first_seq, first_star_char_greedy hstop, first_stop, State.skip_rest, closed, atEnd, State.skip_rest,
    State.skip_captures]
  by_cases hall : s.rest.all isSpace = true
  · have hnil : s.rest.dropWhile isSpace = [] := List.dropWhile_eq_nil_iff.mpr ((blank_iff_all _).mp hall)
    simp [hnil, hall]
  · have hne : s.rest.dropWhile isSpace ≠ [] := by
      intro hnil
      exact hall ((blank_iff_all _).mpr (List.dropWhile_eq_nil_iff.mp hnil))
    simp [hall, hne]

theorem first_letters : (letters keyword).first s k =
    if toLower (s.rest.take keyword.length) = keyword then k (s.advance keyword.length) else none := by
  induction keyword generalizing s with
  | nil => simp [letters, first_empty, toLower, State.advance_zero]
  | cons c keyword ih =>
    change ((Regex.char fun ch => ch.toLower == c).seq (letters keyword)).first s k = _
    rw [first_seq]
    cases hs : s.rest with
    | nil =>
      rw [first_char_nil hs]
      simp [toLower]
    | cons ch rest =>
      have hrest : (s.advance 1).rest = rest := by simp [hs]
      by_cases hch : ch.toLower = c
      · rw [first_char_pos hs (by simp [hch]), ih, hrest, State.advance_advance, List.length_cons, List.take_succ_cons,
          Nat.add_comm 1]
        simp [toLower, hch]
      · rw [first_char_neg hs (by simp [hch])]
        simp [toLower, hch]

/-- The text of the line behind the first white space. -/
theorem opens_iff {tail : List Char} (hkeyword : ∀ c ∈ keyword.head?, isSpace c = false) (hne : keyword ≠ []) :
    Opens keyword line tail ↔ toLower ((line.dropWhile isSpace).take keyword.length) = keyword ∧
      (line.dropWhile isSpace).drop keyword.length = tail := by
  constructor
  · rintro ⟨gap, word, rfl, hgap, rfl⟩
    have hhead : ∀ ch ∈ (word ++ tail).head?, isSpace ch = false := by
      intro ch hch
      cases word with
      | nil => exact absurd rfl hne
      | cons c word =>
        obtain rfl := Option.some.inj hch
        by_contra hspace
        have hsame := toLower_of_isSpace (by simpa using hspace)
        exact hspace (hsame ▸ hkeyword _ rfl)
    have hdrop := dropWhile_append_stop hgap hhead
    have hlen : (toLower word).length = word.length := List.length_map ..
    rw [hdrop, hlen, List.take_left, List.drop_left]
    exact ⟨rfl, rfl⟩
  · rintro ⟨hword, rfl⟩
    refine ⟨line.takeWhile isSpace, _, ?_, blank_takeWhile line, hword⟩
    rw [List.take_append_drop, List.takeWhile_append_dropWhile]

/-- Behind the keyword, with the keyword captured. -/
def opened (keyword line : List Char) : State Char :=
  (((⟨0, line, fun _ => none⟩ : State Char).skip isSpace).advance keyword.length).capture 1
    ((line.dropWhile isSpace).take keyword.length)

theorem first_opening (hkeyword : ∀ c ∈ keyword.head?, isSpace c = false) (hne : keyword ≠ []) :
    (opening keyword r).match? line =
      if toLower ((line.dropWhile isSpace).take keyword.length) = keyword then
        (r.first (opened keyword line) atEnd).map fun captures i => (captures i).getD []
      else none := by
  have hletters : ∀ t : State Char, ∀ c rest, t.rest = c :: rest → isSpace c = true →
      ((group 1 (letters keyword)).seq r).first t atEnd = none := by
    intro t c rest ht hc
    obtain ⟨d, keyword, rfl⟩ := List.exists_cons_of_ne_nil hne
    rw [first_seq, first_group, first_letters, if_neg]
    rw [ht]
    intro hword
    have hd : c.toLower = d := (List.cons.inj hword).1
    rw [toLower_of_isSpace hc] at hd
    rw [← hd] at hkeyword
    rw [hkeyword c rfl] at hc
    cases hc
  rw [match?, opening, first_seq, first_start rfl, first_seq, first_star_char_greedy hletters, first_seq, first_group,
    first_letters, State.skip_rest]
  by_cases hword : toLower ((line.dropWhile isSpace).take keyword.length) = keyword
  · rw [if_pos hword, if_pos hword, State.advance_index, Nat.add_sub_cancel_left]
    rfl
  · rw [if_neg hword, if_neg hword]
    rfl

end Ends

/-! ### The arguments of `locate` -/

section Locate

variable {s : State Char} {tail text word digits : List Char}

/-- The numeral behind white space, with nothing but white space behind it. -/
def numberAt (text : List Char) : Option (List Char) :=
  if text.takeWhile isSpace = [] then none
  else
    match text.dropWhile isSpace with
    | [] => none
    | d :: rest =>
      if isNonzeroDigit d && (rest.dropWhile Char.isDigit).all isSpace then some (d :: rest.takeWhile Char.isDigit)
      else none

theorem numberAt_iff : numberAt text = some digits ↔
    IsNumeral digits ∧ ∃ behind, Spaced text (digits ++ behind) ∧ Blank behind := by
  unfold numberAt
  constructor
  · intro h
    by_cases hgap : text.takeWhile isSpace = []
    · rw [if_pos hgap] at h
      cases h
    · rw [if_neg hgap] at h
      cases htext : text.dropWhile isSpace with
      | nil =>
        rw [htext] at h
        cases h
      | cons d rest =>
        rw [htext] at h
        dsimp only at h
        by_cases hd : (isNonzeroDigit d && (rest.dropWhile Char.isDigit).all isSpace) = true
        · rw [if_pos hd] at h
          obtain rfl := Option.some.inj h
          rw [Bool.and_eq_true, blank_iff_all, isNonzeroDigit, Bool.and_eq_true, bne_iff_ne] at hd
          refine ⟨⟨⟨d, _, rfl, hd.1.2⟩, ?_⟩, rest.dropWhile Char.isDigit, ?_, hd.2⟩
          · intro ch hch
            rcases List.mem_cons.mp hch with rfl | hch
            · exact hd.1.1
            · exact List.mem_takeWhile_imp hch
          · rw [spaced_iff]
            · refine ⟨hgap, ?_⟩
              rw [htext, List.cons_append, List.takeWhile_append_dropWhile]
            · intro ch hch
              obtain rfl := Option.some.inj hch
              exact isSpace_of_isDigit hd.1.1
        · rw [if_neg hd] at h
          cases h
  · rintro ⟨⟨⟨d, rest, rfl, hzero⟩, hdigits⟩, behind, hspaced, hblank⟩
    have hd : d.isDigit = true := hdigits d (by simp)
    have hhead := @head_append _ behind _ (List.cons_ne_nil d rest) fun ch hch => isSpace_of_isDigit (hdigits ch hch)
    obtain ⟨hgap, htext⟩ := (spaced_iff hhead).mp hspaced
    have hrest : ∀ ch ∈ rest, ch.isDigit = true := fun ch hch => hdigits ch (by simp [hch])
    have hstop : ∀ ch ∈ behind.head?, ch.isDigit = false := fun ch hch =>
      isDigit_of_isSpace (hblank ch (List.mem_of_mem_head? hch))
    have hcond : (isNonzeroDigit d && behind.all isSpace) = true := by
      rw [Bool.and_eq_true, blank_iff_all, isNonzeroDigit, Bool.and_eq_true, bne_iff_ne]
      exact ⟨⟨hd, hzero⟩, hblank⟩
    rw [if_neg hgap, htext]
    simp only [List.cons_append]
    rw [takeWhile_append_stop hrest hstop, dropWhile_append_stop hrest hstop, if_pos hcond]

/-- The numeral with white space behind it. -/
private theorem first_numeral (t : State Char) :
    ((group 3 ((Regex.char isNonzeroDigit).seq (star (.char Char.isDigit)))).seq closing).first t atEnd =
      match t.rest with
      | [] => none
      | d :: rest =>
        if isNonzeroDigit d && (rest.dropWhile Char.isDigit).all isSpace then
          some (Function.update t.captures 3 (some (d :: rest.takeWhile Char.isDigit)))
        else none := by
  have hdigits : ∀ u : State Char, ∀ c rest, u.rest = c :: rest → Char.isDigit c = true →
      closing.first (u.capture 3 (t.rest.take (u.index - t.index))) atEnd = none := by
    intro u c rest hu hc
    rw [first_closing]
    exact closed_of_head hu (isSpace_of_isDigit hc)
  rw [first_seq, first_group, first_seq]
  cases ht : t.rest with
  | nil => exact first_char_nil ht
  | cons d rest =>
    rw [ht] at hdigits
    by_cases hd : isNonzeroDigit d = true
    · have hrest : (t.advance 1).rest = rest := by simp [ht]
      have hindex : (t.index + 1 + (rest.takeWhile Char.isDigit).length) - t.index =
          (rest.takeWhile Char.isDigit).length + 1 := by omega
      have htake : (d :: rest).take ((rest.takeWhile Char.isDigit).length + 1) = d :: rest.takeWhile Char.isDigit := by
        rw [List.take_succ_cons, ← List.prefix_iff_eq_take.mp (List.takeWhile_prefix _)]
      rw [first_char_pos ht hd, first_star_char_greedy hdigits, first_closing, closed, State.capture_rest,
        State.skip_rest, hrest, State.skip_index, State.advance_index, hrest, hindex, htake]
      simp [hd, State.capture]
    · rw [first_char_neg ht (by simpa using hd)]
      simp [hd]

theorem first_locateNumber : locateNumber.first s atEnd =
    (numberAt s.rest).map fun digits => Function.update s.captures 3 (some digits) := by
  -- the white space in front is taken as a whole, since no numeral begins with white space
  have hspace : ∀ t : State Char, ∀ c rest, t.rest = c :: rest → isSpace c = true →
      ((group 3 ((Regex.char isNonzeroDigit).seq (star (.char Char.isDigit)))).seq closing).first t atEnd = none := by
    intro t c rest ht hc
    have hnot : isNonzeroDigit c = false := by
      rw [isNonzeroDigit, isDigit_of_isSpace hc, Bool.false_and]
    rw [first_numeral t, ht]
    simp [hnot]
  rw [locateNumber, first_seq, first_plus_char_greedy hspace, first_numeral, State.skip_rest, numberAt]
  by_cases hgap : s.rest.takeWhile isSpace = []
  · rw [if_pos hgap, if_pos hgap]
    rfl
  · rw [if_neg hgap, if_neg hgap]
    cases s.rest.dropWhile isSpace with
    | nil => rfl
    | cons d rest =>
      dsimp only
      split <;> rfl

/-- The word behind white space and the numeral behind it. -/
def wordAt (tail : List Char) : Option (List Char × List Char) :=
  let text := tail.dropWhile isSpace
  if tail.takeWhile isSpace = [] ∨ text.takeWhile isWordChar = [] then none
  else (numberAt (text.dropWhile isWordChar)).map fun digits => (text.takeWhile isWordChar, digits)

theorem wordAt_iff : wordAt tail = some (word, digits) ↔ Located tail word digits := by
  unfold wordAt
  dsimp only
  constructor
  · intro h
    by_cases hgap : tail.takeWhile isSpace = [] ∨ (tail.dropWhile isSpace).takeWhile isWordChar = []
    · rw [if_pos hgap] at h
      cases h
    · rw [if_neg hgap, Option.map_eq_some_iff] at h
      obtain ⟨digits', hnumber, hpair⟩ := h
      obtain ⟨rfl, rfl⟩ := Prod.mk.inj hpair
      obtain ⟨hnumeral, behind, hspaced, hblank⟩ := numberAt_iff.mp hnumber
      have hgap := not_or.mp hgap
      refine ⟨hgap.2, fun ch hch => List.mem_takeWhile_imp hch, hnumeral, _, behind, ?_, hspaced, hblank⟩
      rw [List.takeWhile_append_dropWhile]
      exact ⟨_, hgap.1, blank_takeWhile tail, List.takeWhile_append_dropWhile.symm⟩
  · rintro ⟨hne, hword, hnumeral, between, behind, hspaced, hbetween, hblank⟩
    have hhead := @head_append _ between _ hne fun ch hch => isSpace_of_isWordChar (hword ch hch)
    obtain ⟨hgap, htext⟩ := (spaced_iff hhead).mp hspaced
    have hstop : ∀ ch ∈ between.head?, isWordChar ch = false := by
      obtain ⟨gap, hgne, hgblank, rfl⟩ := hbetween
      exact head_append hgne fun ch hch => isWordChar_of_isSpace (hgblank ch hch)
    rw [htext, takeWhile_append_stop hword hstop, dropWhile_append_stop hword hstop,
      numberAt_iff.mpr ⟨hnumeral, behind, hbetween, hblank⟩]
    rw [if_neg (not_or.mpr ⟨hgap, hne⟩)]
    rfl

theorem first_locateArguments : locateArguments.first s atEnd =
    (wordAt s.rest).map fun found => Function.update (Function.update s.captures 2 (some found.1)) 3 (some found.2) := by
  have hnumber : ∀ t : State Char, ∀ c rest, t.rest = c :: rest → isWordChar c = true →
      locateNumber.first t atEnd = none := by
    intro t c rest ht hc
    rw [first_locateNumber, numberAt, ht, if_pos (by simp [isSpace_of_isWordChar hc])]
    rfl
  have hcaptures : ∀ t t' : State Char, t.rest = t'.rest → t.index = t'.index →
      locateNumber.first t atEnd = none → locateNumber.first t' atEnd = none := by
    intro t t' hrest _ hnone
    rw [first_locateNumber, Option.map_eq_none_iff] at hnone ⊢
    rwa [← hrest]
  have hword : ∀ t : State Char, ∀ c rest, t.rest = c :: rest → isSpace c = true →
      ((plus (group 2 (plus (.char isWordChar)))).seq locateNumber).first t atEnd = none := by
    intro t c rest ht hc
    rw [first_seq, first_plus_group_greedy hnumber hcaptures, ht, if_pos (by simp [isWordChar_of_isSpace hc])]
  rw [locateArguments, first_seq, first_plus_char_greedy hword, first_seq, first_plus_group_greedy hnumber hcaptures,
    first_locateNumber, State.skip_rest, wordAt]
  by_cases hgap : s.rest.takeWhile isSpace = []
  · simp [hgap]
  · by_cases hne : (s.rest.dropWhile isSpace).takeWhile isWordChar = []
    · simp [hne]
    · simp only [if_neg hgap, if_neg hne, if_neg (not_or.mpr ⟨hgap, hne⟩), State.capture_rest, State.skip_rest,
        Option.map_map]
      rfl

end Locate

/-! ### The argument of `load` -/

section Load

variable {s : State Char} {tail path : List Char}

theorem isSpace_quote : isSpace quote = false := by decide

/-- The path without white space behind white space. -/
def plainAt (tail : List Char) : Option (List Char) :=
  let text := tail.dropWhile isSpace
  if tail.takeWhile isSpace = [] ∨ text.takeWhile isNonSpace = [] then none
  else if (text.dropWhile isNonSpace).all isSpace then some (text.takeWhile isNonSpace)
  else none

theorem plainAt_iff : plainAt tail = some path ↔ Plain tail path := by
  unfold plainAt
  dsimp only
  constructor
  · intro h
    by_cases hgap : tail.takeWhile isSpace = [] ∨ (tail.dropWhile isSpace).takeWhile isNonSpace = []
    · rw [if_pos hgap] at h
      cases h
    · rw [if_neg hgap] at h
      by_cases hblank : ((tail.dropWhile isSpace).dropWhile isNonSpace).all isSpace = true
      · rw [if_pos hblank] at h
        obtain rfl := Option.some.inj h
        obtain ⟨hgap, hne⟩ := not_or.mp hgap
        refine ⟨hne, ?_, _, ⟨_, hgap, blank_takeWhile tail, ?_⟩, (blank_iff_all _).mp hblank⟩
        · intro ch hch
          have hnon := List.mem_takeWhile_imp hch
          rwa [isNonSpace, Bool.not_eq_true'] at hnon
        · rw [List.takeWhile_append_dropWhile, List.takeWhile_append_dropWhile]
      · rw [if_neg hblank] at h
        cases h
  · rintro ⟨hne, hpath, behind, hspaced, hblank⟩
    obtain ⟨hgap, htext⟩ := (spaced_iff (head_append hne hpath)).mp hspaced
    have hnon : ∀ ch ∈ path, isNonSpace ch = true := fun ch hch => by simp [isNonSpace, hpath ch hch]
    have hstop : ∀ ch ∈ behind.head?, isNonSpace ch = false := fun ch hch => by
      simp [isNonSpace, hblank ch (List.mem_of_mem_head? hch)]
    rw [htext, takeWhile_append_stop hnon hstop, dropWhile_append_stop hnon hstop, if_neg (not_or.mpr ⟨hgap, hne⟩),
      if_pos ((blank_iff_all _).mpr hblank)]

/-- The rest of the expression in front of a path. -/
private theorem first_path (t : State Char) : ((group 2 (quotedPath.alt plainPath)).seq closing).first t atEnd =
    (quotedPath.first t fun u => closed (u.capture 2 (t.rest.take (u.index - t.index)))).or
      (plainPath.first t fun u => closed (u.capture 2 (t.rest.take (u.index - t.index)))) := by
  rw [first_seq, first_group, first_alt]
  simp only [first_closing]

private theorem first_quotedPath_head {β : Type} {k : State Char → Option β}
    (h : ∀ rest, s.rest ≠ quote :: rest) : quotedPath.first s k = none := by
  rw [quotedPath, first_seq]
  cases hs : s.rest with
  | nil => exact first_char_nil hs
  | cons c rest =>
    apply first_char_neg hs
    rw [beq_eq_false_iff_ne]
    rintro rfl
    exact h rest hs

private theorem first_path_blank (t : State Char) (c : Char) (rest : List Char) (ht : t.rest = c :: rest)
    (hc : isSpace c = true) : ((group 2 (quotedPath.alt plainPath)).seq closing).first t atEnd = none := by
  have hquoted : ∀ rest', t.rest ≠ quote :: rest' := by
    intro rest' hrest
    rw [ht] at hrest
    rw [(List.cons.inj hrest).1, isSpace_quote] at hc
    cases hc
  rw [first_path, first_quotedPath_head hquoted, plainPath, first_group, first_plus_char_stop]
  · rfl
  · rw [ht]
    simp [isNonSpace, hc]

/-- What follows the quoted path is a quote and nothing but white space. -/
private theorem first_quote (t u : State Char) (text whole : List Char) :
    (Regex.char (· == quote)).first (u.capture 3 text) (fun v => closed (v.capture 2 (whole.take (v.index - t.index)))) =
      match u.rest with
      | [] => none
      | c :: rest =>
        if c = quote ∧ rest.all isSpace then
          some (Function.update (Function.update u.captures 3 (some text)) 2 (some (whole.take (u.index + 1 - t.index))))
        else none := by
  cases hu : u.rest with
  | nil => exact first_char_nil (s := u.capture 3 text) hu
  | cons c rest =>
    have hrest : (u.capture 3 text).rest = c :: rest := hu
    by_cases hc : c = quote
    · rw [first_char_pos hrest (by simp [hc]), closed]
      have hbehind : ((u.capture 3 text).advance 1).rest = rest := by simp [hu]
      rw [State.capture_rest, hbehind]
      simp only [hc, true_and]
      rfl
    · rw [first_char_neg hrest (by simp [hc])]
      simp [hc]

private theorem drop_quoted {behind : List Char} {m : Nat} (hm : path.length < m) :
    (path ++ quote :: behind).drop m = behind.drop (m - path.length - 1) := by
  obtain ⟨j, rfl⟩ := Nat.exists_eq_add_of_lt hm
  have hj : path.length + j + 1 - path.length = j + 1 := by omega
  rw [List.drop_append, List.drop_of_length_le (by omega), hj]
  rfl

theorem first_loadArgument_quoted (hany : ∀ ch ∈ s.rest, isAny ch = true) (h : Quoted s.rest path) :
    ∃ whole, loadArgument.first s atEnd =
      some (Function.update (Function.update s.captures 3 (some path)) 2 (some whole)) := by
  obtain ⟨behind, hspaced, hblank⟩ := h
  have hhead : ∀ ch ∈ (quote :: (path ++ quote :: behind)).head?, isSpace ch = false := by
    intro ch hch
    obtain rfl := Option.some.inj hch
    exact isSpace_quote
  obtain ⟨hgap, htext⟩ := (spaced_iff hhead).mp hspaced
  have hrest : ((s.skip isSpace).advance 1).rest = path ++ quote :: behind := by
    rw [State.advance_rest, State.skip_rest, htext]
    rfl
  have htake : (path ++ quote :: behind).takeWhile isAny = path ++ quote :: behind := by
    rw [List.takeWhile_eq_self_iff]
    intro ch hch
    apply hany
    apply (List.dropWhile_suffix isSpace).subset
    rw [htext]
    exact List.mem_cons_of_mem _ hch
  rw [loadArgument, first_seq, first_plus_char_greedy first_path_blank, if_neg hgap, first_path, quotedPath, first_seq,
    first_char_pos (c := quote) (by rw [State.skip_rest, htext]) (by simp), first_seq, first_group]
  refine ⟨(s.skip isSpace).rest.take (path.length + 2), ?_⟩
  rw [first_star_char_last (n := path.length)
    (v := Function.update (Function.update s.captures 3 (some path)) 2
      (some ((s.skip isSpace).rest.take (path.length + 2))))]
  · rfl
  · rw [hrest, htake]
    simp
  · have hindex : (s.skip isSpace).index + 1 + path.length + 1 - (s.skip isSpace).index = path.length + 2 := by omega
    have hlen : (s.skip isSpace).index + 1 + path.length - ((s.skip isSpace).index + 1) = path.length := by omega
    rw [first_quote, State.advance_rest, hrest, List.drop_left, State.advance_index, State.advance_index, hlen, hindex,
      List.take_left]
    simp only [true_and, if_pos ((blank_iff_all _).mpr hblank)]
    rfl
  · -- there is no quote in the white space behind the path
    intro m hm hle
    rw [first_quote, State.advance_rest, hrest, drop_quoted hm]
    cases hb : behind.drop (m - path.length - 1) with
    | nil => rfl
    | cons c rest =>
      have hc : isSpace c = true := hblank c (List.drop_subset _ _ (by rw [hb]; simp))
      have hne : c ≠ quote := by
        rintro rfl
        rw [isSpace_quote] at hc
        cases hc
      simp [hne]

/-- Where no quoted path stands, every quote behind the first one has something else behind it. -/
private theorem first_quotedPath_none (hgap : s.rest.takeWhile isSpace ≠ []) (hnot : ∀ path', ¬ Quoted s.rest path') :
    quotedPath.first (s.skip isSpace) (fun u => closed
      (u.capture 2 ((s.skip isSpace).rest.take (u.index - (s.skip isSpace).index)))) = none := by
  by_cases hhead : ∃ rest, (s.skip isSpace).rest = quote :: rest
  · obtain ⟨rest, hhead⟩ := hhead
    have hrest : ((s.skip isSpace).advance 1).rest = rest := by
      rw [State.advance_rest, hhead]
      rfl
    rw [quotedPath, first_seq, first_char_pos hhead (by simp), first_seq, first_group]
    apply first_star_char_none
    intro n _
    rw [first_quote, State.advance_rest, hrest]
    cases hdrop : rest.drop n with
    | nil => rfl
    | cons c behind =>
      have hneg : ¬ (c = quote ∧ behind.all isSpace = true) := by
        rintro ⟨rfl, hblank⟩
        refine hnot (rest.take n) ⟨behind, ⟨_, hgap, blank_takeWhile s.rest, ?_⟩, (blank_iff_all _).mp hblank⟩
        rw [← hdrop, List.take_append_drop, ← hhead, State.skip_rest, List.takeWhile_append_dropWhile]
      exact if_neg hneg
  · exact first_quotedPath_head fun rest hrest => hhead ⟨rest, hrest⟩

theorem first_loadArgument_plain (hnot : ∀ path', ¬ Quoted s.rest path') :
    loadArgument.first s atEnd = (plainAt s.rest).map fun path =>
      Function.update (Function.update s.captures 4 (some path)) 2 (some path) := by
  rw [loadArgument, first_seq, first_plus_char_greedy first_path_blank, plainAt]
  by_cases hgap : s.rest.takeWhile isSpace = []
  · simp [hgap]
  · -- what comes behind the path accepts no further character of it
    have hclosed : ∀ t : State Char, ∀ c rest, t.rest = c :: rest → isNonSpace c = true →
        closed ((t.capture 4 ((s.skip isSpace).rest.take (t.index - (s.skip isSpace).index))).capture 2
          ((s.skip isSpace).rest.take (t.index - (s.skip isSpace).index))) = none := by
      intro t c rest ht hc
      exact closed_of_head (s := (t.capture 4 _).capture 2 _) (c := c) ht (by simpa [isNonSpace] using hc)
    rw [if_neg hgap, first_path, first_quotedPath_none hgap hnot, Option.none_or, plainPath, first_group]
    simp only [State.capture_index]
    rw [first_plus_char_greedy hclosed]
    by_cases hne : (s.rest.dropWhile isSpace).takeWhile isNonSpace = []
    · simp [hne]
    · have htake : (s.rest.dropWhile isSpace).take ((s.rest.dropWhile isSpace).takeWhile isNonSpace).length =
          (s.rest.dropWhile isSpace).takeWhile isNonSpace :=
        (List.prefix_iff_eq_take.mp (List.takeWhile_prefix _)).symm
      have hindex : ((s.skip isSpace).skip isNonSpace).index - (s.skip isSpace).index =
          ((s.rest.dropWhile isSpace).takeWhile isNonSpace).length := by
        rw [State.skip_index, State.skip_rest, Nat.add_sub_cancel_left]
      rw [hindex, State.skip_rest, htake, if_neg hne, closed, State.capture_rest, State.capture_rest,
        State.skip_rest, State.skip_rest]
      rw [if_neg (not_or.mpr ⟨hgap, hne⟩)]
      split <;> rfl

end Load

/-! ### The commands -/

section Parse

variable {line tail tail' path word digits keyword keyword' : List Char} {r : Regex Char}

/-- Three letters at least. -/
def IsKeyword (keyword : List Char) : Prop := 3 ≤ keyword.length ∧ keyword.head?.all (fun c => !isSpace c) = true

theorem IsKeyword.head (h : IsKeyword keyword) : ∀ c ∈ keyword.head?, isSpace c = false := by
  intro c hc
  have hall := h.2
  rw [Option.mem_def.mp hc] at hall
  simpa using hall

theorem IsKeyword.ne_nil (h : IsKeyword keyword) : keyword ≠ [] := by
  rintro rfl
  exact absurd h.1 (by decide)

theorem match_of_opens (hk : IsKeyword keyword) (h : Opens keyword line tail) :
    (opening keyword r).match? line = (r.first (opened keyword line) atEnd).map fun captures i => (captures i).getD [] := by
  rw [first_opening hk.head hk.ne_nil, if_pos ((opens_iff hk.head hk.ne_nil).mp h).1]

theorem opened_rest (hk : IsKeyword keyword) (h : Opens keyword line tail) : (opened keyword line).rest = tail := by
  rw [← ((opens_iff hk.head hk.ne_nil).mp h).2, opened, State.capture_rest, State.advance_rest, State.skip_rest]

/-- The first group has captured the keyword. -/
theorem opened_keyword (hk : IsKeyword keyword) (h : Opens keyword line tail) :
    toLower (((opened keyword line).captures 1).getD []) = keyword := by
  rw [opened, State.capture_self, Option.getD_some, ((opens_iff hk.head hk.ne_nil).mp h).1]

theorem opened_captures {i : Nat} (hi : i ≠ 1) : (opened keyword line).captures i = none := State.capture_ne _ hi _

theorem match_none (hk : IsKeyword keyword) (h : ∀ tail, ¬ Opens keyword line tail) :
    (opening keyword r).match? line = none := by
  rw [first_opening hk.head hk.ne_nil, if_neg]
  intro hword
  exact h _ ((opens_iff hk.head hk.ne_nil).mpr ⟨hword, rfl⟩)

/-- A line opens with one keyword only. -/
theorem Opens.unique (hk : IsKeyword keyword) (hk' : IsKeyword keyword') (h : Opens keyword line tail)
    (h' : Opens keyword' line tail') : keyword.take 3 = keyword'.take 3 := by
  have hword := ((opens_iff hk.head hk.ne_nil).mp h).1
  have hword' := ((opens_iff hk'.head hk'.ne_nil).mp h').1
  rw [← hword, ← hword', toLower, toLower, ← List.map_take, ← List.map_take, List.take_take, List.take_take,
    Nat.min_eq_left hk.1, Nat.min_eq_left hk'.1]

theorem match_other (hk : IsKeyword keyword) (hk' : IsKeyword keyword') (h : Opens keyword' line tail)
    (hne : keyword.take 3 ≠ keyword'.take 3) : (opening keyword r).match? line = none :=
  match_none hk fun _ hopens => hne (hopens.unique hk hk' h)

private theorem isKeyword_new : IsKeyword ['n', 'e', 'w'] := by unfold IsKeyword; decide

private theorem isKeyword_end : IsKeyword ['e', 'n', 'd'] := by unfold IsKeyword; decide

private theorem isKeyword_load : IsKeyword ['l', 'o', 'a', 'd'] := by unfold IsKeyword; decide

theorem isKeyword_locate : IsKeyword ['l', 'o', 'c', 'a', 't', 'e'] := by unfold IsKeyword; decide

/-- A command that is a keyword and nothing else. -/
theorem match_bare (hk : IsKeyword keyword) (h : Opens keyword line tail) :
    (opening keyword closing).match? line =
      if tail.all isSpace then some fun i => ((opened keyword line).captures i).getD [] else none := by
  rw [match_of_opens hk h, first_closing, closed, opened_rest hk h]
  split <;> rfl

theorem match_locate (h : Opens ['l', 'o', 'c', 'a', 't', 'e'] line tail) :
    reLocate.match? line = (wordAt tail).map fun found i => (Function.update (Function.update
      (opened ['l', 'o', 'c', 'a', 't', 'e'] line).captures 2 (some found.1)) 3 (some found.2) i).getD [] := by
  rw [reLocate, match_of_opens isKeyword_locate h, first_locateArguments, opened_rest isKeyword_locate h, Option.map_map]
  rfl

theorem match_load_quoted (hany : ∀ ch ∈ tail, isAny ch = true) (h : Opens ['l', 'o', 'a', 'd'] line tail)
    (hpath : Quoted tail path) :
    ∃ whole, reLoad.match? line = some fun i => (Function.update (Function.update
      (opened ['l', 'o', 'a', 'd'] line).captures 3 (some path)) 2 (some whole) i).getD [] := by
  rw [reLoad, match_of_opens isKeyword_load h]
  rw [← opened_rest isKeyword_load h] at hany hpath
  obtain ⟨whole, hfirst⟩ := first_loadArgument_quoted hany hpath
  exact ⟨whole, by rw [hfirst]; rfl⟩

theorem match_load_plain (h : Opens ['l', 'o', 'a', 'd'] line tail) (hnot : ∀ path', ¬ Quoted tail path') :
    reLoad.match? line = (plainAt tail).map fun path i => (Function.update (Function.update
      (opened ['l', 'o', 'a', 'd'] line).captures 4 (some path)) 2 (some path) i).getD [] := by
  rw [reLoad, match_of_opens isKeyword_load h]
  rw [← opened_rest isKeyword_load h] at hnot ⊢
  rw [first_loadArgument_plain hnot, Option.map_map]
  rfl

/-- The tail of a line is part of it. -/
theorem Opens.subset (h : Opens keyword line tail) : tail ⊆ line := by
  obtain ⟨gap, word, rfl, -⟩ := h
  intro ch hch
  simp [hch]

variable (vec : List (List Char))

private theorem cStr_eq (hnul : Char.ofNat 0 ∉ line) : cStr line = line := by
  rw [cStr, List.takeWhile_eq_self_iff]
  intro ch hch
  rw [bne_iff_ne]
  rintro rfl
  exact hnul hch

/-- `Command::Parse` on the captures of the four expressions. -/
private theorem command_parse_eq (hne : line ≠ []) (hnul : Char.ofNat 0 ∉ line) : Command.parse line vec =
    match reNew.match? line with
    | some str => vec ++ [toLower (str 1)]
    | none =>
      match reEnd.match? line with
      | some str => vec ++ [toLower (str 1)]
      | none =>
        match reLoad.match? line with
        | some str => vec ++ [toLower (str 1), if (str 3).isEmpty then str 4 else str 3]
        | none =>
          match reLocate.match? line with
          | some str => vec ++ [toLower (str 1), toLower (str 2), str 3]
          | none => vec ++ [['I', 'N', 'V', 'A', 'L', 'I', 'D']] := by
  conv_rhs => rw [← cStr_eq hnul]
  exact if_neg (by simpa using hne)

/-- What is a command by the grammar is read as this command. -/
theorem parse_reads {found : List (List Char)} (hne : line ≠ []) (hnul : Char.ofNat 0 ∉ line)
    (hany : ∀ ch ∈ line, isAny ch = true) (h : Reads line found) : Command.parse line vec = vec ++ found := by
  rw [command_parse_eq vec hne hnul]
  cases h with
  | new hopens hblank =>
    rw [reNew, match_bare isKeyword_new hopens, if_pos ((blank_iff_all _).mpr hblank)]
    dsimp only
    rw [opened_keyword isKeyword_new hopens]
  | ends hopens hblank =>
    rw [reNew, match_other isKeyword_new isKeyword_end hopens (by decide), reEnd, match_bare isKeyword_end hopens,
      if_pos ((blank_iff_all _).mpr hblank)]
    dsimp only
    rw [opened_keyword isKeyword_end hopens]
  | @quoted tail path hopens hpath =>
    obtain ⟨whole, hmatch⟩ := match_load_quoted (fun ch hch => hany ch (hopens.subset hch)) hopens hpath
    rw [reNew, match_other isKeyword_new isKeyword_load hopens (by decide), reEnd,
      match_other isKeyword_end isKeyword_load hopens (by decide), hmatch]
    have hkeyword := opened_keyword isKeyword_load hopens
    cases path with
    | nil => simp [hkeyword, opened_captures]
    | cons c path => simp [hkeyword]
  | @plain tail path hopens hquoted hpath =>
    have hkeyword := opened_keyword isKeyword_load hopens
    rw [reNew, match_other isKeyword_new isKeyword_load hopens (by decide), reEnd,
      match_other isKeyword_end isKeyword_load hopens (by decide), match_load_plain hopens hquoted,
      plainAt_iff.mpr hpath]
    simp [hkeyword, opened_captures]
  | locate hopens hlocated =>
    have hkeyword := opened_keyword isKeyword_locate hopens
    rw [reNew, match_other isKeyword_new isKeyword_locate hopens (by decide), reEnd,
      match_other isKeyword_end isKeyword_locate hopens (by decide), reLoad,
      match_other isKeyword_load isKeyword_locate hopens (by decide), match_locate hopens, wordAt_iff.mpr hlocated]
    simp [hkeyword]

/-- What is no command is invalid. -/
theorem parse_invalid (hne : line ≠ []) (hnul : Char.ofNat 0 ∉ line) (h : ∀ found, ¬ Reads line found) :
    Command.parse line vec = vec ++ [['I', 'N', 'V', 'A', 'L', 'I', 'D']] := by
  have hnew : reNew.match? line = none := by
    by_cases hopens : ∃ tail, Opens ['n', 'e', 'w'] line tail
    · obtain ⟨tail, hopens⟩ := hopens
      rw [reNew, match_bare isKeyword_new hopens, if_neg fun hall => h _ (.new hopens ((blank_iff_all _).mp hall))]
    · exact match_none isKeyword_new (not_exists.mp hopens)
  have hend : reEnd.match? line = none := by
    by_cases hopens : ∃ tail, Opens ['e', 'n', 'd'] line tail
    · obtain ⟨tail, hopens⟩ := hopens
      rw [reEnd, match_bare isKeyword_end hopens, if_neg fun hall => h _ (.ends hopens ((blank_iff_all _).mp hall))]
    · exact match_none isKeyword_end (not_exists.mp hopens)
  have hload : reLoad.match? line = none := by
    by_cases hopens : ∃ tail, Opens ['l', 'o', 'a', 'd'] line tail
    · obtain ⟨tail, hopens⟩ := hopens
      have hquoted : ∀ path, ¬ Quoted tail path := fun path hpath => h _ (.quoted hopens hpath)
      rw [match_load_plain hopens hquoted, Option.map_eq_none_iff, Option.eq_none_iff_forall_ne_some]
      exact fun path hpath => h _ (.plain hopens hquoted (plainAt_iff.mp hpath))
    · exact match_none isKeyword_load (not_exists.mp hopens)
  have hlocate : reLocate.match? line = none := by
    by_cases hopens : ∃ tail, Opens ['l', 'o', 'c', 'a', 't', 'e'] line tail
    · obtain ⟨tail, hopens⟩ := hopens
      rw [match_locate hopens, Option.map_eq_none_iff, Option.eq_none_iff_forall_ne_some]
      exact fun found hfound => h _ (.locate hopens (wordAt_iff.mp hfound))
    · exact match_none isKeyword_locate (not_exists.mp hopens)
  rw [command_parse_eq vec hne hnul, hnew, hend, hload, hlocate]

/-- `Command::Parse` accepts exactly the commands of the grammar. -/
theorem parse_grammar (line : List Char) (hne : line ≠ []) (hnul : Char.ofNat 0 ∉ line) (hlf : '\n' ∉ line)
    (hcr : '\r' ∉ line) :
    (∀ found, Reads line found → Command.parse line vec = vec ++ found) ∧
    ((∀ found, ¬ Reads line found) → Command.parse line vec = vec ++ [['I', 'N', 'V', 'A', 'L', 'I', 'D']]) := by
  have hany : ∀ ch ∈ line, isAny ch = true := by
    intro ch hch
    rw [isAny, Bool.and_eq_true, bne_iff_ne, bne_iff_ne]
    exact ⟨fun h => hlf (h ▸ hch), fun h => hcr (h ▸ hch)⟩
  exact ⟨fun found => parse_reads vec hne hnul hany, parse_invalid vec hne hnul⟩

theorem parse_grammar_quotes :
    Command.parse (" LOAD  ".toList ++ quote :: ("a ".toList ++ quote :: (" b".toList ++ quote :: " ".toList))) [] =
      ["load".toList, "a ".toList ++ quote :: " b".toList] := by
  refine (parse_grammar [] _ (by decide) (by decide) (by decide) (by decide)).1 _ (@Reads.quoted _
    ("  ".toList ++ quote :: ("a ".toList ++ quote :: (" b".toList ++ quote :: " ".toList))) _
    ⟨" ".toList, "LOAD".toList, by decide, (blank_iff_all _).mp (by decide), by decide⟩
    ⟨" ".toList, ⟨"  ".toList, by decide, (blank_iff_all _).mp (by decide), by simp⟩, (blank_iff_all _).mp (by decide)⟩)

end Parse

end Cs564.WordLocator
