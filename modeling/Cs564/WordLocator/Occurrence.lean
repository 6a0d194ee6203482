import Cs564.WordLocator.Grammar
import Cs564.WordLocator.Locate

/-!
# The occurrence number

`Command::Receive` reads the number of a `locate` command into a `uint16_t`, although the command keeps it in a `uint32_t`
and the lists of positions are not bounded by 65535.  A number beyond 65535 asks for the 65535th occurrence, so the answer
is right only if there are fewer occurrences (`locate_typed`).
-/

namespace Cs564.WordLocator

/-- The positions of a word in the dictionary of a context. -/
def occurrences (context : Context) (w : List Char) : List Nat := (place context.dictionary.wordList w).counts

/-- The right answer to `locate w n`, for the positions of `w`. -/
def answer (positions : List Nat) (n : Nat) : String :=
  match positions[n - 1]? with
  | some position => toString position
  | none => "No matching entry"

/-! ### The numeral and its number -/

section Numerals

variable {digits : List Char} {line keyword w : List Char}

theorem one_le_numeral (h : IsNumeral digits) : 1 ≤ numeral digits := by
  obtain ⟨⟨d, rest, rfl, hzero⟩, hdigits⟩ := h
  have hd := hdigits d (by simp)
  have hfold : ∀ (l : List Char) (n : Nat), n ≤ l.foldl (fun n ch => 10 * n + (ch.toNat - '0'.toNat)) n := by
    intro l
    induction l with
    | nil => exact fun n => Nat.le_refl n
    | cons ch l ih =>
      intro n
      have hle := ih (10 * n + (ch.toNat - '0'.toNat))
      rw [List.foldl_cons]
      omega
  have hge := le_toNat_of_isDigit hd
  have hne : d.toNat ≠ 48 := fun heq => hzero (Char.toNat_inj.mp heq)
  have hsub : d.toNat - '0'.toNat = d.toNat - 48 := rfl
  have hle := hfold rest (10 * 0 + (d.toNat - '0'.toNat))
  rw [numeral, List.foldl_cons]
  omega

/-- The numeral of a line that the expression for `locate` matches. -/
theorem match_locate_numeral {str : Nat → List Char} (h : reLocate.match? line = some str) : IsNumeral (str 3) := by
  by_cases hopens : ∃ tail, Opens ['l', 'o', 'c', 'a', 't', 'e'] line tail
  · obtain ⟨tail, hopens⟩ := hopens
    rw [match_locate hopens, Option.map_eq_some_iff] at h
    obtain ⟨found, hfound, rfl⟩ := h
    obtain ⟨-, -, hnumeral, -⟩ := wordAt_iff.mp hfound
    simpa using hnumeral
  · rw [reLocate, match_none isKeyword_locate (not_exists.mp hopens)] at h
    cases h

/-- Only a `locate` command has three parts, and the last of them is a numeral. -/
theorem parse_numeral (h : Command.parse line [] = [keyword, w, digits]) : IsNumeral digits := by
  unfold Command.parse at h
  split at h
  · cases h
  · split at h
    · cases h
    · split at h
      · cases h
      · split at h
        · cases h
        · split at h
          · rename_i str hmatch
            obtain ⟨-, -, rfl⟩ : _ ∧ _ ∧ str 3 = digits := by simpa using h
            exact match_locate_numeral hmatch
          · cases h

theorem extract_eq (h : IsNumeral digits) : extract digits = min (numeral digits) 65535 := by
  rw [extract, List.takeWhile_eq_self_iff.mpr h.2]

end Numerals

/-! ### What is printed -/

section Prints

variable {context : Context} {line keyword w digits : List Char}

theorem toString_inj {m n : Nat} : toString m = toString n ↔ m = n := by
  refine ⟨fun h => ?_, fun h => h ▸ rfl⟩
  have hdigits : Nat.toDigits 10 m = Nat.toDigits 10 n := by
    rw [← Nat.toList_repr, ← Nat.toList_repr]
    exact congrArg String.toList h
  have hvalue := congrArg (fun digits => Nat.ofDigitChars 10 digits 0) hdigits
  rwa [Nat.ofDigitChars_ten_toDigits, Nat.ofDigitChars_ten_toDigits] at hvalue

/-- No number prints as a text that has a letter. -/
theorem toString_ne_noEntry (n : Nat) : toString n ≠ "No matching entry" := by
  intro h
  have hmem : 'N' ∈ Nat.toDigits 10 n := by
    rw [← Nat.toList_repr]
    have hlist := congrArg String.toList h
    change (Nat.repr n).toList = _ at hlist
    rw [hlist]
    decide
  exact absurd (Nat.isDigit_of_mem_toDigits (by decide) (by decide) hmem) (by decide)

theorem printed_ofNat (r : Nat) : Context.printed r = some (if r = 0 then "No matching entry" else toString r) := by
  unfold Context.printed
  rw [if_neg (by omega)]
  by_cases hr : r = 0
  · simp [hr]
  · rw [if_neg (by omega), if_pos (by omega), if_neg hr]
    rfl

/-- What the session prints for a line with a `locate` command. -/
theorem execute_locate (files : Files) (command : Command) (h : Command.parse line [] = [keyword, w, digits]) :
    (context.execute files (command.receive files line)).2 =
      Context.printed ((occurrences context w).getD (min (numeral digits) 65535 - 1) 0 : Nat) := by
  have hnumeral := parse_numeral h
  have hone := one_le_numeral hnumeral
  rw [Command.receive, h]
  dsimp only
  rw [Context.execute]
  dsimp only
  rw [Context.printResult, extract_eq hnumeral, Dictionary.locate, search_eq _ _ (by omega) (by omega), occurrences]

/-- The answer for the number cut to 16 bits is the right one. -/
theorem cut_answer_iff (positions : List Nat) (n : Nat) :
    Context.printed (positions.getD (min n 65535 - 1) 0 : Nat) = some (answer positions n) ↔
      (n ≤ 65535 ∨ positions.getD (n - 1) 0 = positions.getD 65534 0) ∧ positions[n - 1]? ≠ some 0 := by
  have hsame : (n ≤ 65535 ∨ positions.getD (n - 1) 0 = positions.getD 65534 0) ↔
      positions.getD (n - 1) 0 = positions.getD (min n 65535 - 1) 0 := by
    by_cases hle : n ≤ 65535
    · rw [Nat.min_eq_left hle]
      exact iff_of_true (Or.inl hle) rfl
    · rw [Nat.min_eq_right (by omega)]
      exact ⟨fun h => h.resolve_left hle, Or.inr⟩
  rw [hsame, printed_ofNat, Option.some.injEq, List.getD_eq_getElem?_getD (i := n - 1), answer]
  generalize positions.getD (min n 65535 - 1) 0 = r
  cases positions[n - 1]? with
  | none =>
    by_cases hr : r = 0
    · simp [hr]
    · rw [if_neg hr]
      exact iff_of_false (toString_ne_noEntry r) (by simp [Ne.symm hr])
  | some p =>
    have hzero : some p ≠ some 0 ↔ p ≠ 0 := not_congr Option.some_inj
    dsimp only [Option.getD_some]
    rw [hzero]
    by_cases hr : r = 0
    · rw [if_pos hr]
      refine iff_of_false (fun h => toString_ne_noEntry p h.symm) ?_
      rintro ⟨rfl, hp⟩
      exact hp hr
    · rw [if_neg hr, toString_inj]
      constructor
      · rintro rfl
        exact ⟨rfl, hr⟩
      · exact fun h => h.1.symm

/-- For positions that increase from 1 on, the cut does no harm as long as there are few of them. -/
theorem cut_iff_of_increasing {positions : List Nat} {n : Nat} (hincr : positions.Pairwise (· < ·))
    (hpos : ∀ p ∈ positions, 1 ≤ p) :
    (n ≤ 65535 ∨ positions.getD (n - 1) 0 = positions.getD 65534 0) ∧ positions[n - 1]? ≠ some 0 ↔
      n ≤ 65535 ∨ positions.length < 65535 := by
  have hzero : positions[n - 1]? ≠ some 0 := fun h => absurd (hpos 0 (List.mem_of_getElem? h)) (by decide)
  rw [and_iff_left hzero]
  refine or_congr_right' fun hlarge => ?_
  by_cases hlen : positions.length < 65535
  · refine iff_of_true ?_ hlen
    rw [List.getD_eq_default _ _ (by omega), List.getD_eq_default _ _ (by omega)]
  · -- the 65535th position is there, and a later one is greater or absent
    refine iff_of_false ?_ hlen
    have hlast : 65534 < positions.length := by omega
    rw [List.getD_eq_getElem _ _ hlast]
    by_cases hin : n - 1 < positions.length
    · rw [List.getD_eq_getElem _ _ hin]
      have hlt := List.pairwise_iff_getElem.mp hincr 65534 (n - 1) hlast hin (by omega)
      exact Nat.ne_of_gt hlt
    · rw [List.getD_eq_default _ _ (by omega)]
      have hge := hpos _ (List.getElem_mem hlast)
      omega

end Prints

/-! ### The positions in a session -/

section Sessions

/-- The files have less than 2^32 words each. -/
def Moderate (files : Files) : Prop := ∀ path text, files path = some text → (words text).length < 2 ^ 32

/-- The positions in the dictionary increase from 1 on, and a dictionary that can be loaded is empty. -/
structure Ordered (dictionary : Dictionary) : Prop where
  increasing : ∀ path, (place dictionary.wordList path).counts.Pairwise (· < ·)
  positive : ∀ path, ∀ count ∈ (place dictionary.wordList path).counts, 1 ≤ count
  loadable : dictionary.isLoadable = true → dictionary.wordList = Node.new []

theorem counts_new (path : List Char) : (place (Node.new []) path).counts = [] := by
  cases path with
  | nil => simp [Node.new]
  | cons front rest =>
    rw [place_none (show (Node.new []).next front = none from rfl)]
    rfl

theorem insertWords_ordered {ws : List (List Char)} (hne : ∀ w ∈ ws, w ≠ []) (hlen : ws.length < 2 ^ 32)
    (path : List Char) : (place (insertWords ws).1 path).counts.Pairwise (· < ·) ∧
      ∀ count ∈ (place (insertWords ws).1 path).counts, 1 ≤ count := by
  induction ws using List.reverseRecOn generalizing path with
  | nil =>
    rw [insertWords, List.foldl_nil, counts_new]
    exact ⟨List.Pairwise.nil, fun _ hmem => absurd hmem List.not_mem_nil⟩
  | append_singleton ws w ih =>
    rw [List.length_append, List.length_singleton] at hlen
    have hne' : ∀ x ∈ ws, x ≠ [] := fun x hx => hne x (by simp [hx])
    obtain ⟨hincr, hpos⟩ := ih hne' (by omega) path
    have hle := insertWords_counts_le hne' (by omega) path
    obtain ⟨d, forks, hlands, -⟩ := insert_lands (insertWords ws).1 (hne w (by simp)) (ws.length + 1)
    rw [insertWords_step hlen, hlands, landed_counts]
    by_cases hd : path = d
    · rw [if_pos hd, List.pairwise_append]
      refine ⟨⟨hincr, List.pairwise_singleton _ _, ?_⟩, ?_⟩
      · intro a ha b hb
        obtain rfl := List.mem_singleton.mp hb
        exact Nat.lt_succ_of_le (hle a ha)
      · intro count hcount
        rcases List.mem_append.mp hcount with hcount | hcount
        · exact hpos count hcount
        · rw [List.mem_singleton] at hcount
          omega
    · rw [if_neg hd, List.append_nil]
      exact ⟨hincr, hpos⟩

variable {dictionary : Dictionary} {context : Context} {files : Files}

theorem ordered_new (dictionary : Dictionary) : Ordered dictionary.new where
  increasing path := by
    rw [Dictionary.new, counts_new]
    exact List.Pairwise.nil
  positive path := by
    rw [Dictionary.new, counts_new]
    exact fun _ hmem => absurd hmem List.not_mem_nil
  loadable _ := rfl

theorem Ordered.load (h : Ordered dictionary) (hmoderate : Moderate files) (path : List Char) :
    Ordered (dictionary.load (files path)) := by
  by_cases hloadable : dictionary.isLoadable = true
  · cases hfile : files path with
    | none =>
      rw [Dictionary.load, if_pos hloadable]
      exact h
    | some text =>
      -- what can be loaded is empty, as `load_eq` has it
      have hnew : dictionary = dictionary.new := by
        rw [Dictionary.new, ← h.loadable hloadable, ← hloadable]
      have hwords : ∀ w ∈ words text, w ≠ [] := fun w hw => (mem_words hw).1
      have hlist := load_eq dictionary text
      rw [hnew]
      refine ⟨fun p => ?_, fun p => ?_, fun hload => ?_⟩
      · rw [hlist]
        exact (insertWords_ordered hwords (hmoderate path text hfile) p).1
      · rw [hlist]
        exact (insertWords_ordered hwords (hmoderate path text hfile) p).2
      · rw [load_isLoadable _ rfl] at hload
        cases hload
  · unfold Dictionary.load
    rw [if_neg hloadable]
    exact h

/-- Every command keeps the positions in order. -/
theorem Ordered.execute (h : Ordered context.dictionary) (hmoderate : Moderate files) (command : Command) :
    Ordered (context.execute files command).1.dictionary := by
  rw [Context.execute]
  cases command.op with
  | NEW => exact ordered_new context.dictionary
  | LOAD =>
    -- a dictionary that has been loaded is made anew first
    have hload : ∀ context : Context, Ordered context.dictionary →
        Ordered (if context.dictionary.isLoadable then
          Context.printResult { context with dictionary := context.dictionary.load (files command.arg1), prevOps := .LOAD }
        else Context.printResult { context with result := -1 }).1.dictionary := by
      intro context hcontext
      split
      · exact hcontext.load hmoderate _
      · exact hcontext
    dsimp only
    by_cases hprev : context.prevOps = .LOAD
    · rw [if_pos hprev]
      exact hload { context with dictionary := context.dictionary.new } (ordered_new context.dictionary)
    · rw [if_neg hprev]
      exact hload context h
  | _ => exact h

theorem session_ordered {steps : List Step} (hmoderate : ∀ step ∈ steps, Moderate step.files) :
    Ordered (session steps).1.dictionary := by
  induction steps using List.reverseRecOn with
  | nil => exact ordered_new .fresh
  | append_singleton steps step ih =>
    have hbefore := ih fun s hs => hmoderate s (List.mem_append_left _ hs)
    rw [session, List.foldl_append]
    exact hbefore.execute (hmoderate step (List.mem_append_right _ (List.mem_singleton_self step))) _

end Sessions

/-- The answer to `locate w n` is right exactly if the cut to 16 bits does not change it. -/
theorem locate_typed (command : Command) (files : Files) (line : List Char) {keyword w digits : List Char}
    (h : Command.parse line [] = [keyword, w, digits]) :
    (∀ context : Context, (context.execute files (command.receive files line)).2 =
        some (answer (occurrences context w) (numeral digits)) ↔
      (numeral digits ≤ 65535 ∨
        (occurrences context w).getD (numeral digits - 1) 0 = (occurrences context w).getD 65534 0) ∧
      (occurrences context w)[numeral digits - 1]? ≠ some 0) ∧
    ∀ steps : List Step, (∀ step ∈ steps, Moderate step.files) →
      (((session steps).1.execute files (command.receive files line)).2 =
          some (answer (occurrences (session steps).1 w) (numeral digits)) ↔
        numeral digits ≤ 65535 ∨ (occurrences (session steps).1 w).length < 65535) := by
  have hany : ∀ context : Context, (context.execute files (command.receive files line)).2 =
        some (answer (occurrences context w) (numeral digits)) ↔
      (numeral digits ≤ 65535 ∨
        (occurrences context w).getD (numeral digits - 1) 0 = (occurrences context w).getD 65534 0) ∧
      (occurrences context w)[numeral digits - 1]? ≠ some 0 := by
    intro context
    rw [execute_locate files command h]
    exact cut_answer_iff _ _
  refine ⟨hany, fun steps hmoderate => ?_⟩
  have hordered := session_ordered hmoderate
  exact (hany _).trans (cut_iff_of_increasing (hordered.increasing w) (hordered.positive w))

/-- Every path opens to a text of three words. -/
def threeWords : Files := fun _ => some "a b a".toList

theorem locate_typed_second :
    (∀ context : Context, (context.execute threeWords (Command.fresh.receive threeWords "Locate A 2".toList)).2 =
        some (answer (occurrences context ['a']) (numeral ['2'])) ↔
      (numeral ['2'] ≤ 65535 ∨
        (occurrences context ['a']).getD (numeral ['2'] - 1) 0 = (occurrences context ['a']).getD 65534 0) ∧
      (occurrences context ['a'])[numeral ['2'] - 1]? ≠ some 0) ∧
    ((session [⟨threeWords, ⟨.LOAD, [], 0⟩⟩]).1.execute threeWords
          (Command.fresh.receive threeWords "Locate A 2".toList)).2 =
        some (answer (occurrences (session [⟨threeWords, ⟨.LOAD, [], 0⟩⟩]).1 ['a']) (numeral ['2'])) := by
  have htyped := @locate_typed .fresh threeWords "Locate A 2".toList "locate".toList ['a'] ['2'] (by decide +kernel)
  refine ⟨htyped.1, (htyped.2 _ ?_).mpr (Or.inl (by decide))⟩
  intro step hstep path text htext
  obtain rfl := List.mem_singleton.mp hstep
  obtain rfl := Option.some.inj htext
  decide

/-! ### A text with too many words -/

/-- The same word over and over. -/
def sameWord (n : Nat) : List Char := (List.replicate n ['a', ' ']).flatten

theorem words_sameWord (n : Nat) : words (sameWord n) = List.replicate n ['a'] := by
  induction n with
  | zero => rfl
  | succ n ih =>
    have hcut : sameWord (n + 1) = ['a'] ++ ' ' :: sameWord n := by
      rw [sameWord, List.replicate_succ, List.flatten_cons]
      rfl
    have hfirst : runs isWordChar ['a'] = [['a']] :=
      runs_of_all (List.forall_mem_singleton.mpr (by decide)) (List.cons_ne_nil _ _)
    have htail : (runs isWordChar (sameWord n)).map toLower = List.replicate n ['a'] := ih
    rw [words, hcut, runs_append_cons (by decide), hfirst, List.map_append, htail, List.replicate_succ]
    rfl

theorem positions_replicate (n : Nat) (w : List Char) : positions (List.replicate n w) w = List.range' 1 n := by
  induction n with
  | zero => rfl
  | succ n ih =>
    rw [List.replicate_succ', positions_append, ih, if_pos rfl, List.length_replicate, List.range'_concat]
    simp [Nat.add_comm]

/-- Words of one letter never split. -/
theorem noneSplitsLate_replicate (n : Nat) (c : Char) : NoneSplitsLate (List.replicate n [c]) := by
  rintro before w behind heq ⟨l, hl, -, -, hboundary, -⟩
  have hw : w = [c] := List.eq_of_mem_replicate (by rw [heq]; simp)
  rw [hw, List.length_singleton] at hl
  obtain rfl : l = 0 := by omega
  exact hboundary (Or.inl rfl)

theorem locate_65536 : ¬ ∀ (text line : List Char) (keyword w digits : List Char), (words text).length < 2 ^ 32 →
    Command.parse line [] = [keyword, w, digits] →
      ((session [⟨fun _ => some text, ⟨.LOAD, [], 0⟩⟩]).1.execute (fun _ => some text)
          (Command.fresh.receive (fun _ => some text) line)).2 =
        some (answer (positions (words text) w) (numeral digits)) := by
  intro h
  have hlen : (List.replicate 65536 ['a']).length < 2 ^ 32 := by rw [List.length_replicate]; omega
  have hparse : Command.parse "locate a 65536".toList [] = ["locate".toList, ['a'], "65536".toList] := by decide +kernel
  have hright := h (sameWord 65536) "locate a 65536".toList _ _ _ (by rw [words_sameWord]; exact hlen) hparse
  have hstored : occurrences (session [⟨fun _ => some (sameWord 65536), ⟨.LOAD, [], 0⟩⟩]).1 ['a'] =
      List.range' 1 65536 := by
    have hwords : ∀ w ∈ List.replicate 65536 ['a'], w ≠ [] := by
      intro w hw
      rw [List.eq_of_mem_replicate hw]
      decide
    have hcanon := (insertWords_canonical hwords hlen (noneSplitsLate_replicate _ _)).2 ['a']
    rw [positions_replicate] at hcanon
    have hload := load_eq .fresh (sameWord 65536)
    rw [words_sameWord] at hload
    rw [← hcanon, ← hload]
    rfl
  have hnumeral : numeral "65536".toList = 65536 := by decide
  rw [execute_locate _ _ hparse, hstored, words_sameWord, positions_replicate, hnumeral, printed_ofNat] at hright
  have hgot : (List.range' 1 65536).getD (min 65536 65535 - 1) 0 = 65535 := by
    rw [List.getD_eq_getElem _ _ (by rw [List.length_range']; omega), List.getElem_range']
    rfl
  have hwanted : (List.range' 1 65536)[65536 - 1]? = some 65536 := by
    rw [List.getElem?_range' (by omega)]
  rw [hgot, answer, hwanted] at hright
  exact absurd (toString_inj.mp (Option.some.inj hright)) (by decide)

end Cs564.WordLocator
