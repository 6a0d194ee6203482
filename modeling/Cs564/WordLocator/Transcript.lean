import Cs564.WordLocator.MainLoop
import Cs564.WordLocator.Occurrence

/-!
# The whole program

`transcript` is what `main` prints.  `Locator` says what the program is for: it knows the words of the text that is
loaded, takes commands by their grammar, and answers with positions in that text; it has no tree, no numbers of limited
size and no regular expressions.  The program prints in every session what the locator does exactly if no file that can be named
has a word that splits late or stands there 65535 times (`transcript_iff`).
-/

namespace Cs564.WordLocator

/-! ### What is printed -/

/-- What one round prints: the prompt of `Command::Receive`, and the line of `Context::PrintResult` if there is one. -/
def MainState.prints (world : Nat → Files) (state : MainState) : List String :=
  let files := world state.rounds
  ">" :: (state.context.execute files (state.command.receive files (state.stdin.headD []))).2.toList

/-- What `main` prints in its first `n` rounds, or until it ends. -/
def transcript (world : Nat → Files) (lines : List (List Char)) : Nat → List String
  | 0 => []
  | n + 1 =>
    let state := (MainState.round world)^[n] (.start lines)
    transcript world lines n ++ if state.again then state.prints world else []

/-! ### What the program is for -/

/-- The words of the text that is loaded, whether the last command was a load, so that another one may follow, and whether
the session is over. -/
structure Locator where
  loaded : Option (List (List Char))
  reloads : Bool
  ended : Bool

/-- In front of the first line. -/
def Locator.fresh : Locator := { loaded := none, reloads := false, ended := false }

/-- The answer to a line that is no command, or one that cannot be obeyed. -/
def invalidCommand : String := "ERROR: Invalid command"

/-- One line, with the answer to it. -/
inductive Locator.Step (files : Files) (l : Locator) (line : List Char) : Option String → Locator → Prop
  | blank (empty : line = []) : Step files l line none l
  | new (reads : Reads line [['n', 'e', 'w']]) : Step files l line none { l with loaded := none, reloads := false }
  | ends (reads : Reads line [['e', 'n', 'd']]) : Step files l line none { l with reloads := false, ended := true }
  | load {path text : List Char} (reads : Reads line [['l', 'o', 'a', 'd'], path]) (file : files path = some text)
      (may : l.loaded = none ∨ l.reloads = true) :
      Step files l line none { l with loaded := some (words text), reloads := true }
  | refused {path text : List Char} (reads : Reads line [['l', 'o', 'a', 'd'], path]) (file : files path = some text)
      (full : l.loaded ≠ none) (other : l.reloads = false) : Step files l line (some invalidCommand) l
  | missing {path : List Char} (reads : Reads line [['l', 'o', 'a', 'd'], path]) (file : files path = none) :
      Step files l line (some invalidCommand) l
  | locate {word digits : List Char} (reads : Reads line [['l', 'o', 'c', 'a', 't', 'e'], word, digits]) :
      Step files l line (some (answer (positions (l.loaded.getD []) word) (numeral digits))) { l with reloads := false }
  | invalid (nonempty : line ≠ []) (none : ∀ found, ¬ Reads line found) : Step files l line (some invalidCommand) l

/-- A session, up to round `n`; behind the last line all lines are empty. -/
inductive Locator.Session (world : Nat → Files) (lines : List (List Char)) : Nat → List String → Locator → Prop
  | start : Session world lines 0 [] .fresh
  | line {n : Nat} {out : List String} {l l' : Locator} {printed : Option String} (before : Session world lines n out l)
      (goes : l.ended = false) (step : l.Step (world n) (lines.getD n []) printed l') :
      Session world lines (n + 1) (out ++ ">" :: printed.toList) l'
  | ended {n : Nat} {out : List String} {l : Locator} (before : Session world lines n out l) (ended : l.ended = true) :
      Session world lines (n + 1) (out ++ []) l

/-- A line as it is typed. -/
def Typed (line : List Char) : Prop := Char.ofNat 0 ∉ line ∧ '\n' ∉ line ∧ '\r' ∉ line

/-- No file that can be named has a word that splits late after the words before it, or one that stands there 65535 times
or more. -/
def Fair (files : Files) : Prop :=
  ∀ path text, Typed path → files path = some text →
    NoneSplitsLate (words text) ∧ ∀ w, (positions (words text) w).length < 65535

/-! ### Lines and positions -/

section Lines

variable {line found path : List Char}

theorem Typed.isAny (h : Typed line) : ∀ ch ∈ line, isAny ch = true := by
  intro ch hch
  rw [WordLocator.isAny, Bool.and_eq_true, bne_iff_ne, bne_iff_ne]
  exact ⟨fun heq => h.2.1 (heq ▸ hch), fun heq => h.2.2 (heq ▸ hch)⟩

theorem Typed.subset (h : Typed line) (hsub : path ⊆ line) : Typed path :=
  ⟨fun hch => h.1 (hsub hch), fun hch => h.2.1 (hsub hch), fun hch => h.2.2 (hsub hch)⟩

/-- No command is an empty line. -/
theorem Reads.ne_nil {found : List (List Char)} (h : Reads line found) : line ≠ [] := by
  rintro rfl
  have hopens : ∀ {keyword tail}, keyword ≠ [] → ¬ Opens keyword [] tail := by
    rintro keyword tail hne ⟨gap, word, heq, -, rfl⟩
    obtain ⟨-, happend⟩ := List.append_eq_nil_iff.mp heq.symm
    obtain ⟨rfl, -⟩ := List.append_eq_nil_iff.mp happend
    exact hne rfl
  cases h with
  | new h => exact hopens (List.cons_ne_nil _ _) h
  | ends h => exact hopens (List.cons_ne_nil _ _) h
  | quoted h => exact hopens (List.cons_ne_nil _ _) h
  | plain h => exact hopens (List.cons_ne_nil _ _) h
  | locate h => exact hopens (List.cons_ne_nil _ _) h

/-- `Command::Parse` reads a command that is typed. -/
theorem Reads.parse {found : List (List Char)} (h : Reads line found) (htyped : Typed line) :
    Command.parse line [] = found :=
  (parse_reads [] h.ne_nil htyped.1 htyped.isAny h).trans (List.nil_append _)

/-- The path of a command stands in its line. -/
theorem Reads.path_subset (h : Reads line [['l', 'o', 'a', 'd'], path]) : path ⊆ line := by
  have hin : ∀ {tail gap front behind : List Char}, tail = gap ++ (front ++ (path ++ behind)) → path ⊆ tail := by
    rintro tail gap front behind rfl ch hch
    simp [hch]
  cases h with
  | quoted hopens hquoted =>
    obtain ⟨behind, ⟨gap, -, -, htail⟩, -⟩ := hquoted
    have htail' : _ = gap ++ ([quote] ++ (path ++ quote :: behind)) := htail
    exact List.Subset.trans (hin htail') hopens.subset
  | plain hopens _ hplain =>
    obtain ⟨-, -, behind, ⟨gap, -, -, htail⟩, -⟩ := hplain
    have htail' : _ = gap ++ ([] ++ (path ++ behind)) := htail
    exact List.Subset.trans (hin htail') hopens.subset

/-- The positions of a word increase from 1 on. -/
theorem positions_sublist (ws : List (List Char)) (w : List Char) :
    (positions ws w).Sublist (List.range' 1 ws.length) := by
  rw [positions, ← List.zipIdx_map_snd]
  exact List.filter_sublist.map _

theorem positions_increasing (ws : List (List Char)) (w : List Char) : (positions ws w).Pairwise (· < ·) :=
  List.Pairwise.sublist (positions_sublist ws w) List.pairwise_lt_range'

theorem one_le_of_mem_positions {ws : List (List Char)} {w : List Char} {p : Nat} (hp : p ∈ positions ws w) : 1 ≤ p :=
  (List.mem_range'_1.mp ((positions_sublist ws w).subset hp)).1

/-- What the locator does with the parts of a command. -/
def Locator.obey (files : Files) (l : Locator) : List (List Char) → Option String × Locator
  | [] => (none, l)
  | [keyword] =>
    if keyword = ['n', 'e', 'w'] then (none, { l with loaded := none, reloads := false })
    else if keyword = ['e', 'n', 'd'] then (none, { l with reloads := false, ended := true })
    else (some invalidCommand, l)
  | [_, path] =>
    match files path with
    | none => (some invalidCommand, l)
    | some text =>
      if l.loaded = none ∨ l.reloads = true then (none, { l with loaded := some (words text), reloads := true })
      else (some invalidCommand, l)
  | [_, word, digits] =>
    (some (answer (positions (l.loaded.getD []) word) (numeral digits)), { l with reloads := false })
  | _ => (some invalidCommand, l)

/-- A line that is typed has one meaning. -/
theorem Locator.Step.eq_obey {files : Files} {l l' : Locator} {printed : Option String} (h : l.Step files line printed l')
    (htyped : Typed line) : (printed, l') = l.obey files (Command.parse line []) := by
  cases h with
  | blank empty =>
    rw [empty]
    rfl
  | new reads | ends reads | locate reads =>
    rw [reads.parse htyped]
    rfl
  | load reads file may =>
    rw [reads.parse htyped, Locator.obey, file]
    exact (if_pos may).symm
  | refused reads file full other =>
    rw [reads.parse htyped, Locator.obey, file]
    exact (if_neg (not_or.mpr ⟨full, Bool.eq_false_iff.mp other⟩)).symm
  | missing reads file => rw [reads.parse htyped, Locator.obey, file]
  | invalid nonempty none =>
    rw [parse_invalid [] nonempty htyped.1 none]
    rfl

/-- And so has a session. -/
theorem Locator.Session.unique {world : Nat → Files} {lines : List (List Char)} {n : Nat} {out out' : List String}
    {l l' : Locator} (htyped : ∀ k, Typed (lines.getD k [])) (h : Locator.Session world lines n out l)
    (h' : Locator.Session world lines n out' l') : out' = out ∧ l' = l := by
  induction h generalizing out' l' with
  | start =>
    cases h'
    exact ⟨rfl, rfl⟩
  | line before goes step ih =>
    cases h' with
    | line before' goes' step' =>
      obtain ⟨rfl, rfl⟩ := ih before'
      obtain ⟨rfl, rfl⟩ := Prod.mk.inj ((step'.eq_obey (htyped _)).trans (step.eq_obey (htyped _)).symm)
      exact ⟨rfl, rfl⟩
    | ended before' ended' =>
      obtain ⟨rfl, rfl⟩ := ih before'
      exact absurd (goes.symm.trans ended') Bool.false_ne_true
  | ended before ended ih =>
    cases h' with
    | line before' goes' step' =>
      obtain ⟨rfl, rfl⟩ := ih before'
      exact absurd (goes'.symm.trans ended) Bool.false_ne_true
    | ended before' ended' =>
      obtain ⟨rfl, rfl⟩ := ih before'
      exact ⟨rfl, rfl⟩

end Lines

/-! ### The program and the locator -/

section Matches

variable {context : Context} {l l' : Locator} {files : Files} {command : Command} {line : List Char}

/-- The context has the radix tree of the words that are loaded, with their positions, and its flags say the rest. -/
structure Matches (context : Context) (l : Locator) : Prop where
  result : context.result = -2
  ended : context.destroyed = l.ended
  reloads : context.prevOps = .LOAD ↔ l.reloads = true
  loadable : context.dictionary.isLoadable = true ↔ l.loaded = none
  empty : l.loaded = none → context.dictionary.wordList = Node.new []
  occurrences : ∀ w, occurrences context w = positions (l.loaded.getD []) w
  few : ∀ w, (positions (l.loaded.getD []) w).length < 65535

/-- Nothing is loaded. -/
theorem Matches.emptied {reloads ended : Bool} (hresult : context.result = -2) (hended : context.destroyed = ended)
    (hreloads : context.prevOps = .LOAD ↔ reloads = true) (hload : context.dictionary.isLoadable = true)
    (hempty : context.dictionary.wordList = Node.new []) : Matches context ⟨none, reloads, ended⟩ where
  result := hresult
  ended := hended
  reloads := hreloads
  loadable := iff_of_true hload rfl
  empty _ := hempty
  occurrences w := by
    rw [WordLocator.occurrences, hempty, counts_new]
    rfl
  few _ := (by decide : 0 < 65535)

theorem matches_fresh : Matches .fresh .fresh := .emptied rfl rfl (by decide) rfl rfl

/-- A fair text that is loaded into an empty dictionary. -/
theorem Matches.filled {text : List Char} {ended : Bool} (hlen : (words text).length < 2 ^ 32)
    (hnone : NoneSplitsLate (words text)) (hfew : ∀ w, (positions (words text) w).length < 65535)
    (hresult : context.result = -2) (hended : context.destroyed = ended) (hprev : context.prevOps = .LOAD)
    (hdictionary : context.dictionary = Dictionary.fresh.load (some text)) :
    Matches context ⟨some (words text), true, ended⟩ where
  result := hresult
  ended := hended
  reloads := iff_of_true hprev rfl
  loadable := by
    rw [hdictionary, load_isLoadable _ rfl]
    exact iff_of_false Bool.false_ne_true (Option.some_ne_none _)
  empty hnot := absurd hnot (Option.some_ne_none _)
  occurrences w := by
    have hload : context.dictionary.wordList = (insertWords (words text)).1 := by
      rw [hdictionary]
      exact load_eq .fresh text
    rw [WordLocator.occurrences, hload]
    exact (insertWords_canonical (fun w hw => (mem_words hw).1) hlen hnone).2 w
  few := hfew

/-- The context as it is after a command that changes the flags alone. -/
theorem Matches.flagged (h : Matches context l) {context' : Context} {reloads ended : Bool}
    (hresult : context'.result = -2) (hended : context'.destroyed = ended)
    (hreloads : context'.prevOps = .LOAD ↔ reloads = true) (hdictionary : context'.dictionary = context.dictionary) :
    Matches context' ⟨l.loaded, reloads, ended⟩ where
  result := hresult
  ended := hended
  reloads := hreloads
  loadable := by
    rw [hdictionary]
    exact h.loadable
  empty := by
    rw [hdictionary]
    exact h.empty
  occurrences w := by
    rw [WordLocator.occurrences, hdictionary]
    exact h.occurrences w
  few := h.few

/-- Nothing is printed where there is no result. -/
theorem printResult_quiet (hresult : context.result = -2) : context.printResult = (context, none) := by
  obtain ⟨dictionary, result, destroyed, prevOps⟩ := context
  obtain rfl : result = -2 := hresult
  rfl

/-- What is printed is forgotten. -/
theorem Matches.forget (h : Matches context l) (result : Int) :
    ({ context with result := result } : Context).printResult.1 = context := by
  rw [Context.printResult]
  dsimp only
  rw [← h.result]

/-- A load, as the flags have it. -/
theorem Matches.execute_load (h : Matches context l) {path text : List Char} (hfile : files path = some text) (n : Nat) :
    context.execute files ⟨.LOAD, path, n⟩ =
      if l.loaded = none ∨ l.reloads = true then
        ({ context with dictionary := Dictionary.fresh.load (some text), prevOps := .LOAD }, none)
      else (context, some invalidCommand) := by
  have hfresh : ∀ dictionary : Dictionary, dictionary.isLoadable = true → dictionary.wordList = Node.new [] →
      dictionary = .fresh := by
    rintro ⟨wordList, isLoadable⟩ rfl rfl
    rfl
  have hloads : ∀ context' : Context, context'.result = -2 → context'.dictionary = .fresh →
      context'.destroyed = context.destroyed →
      (if context'.dictionary.isLoadable then
          Context.printResult { context' with dictionary := context'.dictionary.load (some text), prevOps := .LOAD }
        else Context.printResult { context' with result := -1 }) =
        ({ context with dictionary := Dictionary.fresh.load (some text), prevOps := .LOAD }, none) := by
    intro context' hresult hdictionary hdestroyed
    have hload : context'.dictionary.isLoadable = true := by rw [hdictionary]; rfl
    rw [if_pos hload, Context.printResult, hdictionary]
    dsimp only
    rw [hresult, hdestroyed, h.result]
    rfl
  rw [Context.execute]
  dsimp only
  rw [hfile]
  by_cases hprev : context.prevOps = .LOAD
  · rw [if_pos hprev, if_pos (Or.inr (h.reloads.mp hprev))]
    exact hloads _ h.result rfl rfl
  · have hreloads : ¬ l.reloads = true := fun htrue => hprev (h.reloads.mpr htrue)
    rw [if_neg hprev]
    by_cases hnone : l.loaded = none
    · rw [if_pos (Or.inl hnone)]
      exact hloads _ h.result (hfresh _ (h.loadable.mpr hnone) (h.empty hnone)) rfl
    · have hkept := h.forget (-1)
      rw [if_neg fun hload => hnone (h.loadable.mp hload), if_neg (not_or.mpr ⟨hnone, hreloads⟩)]
      exact Prod.ext hkept rfl

/-- A command that finds a number. -/
theorem Matches.execute_locate (h : Matches context l) {w digits : List Char}
    (hparse : Command.parse line [] = [['l', 'o', 'c', 'a', 't', 'e'], w, digits]) :
    (context.execute files (command.receive files line)).2 =
      some (answer (positions (l.loaded.getD []) w) (numeral digits)) := by
  rw [WordLocator.execute_locate files command hparse, h.occurrences]
  refine (cut_answer_iff _ _).mpr ?_
  exact (cut_iff_of_increasing (positions_increasing _ w) fun p hp => one_le_of_mem_positions hp).mpr (Or.inr (h.few w))

theorem receive_load (command : Command) (htyped : Typed line) {path text : List Char}
    (hreads : Reads line [['l', 'o', 'a', 'd'], path]) (hfile : files path = some text) :
    command.receive files line = ⟨.LOAD, path, command.arg2⟩ := by
  rw [Command.receive, hreads.parse htyped]
  dsimp only
  rw [hfile, Option.isSome_some, if_pos rfl]

/-- A command that names a file. -/
private theorem Matches.load (h : Matches context l) (hmoderate : Moderate files) (hfair : Fair files)
    (htyped : Typed line) {path : List Char} (hreads : Reads line [['l', 'o', 'a', 'd'], path]) :
    ∃ l', l.Step files line (context.execute files (command.receive files line)).2 l' ∧
      Matches (context.execute files (command.receive files line)).1 l' := by
  cases hfile : files path with
  | none =>
    have hkept := h.forget (-1)
    rw [Command.receive, hreads.parse htyped]
    dsimp only
    rw [hfile]
    exact ⟨l, .missing hreads hfile, hkept.symm ▸ h⟩
  | some text =>
    rw [receive_load command htyped hreads hfile, h.execute_load hfile]
    by_cases hmay : l.loaded = none ∨ l.reloads = true
    · rw [if_pos hmay]
      obtain ⟨hnone, hfew⟩ := hfair path text (htyped.subset hreads.path_subset) hfile
      exact ⟨_, .load hreads hfile hmay, .filled (hmoderate path text hfile) hnone hfew h.result h.ended rfl rfl⟩
    · obtain ⟨hfull, hother⟩ := not_or.mp hmay
      rw [if_neg hmay]
      exact ⟨l, .refused hreads hfile hfull (Bool.eq_false_iff.mpr hother), h⟩

/-- One line that is typed, with the files as they are then. -/
theorem Matches.step (h : Matches context l) (command : Command) (hmoderate : Moderate files) (hfair : Fair files) (htyped : Typed line) :
    ∃ l', l.Step files line (context.execute files (command.receive files line)).2 l' ∧
      Matches (context.execute files (command.receive files line)).1 l' := by
  by_cases hempty : line = []
  · -- nothing is read
    have hquiet : context.execute files (command.receive files line) = (context, none) := by
      rw [hempty]
      exact printResult_quiet h.result
    rw [hquiet]
    exact ⟨l, .blank hempty, h⟩
  by_cases hreads : ∃ found, Reads line found
  · obtain ⟨found, hreads⟩ := hreads
    have hparse := hreads.parse htyped
    cases hreads with
    | new hopens hblank =>
      have hquiet : context.execute files (command.receive files line) =
          ({ context with dictionary := context.dictionary.new, prevOps := .NEW }, none) := by
        rw [Command.receive, hparse]
        exact printResult_quiet h.result
      rw [hquiet]
      exact ⟨_, .new (.new hopens hblank), .emptied h.result h.ended (by simp) rfl rfl⟩
    | ends hopens hblank =>
      have hquiet : context.execute files (command.receive files line) =
          ({ context with destroyed := true, prevOps := .END }, none) := by
        rw [Command.receive, hparse]
        exact printResult_quiet h.result
      rw [hquiet]
      exact ⟨_, .ends (.ends hopens hblank), h.flagged h.result rfl (by simp) rfl⟩
    | quoted hopens hquoted => exact h.load hmoderate hfair htyped (.quoted hopens hquoted)
    | plain hopens hnot hplain => exact h.load hmoderate hfair htyped (.plain hopens hnot hplain)
    | locate hopens hlocated =>
      have hcontext : (context.execute files (command.receive files line)).1 =
          { context with result := -2, prevOps := .LOCATE } := by
        rw [Command.receive, hparse]
        rfl
      rw [h.execute_locate hparse, hcontext]
      exact ⟨_, .locate (.locate hopens hlocated), h.flagged rfl h.ended (by simp) rfl⟩
  · have hnone := not_exists.mp hreads
    have hkept := h.forget (-1)
    rw [Command.receive, parse_invalid [] hempty htyped.1 hnone]
    exact ⟨l, .invalid hempty hnone, hkept.symm ▸ h⟩

/-! ### Whole sessions -/

section Sessions

variable {world : Nat → Files} {lines : List (List Char)}

theorem rounds_count (n : Nat) : ((MainState.round world)^[n] (.start lines)).rounds = n := by
  induction n with
  | zero => rfl
  | succ n ih =>
    rw [Function.iterate_succ_apply']
    exact congrArg (· + 1) ih

/-- The line that is read in a round. -/
theorem rounds_line (n : Nat) : ((MainState.round world)^[n] (.start lines)).stdin.headD [] = lines.getD n [] := by
  rw [(rounds_state n).1, List.headD_eq_head?_getD, List.head?_drop, List.getD_eq_getElem?_getD]

/-- What a round prints, and the context behind it. -/
theorem round_context (n : Nat) :
    ((MainState.round world)^[n + 1] (.start lines)).context =
        (((MainState.round world)^[n] (.start lines)).context.execute (world n)
          (((MainState.round world)^[n] (.start lines)).command.receive (world n) (lines.getD n []))).1 ∧
      ((MainState.round world)^[n] (.start lines)).prints world =
        ">" :: (((MainState.round world)^[n] (.start lines)).context.execute (world n)
          (((MainState.round world)^[n] (.start lines)).command.receive (world n) (lines.getD n []))).2.toList := by
  rw [Function.iterate_succ_apply', MainState.round, MainState.prints, rounds_count, rounds_line]
  exact ⟨rfl, rfl⟩

theorem typed_getD (htyped : ∀ line ∈ lines, Typed line) (n : Nat) : Typed (lines.getD n []) := by
  rw [List.getD_eq_getElem?_getD]
  cases hline : lines[n]? with
  | none => exact ⟨List.not_mem_nil, List.not_mem_nil, List.not_mem_nil⟩
  | some line => exact htyped line (List.mem_of_getElem? hline)

/-- By induction on the rounds: as long as the session is not over, the context matches the locator. -/
theorem exists_session (hmoderate : ∀ i, Moderate (world i)) (hfair : ∀ i, Fair (world i))
    (htyped : ∀ line ∈ lines, Typed line) (n : Nat) :
    ∃ l, Locator.Session world lines n (transcript world lines n) l ∧
      (((MainState.round world)^[n] (.start lines)).context.destroyed = l.ended) ∧
      (l.ended = false → Matches ((MainState.round world)^[n] (.start lines)).context l) := by
  induction n with
  | zero => exact ⟨.fresh, .start, rfl, fun _ => matches_fresh⟩
  | succ n ih =>
    obtain ⟨l, hsession, hended, hmatches⟩ := ih
    rw [transcript, MainState.again, hended]
    cases hgoes : l.ended with
    | false =>
      obtain ⟨hcontext, hprints⟩ := @round_context world lines n
      obtain ⟨l', hstep, hmatches'⟩ := (hmatches hgoes).step
        ((MainState.round world)^[n] (.start lines)).command (hmoderate n) (hfair n) (typed_getD htyped n)
      rw [hcontext, Bool.not_false, if_pos rfl, hprints]
      exact ⟨l', hsession.line hgoes hstep, hmatches'.ended, fun _ => hmatches'⟩
    | true =>
      refine ⟨l, hsession.ended hgoes, ?_, fun hnot => absurd (hgoes.symm.trans hnot) (by decide)⟩
      rw [Function.iterate_succ_apply', round_destroyed, hended, hgoes]
      rfl

end Sessions

end Matches

/-! ### A session that finds a word -/

section Finds

variable {files : Files} {l l' : Locator} {line path text w digits : List Char} {printed : Option String}

/-- The line that loads a file. -/
def loadLine (path : List Char) : List Char := "load ".toList ++ quote :: (path ++ [quote])

/-- The line that finds an occurrence. -/
def locateLine (w digits : List Char) : List Char := "locate ".toList ++ (w ++ ' ' :: digits)

theorem reads_loadLine (path : List Char) : Reads (loadLine path) [['l', 'o', 'a', 'd'], path] := by
  have hspace : Blank [' '] := (blank_iff_all _).mp (by decide)
  have hnone : Blank [] := (blank_iff_all _).mp rfl
  exact .quoted ⟨[], "load".toList, rfl, hnone, by decide⟩ ⟨[], ⟨[' '], List.cons_ne_nil _ _, hspace, rfl⟩, hnone⟩

theorem typed_loadLine (htyped : Typed path) : Typed (loadLine path) := by
  have hmem : ∀ ch ∈ loadLine path, ch ∈ "load ".toList ∨ ch = quote ∨ ch ∈ path := by
    intro ch hch
    simp only [loadLine, List.mem_append, List.mem_cons, List.not_mem_nil, or_false] at hch
    tauto
  refine ⟨fun hch => ?_, fun hch => ?_, fun hch => ?_⟩
  · rcases hmem _ hch with h | h | h
    · exact absurd h (by decide)
    · exact absurd h (by decide)
    · exact htyped.1 h
  · rcases hmem _ hch with h | h | h
    · exact absurd h (by decide)
    · exact absurd h (by decide)
    · exact htyped.2.1 h
  · rcases hmem _ hch with h | h | h
    · exact absurd h (by decide)
    · exact absurd h (by decide)
    · exact htyped.2.2 h

theorem reads_locateLine (hne : w ≠ []) (hword : ∀ ch ∈ w, isWordChar ch = true) (hdigits : IsNumeral digits) :
    Reads (locateLine w digits) [['l', 'o', 'c', 'a', 't', 'e'], toLower w, digits] := by
  have hspace : Blank [' '] := (blank_iff_all _).mp (by decide)
  have hnone : Blank [] := (blank_iff_all _).mp rfl
  refine .locate ⟨[], "locate".toList, rfl, hnone, by decide⟩ ⟨hne, hword, hdigits, ' ' :: digits, [], ?_, ?_, hnone⟩
  · exact ⟨[' '], List.cons_ne_nil _ _, hspace, rfl⟩
  · exact ⟨[' '], List.cons_ne_nil _ _, hspace, by simp⟩

theorem typed_locateLine (hword : ∀ ch ∈ w, isWordChar ch = true) (hdigits : IsNumeral digits) :
    Typed (locateLine w digits) := by
  -- all characters are from the space on
  have hge : ∀ ch ∈ locateLine w digits, 32 ≤ ch.toNat := by
    have hkeyword : ("locate ".toList.all fun ch => 32 ≤ ch.toNat) = true := by decide
    intro ch hch
    rcases List.mem_append.mp hch with hch | hch
    · exact of_decide_eq_true (List.all_eq_true.mp hkeyword ch hch)
    rcases List.mem_append.mp hch with hch | hch
    · exact (by decide : 32 ≤ 39).trans (le_toNat_of_isWordChar (hword ch hch))
    rcases List.mem_cons.mp hch with rfl | hch
    · decide
    · exact (by decide : 32 ≤ 48).trans (le_toNat_of_isDigit (hdigits.2 ch hch))
  have hlow : ∀ ch : Char, ch.toNat < 32 → ch ∉ locateLine w digits :=
    fun ch hlt hch => absurd (hge ch hch) (Nat.not_le.mpr hlt)
  exact ⟨hlow _ (by decide), hlow _ (by decide), hlow _ (by decide)⟩

/-! ### The texts that are told apart -/

variable {world : Nat → Files} {lines : List (List Char)} {i : Nat}

/-- As long as the lines are empty nothing happens. -/
theorem rounds_blank {n : Nat} (hblank : ∀ k, k < n → lines.getD k [] = []) :
    ((MainState.round world)^[n] (.start lines)).context = .fresh ∧
      transcript world lines n = List.replicate n ">" := by
  induction n with
  | zero => exact ⟨rfl, rfl⟩
  | succ n ih =>
    obtain ⟨hcontext, hprinted⟩ := ih fun k hk => hblank k (hk.trans (Nat.lt_succ_self n))
    obtain ⟨hnext, hprints⟩ := @round_context world lines n
    have hquiet : ∀ (files : Files) (command : Command),
        Context.fresh.execute files (command.receive files []) = (.fresh, none) := fun _ _ => rfl
    rw [hblank n (Nat.lt_succ_self n), hcontext, hquiet] at hnext hprints
    rw [transcript, MainState.again, hcontext, hprints, hnext, hprinted, List.replicate_succ']
    exact ⟨rfl, rfl⟩

theorem session_blank {n : Nat} (hblank : ∀ k, k < n → lines.getD k [] = []) :
    Locator.Session world lines n (List.replicate n ">") .fresh := by
  induction n with
  | zero => exact .start
  | succ n ih =>
    rw [List.replicate_succ']
    refine .line (ih fun k hk => hblank k (hk.trans (Nat.lt_succ_self n))) rfl (.blank ?_)
    exact hblank n (Nat.lt_succ_self n)

/-- The lines that load the file that is there in round `i`, and find an occurrence of a word. -/
def findLines (i : Nat) (path w digits : List Char) : List (List Char) :=
  List.replicate i [] ++ [loadLine path, locateLine w digits]

theorem findLines_getD (i : Nat) (path w digits : List Char) :
    (∀ k, k < i → (findLines i path w digits).getD k [] = []) ∧
      (findLines i path w digits).getD i [] = loadLine path ∧
      (findLines i path w digits).getD (i + 1) [] = locateLine w digits := by
  have hlength : (List.replicate i ([] : List Char)).length = i := List.length_replicate
  simp only [findLines, List.getD_eq_getElem?_getD]
  refine ⟨fun k hk => ?_, ?_, ?_⟩
  · rw [List.getElem?_append_left (hlength.symm ▸ hk), List.getElem?_replicate]
    rw [if_pos hk]
    rfl
  · rw [List.getElem?_append_right hlength.le, hlength, Nat.sub_self]
    rfl
  · have hsub : i + 1 - i = 1 := Nat.add_sub_cancel_left ..
    rw [List.getElem?_append_right (hlength.trans_le (Nat.le_succ i)), hlength, hsub]
    rfl

section FindLines

variable (hpath : Typed path) (hfile : world i path = some text) (hne : w ≠ []) (hword : ∀ ch ∈ w, isWordChar ch = true)
  (hdigits : IsNumeral digits)
include hpath hfile hne hword hdigits

/-- What the program prints for them. -/
theorem transcript_findLines : transcript world (findLines i path w digits) (i + 2) = List.replicate i ">" ++ [">"] ++ ">" ::
    (Context.printed (((place (insertWords (words text)).1 (toLower w)).counts).getD
      (min (numeral digits) 65535 - 1) 0 : Nat)).toList := by
  obtain ⟨hblank, hfirst, hsecond⟩ := findLines_getD i path w digits
  have hmay : Locator.fresh.loaded = none ∨ Locator.fresh.reloads = true := Or.inl rfl
  have hparse := (reads_locateLine hne hword hdigits).parse (typed_locateLine hword hdigits)
  obtain ⟨hcontext, hprinted⟩ := @rounds_blank world (findLines i path w digits) i hblank
  obtain ⟨hnext, hprints⟩ := @round_context world (findLines i path w digits) i
  obtain ⟨-, hprints'⟩ := @round_context world (findLines i path w digits) (i + 1)
  rw [hfirst, hcontext, receive_load _ (typed_loadLine hpath) (reads_loadLine path) hfile,
    matches_fresh.execute_load hfile, if_pos hmay] at hnext hprints
  rw [hsecond, hnext, execute_locate _ _ hparse, occurrences] at hprints'
  have hlist := load_eq .fresh text
  rw [transcript, transcript, hprinted, MainState.again, MainState.again, hcontext, hnext, hprints, hprints', ← hlist]
  rfl

omit hpath in
/-- What the locator does. -/
theorem session_findLines : ∃ l, Locator.Session world (findLines i path w digits) (i + 2)
    (List.replicate i ">" ++ [">"] ++ ">" ::
      (some (answer (positions (words text) (toLower w)) (numeral digits))).toList) l := by
  obtain ⟨hblank, hfirst, hsecond⟩ := findLines_getD i path w digits
  refine ⟨_, .line (.line (session_blank hblank) rfl (.load ?_ hfile (Or.inl rfl))) rfl (.locate ?_)⟩
  · rw [hfirst]
    exact reads_loadLine path
  · rw [hsecond]
    exact reads_locateLine hne hword hdigits

end FindLines

/-- What a program that prints what the locator does has to answer. -/
theorem answers_right (hall : ∀ lines : List (List Char), (∀ line ∈ lines, Typed line) → ∀ n out,
      (∃ l, Locator.Session world lines n out l) → out = transcript world lines n)
    (hpath : Typed path) (hfile : world i path = some text) (hw : w ∈ words text) (hdigits : IsNumeral digits) :
    Context.printed (((place (insertWords (words text)).1 w).counts).getD (min (numeral digits) 65535 - 1) 0 : Nat) =
      some (answer (positions (words text) w) (numeral digits)) := by
  obtain ⟨run, hrun, rfl⟩ := List.mem_map.mp hw
  obtain ⟨hne, hword⟩ := mem_runs hrun
  have htyped : ∀ line ∈ findLines i path run digits, Typed line := by
    intro line hline
    rcases List.mem_append.mp hline with hline | hline
    · rw [List.eq_of_mem_replicate hline]
      exact ⟨List.not_mem_nil, List.not_mem_nil, List.not_mem_nil⟩
    · rcases List.mem_cons.mp hline with rfl | hline
      · exact typed_loadLine hpath
      · exact List.mem_singleton.mp hline ▸ typed_locateLine hword hdigits
  have hout := hall _ htyped _ _ (session_findLines hfile hne hword hdigits)
  rw [transcript_findLines hpath hfile hne hword hdigits] at hout
  have hlast := List.cons.inj (List.append_cancel_left hout)
  cases hprinted : Context.printed (((place (insertWords (words text)).1 (toLower run)).counts).getD
      (min (numeral digits) 65535 - 1) 0 : Nat) with
  | none =>
    rw [hprinted] at hlast
    cases hlast.2
  | some printed =>
    rw [hprinted] at hlast
    exact congrArg some (List.cons.inj hlast.2).1.symm

/-- If some words split late, there is a first one. -/
theorem exists_first_late {ws : List (List Char)} (h : ¬ NoneSplitsLate ws) :
    ∃ before w behind, ws = before ++ w :: behind ∧ NoneSplitsLate before ∧ SplitsLate before w := by
  induction ws using List.reverseRecOn with
  | nil =>
    refine absurd ?_ h
    intro before w behind heq
    exact absurd heq.symm (by simp)
  | append_singleton ws x ih =>
    by_cases hnone : NoneSplitsLate ws
    · -- it is the last word
      obtain ⟨before, w, behind, heq, hlate⟩ : ∃ before w behind, ws ++ [x] = before ++ w :: behind ∧
          SplitsLate before w := by
        by_contra hno
        exact h fun before w behind heq hlate => hno ⟨before, w, behind, heq, hlate⟩
      rcases List.eq_nil_or_concat behind with rfl | ⟨behind', y, rfl⟩
      · obtain ⟨rfl, hlast⟩ := List.append_inj' heq rfl
        exact ⟨ws, w, [], heq, hnone, hlate⟩
      · have hassoc : before ++ w :: (behind' ++ [y]) = (before ++ w :: behind') ++ [y] := by simp
        rw [List.concat_eq_append, hassoc] at heq
        exact absurd hlate (hnone before w behind' (List.append_inj' heq rfl).1)
    · obtain ⟨before, w, behind, rfl, hrest⟩ := ih hnone
      exact ⟨before, w, behind ++ [x], by simp, hrest⟩

private theorem isNumeral_of (digits : List Char) (hdigits : (digits.all Char.isDigit && digits.head?.any (· != '0')) = true) :
    IsNumeral digits := by
  obtain ⟨hall, hhead⟩ := Bool.and_eq_true_iff.mp hdigits
  cases digits with
  | nil => cases hhead
  | cons d rest => exact ⟨⟨d, rest, rfl, by simpa using hhead⟩, List.all_eq_true.mp hall⟩

private theorem mem_of_getD {l : List Nat} {k m : Nat} (h : l.getD k 0 = m + 1) : m + 1 ∈ l := by
  rw [List.getD_eq_getElem?_getD] at h
  cases hget : l[k]? with
  | none =>
    rw [hget] at h
    cases h
  | some a =>
    rw [hget] at h
    exact h ▸ List.mem_of_getElem? hget

/-- The first occurrence of a word is printed where it stands. -/
theorem first_found {before behind : List (List Char)} {r : Nat} (hw : w ∉ before)
    (h : Context.printed (r : Nat) = some (answer (positions (before ++ w :: behind) w) 1)) : r = before.length + 1 := by
  have hfirst : (positions (before ++ w :: behind) w)[0]? = some (before.length + 1) := by
    have hpositions : positions (before ++ [w]) w = [before.length + 1] := by
      rw [positions_append, positions_of_notMem hw, if_pos rfl, List.nil_append]
    obtain ⟨rest, hrest⟩ := positions_prefix (show before ++ [w] <+: before ++ w :: behind from ⟨behind, by simp⟩) w
    rw [← hrest, hpositions]
    rfl
  rw [printed_ofNat, answer, Nat.sub_self, hfirst] at h
  have hprinted := Option.some.inj h
  by_cases hr : r = 0
  · rw [if_pos hr] at hprinted
    exact absurd hprinted.symm (toString_ne_noEntry _)
  · rw [if_neg hr] at hprinted
    exact toString_inj.mp hprinted

/-- The program prints in every session what the locator does exactly if all files are fair. -/
theorem transcript_iff (hmoderate : ∀ i, Moderate (world i)) :
    (∀ lines : List (List Char), (∀ line ∈ lines, Typed line) → ∀ n out,
      (∃ l, Locator.Session world lines n out l) ↔ out = transcript world lines n) ↔ ∀ i, Fair (world i) := by
  constructor
  · intro hall i path text hpath hfile
    replace hall := fun lines htyped n out => (hall lines htyped n out).mp
    have hne : ∀ w ∈ words text, w ≠ [] := fun w hw => (mem_words hw).1
    have hlen := hmoderate i path text hfile
    have hnone : NoneSplitsLate (words text) := by
      by_contra hsome
      -- the first occurrence of the first word that splits late is not found
      obtain ⟨before, w, behind, heq, hbefore, hlate⟩ := exists_first_late hsome
      have hw : w ∉ before := by
        intro hw
        obtain ⟨l, -, -, hoff, -⟩ := hlate
        exact hoff ⟨w, hw, List.take_prefix _ _⟩
      have hlost := insertWords_late (heq ▸ hne) (heq ▸ hlen) hbefore hlate
      have hmem : w ∈ words text := by simp [heq]
      have hright := answers_right hall hpath hfile hmem (isNumeral_of ['1'] (by decide))
      rw [heq] at hright
      exact hlost (mem_of_getD (first_found hw hright))
    refine ⟨hnone, fun w => ?_⟩
    by_cases hw : w ∈ words text
    · have hright := answers_right hall hpath hfile hw (isNumeral_of "65536".toList (by decide))
      have hnumeral : numeral "65536".toList = 65536 := by decide
      rw [(insertWords_canonical hne hlen hnone).2, hnumeral] at hright
      have hfew := (cut_iff_of_increasing (positions_increasing _ w) fun p hp => one_le_of_mem_positions hp).mp
        ((cut_answer_iff _ _).mp hright)
      exact hfew.resolve_left (by decide)
    · rw [positions_of_notMem hw]
      decide
  · intro hfair lines htyped n out
    obtain ⟨l, hsession, -⟩ := exists_session hmoderate hfair htyped n
    constructor
    · rintro ⟨l', hother⟩
      exact (hsession.unique (typed_getD htyped) hother).1
    · rintro rfl
      exact ⟨l, hsession⟩

end Finds

/-- The text of three words is fair. -/
theorem threeWords_fair : Fair threeWords := by
  intro path text _ hfile
  obtain rfl := Option.some.inj hfile
  have hwords : words "a b a".toList = [['a'], ['b'], ['a']] := by decide
  rw [hwords]
  refine ⟨?_, fun w => ?_⟩
  · rintro before w behind heq ⟨l, hlt, -, -, hnode, -⟩
    have hmem : w ∈ [['a'], ['b'], ['a']] := by simp [heq]
    have hone : w.length = 1 := by
      simp only [List.mem_cons, List.not_mem_nil, or_false] at hmem
      rcases hmem with rfl | rfl | rfl <;> rfl
    obtain rfl : l = 0 := by omega
    exact hnode (Or.inl List.take_zero)
  · have hle := (positions_sublist [['a'], ['b'], ['a']] w).length_le
    rw [List.length_range'] at hle
    exact hle.trans_lt (by decide)

/-- The text of three words is loaded, and the second `a` is located. -/
theorem transcript_iff_threeWords :
    (transcript (fun _ => threeWords) ["load x".toList, "locate a 2".toList] 2 = [">", ">", "3"]) ∧
      ∃ l, Locator.Session (fun _ => threeWords) ["load x".toList, "locate a 2".toList] 2 [">", ">", "3"] l := by
  have hprinted : transcript (fun _ => threeWords) ["load x".toList, "locate a 2".toList] 2 = [">", ">", "3"] := by decide +kernel
  have hmoderate : ∀ i : Nat, Moderate ((fun _ => threeWords) i) := by
    intro i path text hfile
    obtain rfl := Option.some.inj hfile
    decide
  refine ⟨hprinted, ?_⟩
  refine ((transcript_iff hmoderate).mpr (fun _ => threeWords_fair) _ ?_ 2 _).mpr hprinted.symm
  intro line hline
  simp only [List.mem_cons, List.not_mem_nil, or_false] at hline
  rcases hline with rfl | rfl <;> exact ⟨by decide, by decide, by decide⟩

end Cs564.WordLocator
