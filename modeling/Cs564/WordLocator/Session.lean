import Cs564.WordLocator.Dictionary
import Mathlib.Data.List.Induction

/-!
# Sessions of the word locator

`wl::Context` executes the commands of a session one after the other on one dictionary.  Whether a `LOAD` resets the
dictionary, fills it or is refused depends on two flags: `is_loadable` of the dictionary, and `prev_ops` of the
context, which is set by some commands only.  `effects` is the history the flags stand for: the commands of the session
that took effect.
-/

namespace Cs564.WordLocator

/-- `wl::Op`. -/
inductive Op | EMPTY | END | NEW | LOAD | LOCATE | INVALID
deriving DecidableEq, Repr

/-- `wl::Command`, after it has received its input. -/
structure Command where
  op : Op
  arg1 : List Char
  arg2 : Nat

/-- The text that a path opens to; `none` if no file opens. -/
abbrev Files := List Char → Option (List Char)

/-- `wl::Context`. -/
structure Context where
  dictionary : Dictionary
  result : Int
  destroyed : Bool
  prevOps : Op

namespace Context

/-- `Context::Context`. -/
def fresh : Context := { dictionary := .fresh, result := -2, destroyed := false, prevOps := .EMPTY }

/-- What `Context::PrintResult` prints, if anything. -/
def printed (result : Int) : Option String :=
  if result = -1 then some "ERROR: Invalid command"
  else if result = 0 then some "No matching entry"
  else if result ≥ 1 then some (toString result)
  else none

/-- `Context::PrintResult`. -/
def printResult (context : Context) : Context × Option String :=
  ({ context with result := -2 }, printed context.result)

/-- `Context::Execute`, with what is printed. -/
def execute (context : Context) (files : Files) (command : Command) : Context × Option String :=
  match command.op with
  | .END => printResult { context with destroyed := true, prevOps := .END }
  | .NEW => printResult { context with dictionary := context.dictionary.new, prevOps := .NEW }
  | .LOAD =>
    -- two successive load commands are allowed
    let context := if context.prevOps = .LOAD then { context with dictionary := context.dictionary.new } else context
    if context.dictionary.isLoadable then
      printResult { context with dictionary := context.dictionary.load (files command.arg1), prevOps := .LOAD }
    else printResult { context with result := -1 }
  | .LOCATE =>
    printResult { context with result := context.dictionary.locate command.arg1 command.arg2, prevOps := .LOCATE }
  | .INVALID => printResult { context with result := -1 }
  | .EMPTY => printResult context

end Context

/-- A command of a session, and the files as they are then. -/
structure Step where
  files : Files
  command : Command

namespace Step

variable (step : Step)

/-- The context reports an error for a `LOAD`. -/
def refused (context : Context) : Bool :=
  step.command.op == .LOAD && (context.execute step.files step.command).2 == some "ERROR: Invalid command"

/-- The command is none of `EMPTY`, `INVALID` and a refused `LOAD`. -/
def tookEffect (context : Context) : Bool :=
  step.command.op != .EMPTY && step.command.op != .INVALID && !step.refused context

end Step

/-- The context after the commands, and the commands that took effect. -/
def session (steps : List Step) : Context × List Step :=
  steps.foldl (fun state step => ((state.1.execute step.files step.command).1,
    if step.tookEffect state.1 then state.2 ++ [step] else state.2)) (.fresh, [])

/-- The loads since the last `NEW`. -/
def loadsSinceNew (effects : List Step) : List Step :=
  effects.foldl (fun loads step =>
    if step.command.op = .NEW then [] else if step.command.op = .LOAD then loads ++ [step] else loads) []

/-- The last command is a `LOAD`. -/
def endsInLoad (effects : List Step) : Bool := effects.getLast?.any fun step => step.command.op == .LOAD

/-- A fresh dictionary into which only the file of the last load since the last `NEW` was loaded. -/
def loadedAlone (effects : List Step) : Dictionary :=
  match (loadsSinceNew effects).getLast? with
  | none => .fresh
  | some step => Dictionary.fresh.load (step.files step.command.arg1)

/-- The context has the dictionary of one file, and its flags say what the commands that took effect were. -/
structure Unmixed (context : Context) (effects : List Step) : Prop where
  dictionary : context.dictionary = loadedAlone effects
  answers : ∀ files word occurrence, (context.execute files ⟨.LOCATE, word, occurrence⟩).2 =
    Context.printed ((loadedAlone effects).locate word occurrence)
  loadable : context.dictionary.isLoadable = true ↔ loadsSinceNew effects = []
  refuses : ∀ step : Step, step.command.op = .LOAD →
    (step.refused context = true ↔ loadsSinceNew effects ≠ [] ∧ endsInLoad effects = false)
  ignores : ∀ step : Step, step.tookEffect context = false → (context.execute step.files step.command).1 = context

/-! ### The flags and the history -/

/-- What the flags have to do with the history. -/
structure Follows (context : Context) (effects : List Step) : Prop where
  dictionary : context.dictionary = loadedAlone effects
  result : context.result = -2
  prevOps : context.prevOps = .LOAD ↔ endsInLoad effects = true
  loaded : endsInLoad effects = true → loadsSinceNew effects ≠ []
  readable : ∀ step ∈ loadsSinceNew effects, (step.files step.command.arg1).isSome

variable {context : Context} {effects : List Step} {step : Step}

theorem loadsSinceNew_append (effects : List Step) (step : Step) :
    loadsSinceNew (effects ++ [step]) =
      if step.command.op = .NEW then [] else if step.command.op = .LOAD then loadsSinceNew effects ++ [step]
      else loadsSinceNew effects := by
  rw [loadsSinceNew, List.foldl_append]
  rfl

theorem endsInLoad_append (effects : List Step) (step : Step) :
    endsInLoad (effects ++ [step]) = (step.command.op == .LOAD) := by
  rw [endsInLoad, List.getLast?_concat]
  rfl

theorem load_isLoadable (dictionary : Dictionary) {file : Option (List Char)} (hf : file.isSome) :
    (dictionary.load file).isLoadable = false := by
  obtain ⟨text, rfl⟩ := Option.isSome_iff_exists.mp hf
  rw [Dictionary.load]
  by_cases h : dictionary.isLoadable = true
  · rw [if_pos h]
  · rw [if_neg h]
    exact Bool.eq_false_iff.mpr h

namespace Follows

theorem loadable (h : Follows context effects) : context.dictionary.isLoadable = true ↔ loadsSinceNew effects = [] := by
  rw [h.dictionary, loadedAlone]
  cases hlast : (loadsSinceNew effects).getLast? with
  | none =>
    rw [List.getLast?_eq_none_iff] at hlast
    exact iff_of_true rfl hlast
  | some last =>
    have hmem := List.mem_of_getLast? hlast
    refine iff_of_false ?_ (List.ne_nil_of_mem hmem)
    rw [load_isLoadable _ (h.readable last hmem)]
    exact Bool.false_ne_true

/-- What `Execute` does for a `LOAD`. -/
theorem execute_load (h : Follows context effects) (hop : step.command.op = .LOAD) :
    context.execute step.files step.command =
      if loadsSinceNew effects ≠ [] ∧ endsInLoad effects = false then (context, some "ERROR: Invalid command")
      else
        ({ context with dictionary := Dictionary.fresh.load (step.files step.command.arg1), prevOps := .LOAD }, none) := by
  have hresult := h.result
  rw [Context.execute, hop]
  dsimp only
  by_cases hprev : context.prevOps = .LOAD
  · -- the dictionary is reset first
    have hnot : ¬ (loadsSinceNew effects ≠ [] ∧ endsInLoad effects = false) := fun hboth =>
      Bool.false_ne_true (hboth.2.symm.trans (h.prevOps.mp hprev))
    have hnew : context.dictionary.new.isLoadable = true := rfl
    rw [if_pos hprev, if_neg hnot, if_pos hnew, Context.printResult]
    dsimp only
    rw [hresult]
    rfl
  · have hends : endsInLoad effects = false := Bool.eq_false_iff.mpr fun htrue => hprev (h.prevOps.mpr htrue)
    rw [if_neg hprev]
    by_cases hempty : loadsSinceNew effects = []
    · have hfresh : context.dictionary = .fresh := by rw [h.dictionary, loadedAlone, hempty]; rfl
      rw [if_pos (h.loadable.mpr hempty), if_neg (fun hboth => hboth.1 hempty), Context.printResult, hresult, hfresh]
      rfl
    · rw [if_neg (fun hload => hempty (h.loadable.mp hload)), if_pos ⟨hempty, hends⟩, Context.printResult]
      refine Prod.ext ?_ rfl
      dsimp only
      rw [← hresult]

theorem refused_iff (h : Follows context effects) (hop : step.command.op = .LOAD) :
    step.refused context = true ↔ loadsSinceNew effects ≠ [] ∧ endsInLoad effects = false := by
  rw [Step.refused, h.execute_load hop, hop]
  by_cases hcond : loadsSinceNew effects ≠ [] ∧ endsInLoad effects = false
  · rw [if_pos hcond]
    exact iff_of_true rfl hcond
  · rw [if_neg hcond]
    exact iff_of_false (by simp) hcond

/-- What is printed is forgotten. -/
theorem printResult_fst (h : Follows context effects) (result : Int) :
    ({ context with result := result } : Context).printResult.1 = context := by
  rw [Context.printResult]
  dsimp only
  rw [← h.result]

/-- A command that takes no effect leaves the whole context alone. -/
theorem ignores (h : Follows context effects) (hno : step.tookEffect context = false) :
    (context.execute step.files step.command).1 = context := by
  cases hop : step.command.op with
  | EMPTY =>
    rw [Context.execute, hop]
    exact h.printResult_fst context.result
  | INVALID =>
    rw [Context.execute, hop]
    exact h.printResult_fst (-1)
  | LOAD =>
    have hrefused : step.refused context = true := by
      rw [Step.tookEffect, hop] at hno
      simpa using hno
    rw [h.execute_load hop, if_pos ((h.refused_iff hop).mp hrefused)]
  | _ =>
    rw [Step.tookEffect, Step.refused, hop] at hno
    cases hno

/-- A step of a session. -/
theorem execute (h : Follows context effects) (hend : step.command.op ≠ .END)
    (hread : step.command.op = .LOAD → (step.files step.command.arg1).isSome) :
    Follows (context.execute step.files step.command).1
      (if step.tookEffect context then effects ++ [step] else effects) := by
  by_cases htook : step.tookEffect context = true
  · rw [if_pos htook]
    have hloads := loadsSinceNew_append effects step
    have hends := endsInLoad_append effects step
    cases hop : step.command.op with
    | END => exact absurd hop hend
    | NEW =>
      rw [hop] at hloads hends
      replace hloads : loadsSinceNew (effects ++ [step]) = [] := hloads
      rw [Context.execute, hop]
      refine ⟨?_, rfl, ?_, ?_, ?_⟩
      · rw [loadedAlone, hloads]
        rfl
      · rw [hends]
        exact iff_of_false (by simp [Context.printResult]) Bool.false_ne_true
      · rw [hends]
        exact fun hfalse => absurd hfalse Bool.false_ne_true
      · rw [hloads]
        exact fun _ hmem => absurd hmem List.not_mem_nil
    | LOAD =>
      rw [hop] at hloads hends
      replace hloads : loadsSinceNew (effects ++ [step]) = loadsSinceNew effects ++ [step] := hloads
      have hnot : ¬ (loadsSinceNew effects ≠ [] ∧ endsInLoad effects = false) := by
        rw [← h.refused_iff hop]
        intro hrefused
        rw [Step.tookEffect, hrefused] at htook
        simp at htook
      rw [h.execute_load hop, if_neg hnot]
      refine ⟨?_, h.result, ?_, ?_, ?_⟩
      · rw [loadedAlone, hloads, List.getLast?_concat]
      · rw [hends]
        exact iff_of_true rfl rfl
      · rw [hloads]
        exact fun _ => by simp
      · rw [hloads]
        intro load hmem
        rcases List.mem_append.mp hmem with hmem | hmem
        · exact h.readable load hmem
        · obtain rfl := List.mem_singleton.mp hmem
          exact hread hop
    | LOCATE =>
      rw [hop] at hloads hends
      replace hloads : loadsSinceNew (effects ++ [step]) = loadsSinceNew effects := hloads
      rw [Context.execute, hop]
      refine ⟨?_, rfl, ?_, ?_, ?_⟩
      · rw [loadedAlone, hloads]
        exact h.dictionary
      · rw [hends]
        exact iff_of_false (by simp [Context.printResult]) Bool.false_ne_true
      · rw [hends]
        exact fun hfalse => absurd hfalse Bool.false_ne_true
      · rw [hloads]
        exact h.readable
    | _ =>
      rw [Step.tookEffect, hop] at htook
      cases htook
  · rw [if_neg htook, h.ignores (Bool.eq_false_iff.mpr htook)]
    exact h

theorem unmixed (h : Follows context effects) : Unmixed context effects where
  dictionary := h.dictionary
  answers files word occurrence := by rw [← h.dictionary]; rfl
  loadable := h.loadable
  refuses _ hop := h.refused_iff hop
  ignores _ hno := h.ignores hno

end Follows

/-- In every session the flags follow the history; by induction on the commands. -/
theorem session_follows {steps : List Step} (hend : ∀ step ∈ steps, step.command.op ≠ .END)
    (hread : ∀ step ∈ steps, step.command.op = .LOAD → (step.files step.command.arg1).isSome) :
    Follows (session steps).1 (session steps).2 := by
  induction steps using List.reverseRecOn with
  | nil =>
    refine ⟨rfl, rfl, iff_of_false (by decide) (by decide), fun hfalse => absurd hfalse (by decide), ?_⟩
    exact fun _ hmem => absurd hmem List.not_mem_nil
  | append_singleton steps step ih =>
    have hmem : step ∈ steps ++ [step] := List.mem_append_right _ (List.mem_singleton_self step)
    have hfollows := ih (fun s hs => hend s (List.mem_append_left _ hs)) fun s hs => hread s (List.mem_append_left _ hs)
    rw [session, List.foldl_append]
    exact hfollows.execute (hend step hmem) (hread step hmem)

/-- A session never mixes loads. -/
theorem session_unmixed (steps : List Step) (hend : ∀ step ∈ steps, step.command.op ≠ .END)
    (hread : ∀ step ∈ steps, step.command.op = .LOAD → (step.files step.command.arg1).isSome) :
    Unmixed (session steps).1 (session steps).2 :=
  (session_follows hend hread).unmixed

/-- Every path opens to a text of one word. -/
def oneWord : Files := fun path => some path

theorem session_unmixed_twice :
    Unmixed
      (session [⟨oneWord, ⟨.LOAD, ['a'], 0⟩⟩, ⟨oneWord, ⟨.LOAD, ['b'], 0⟩⟩, ⟨oneWord, ⟨.LOCATE, ['b'], 1⟩⟩,
        ⟨oneWord, ⟨.LOAD, ['c'], 0⟩⟩]).1
      (session [⟨oneWord, ⟨.LOAD, ['a'], 0⟩⟩, ⟨oneWord, ⟨.LOAD, ['b'], 0⟩⟩, ⟨oneWord, ⟨.LOCATE, ['b'], 1⟩⟩,
        ⟨oneWord, ⟨.LOAD, ['c'], 0⟩⟩]).2 :=
  session_unmixed _ (by simp) (by simp [oneWord])

end Cs564.WordLocator
