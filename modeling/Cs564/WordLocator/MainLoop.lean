import Cs564.Lib.DoWhile
import Cs564.WordLocator.Command

/-!
# The main loop

`main` receives and executes one command after the other until the context is destroyed.  Only the command `end`
destroys it: where the input is exhausted `std::getline` leaves an empty line, which is the command `EMPTY`, and the loop
goes on.  So a session ends exactly if one of its lines is the command `end` (`main_ends`).
-/

namespace Cs564.WordLocator

/-- The variables of `main`, the lines left in the standard input, and the rounds made. -/
structure MainState where
  context : Context
  command : Command
  stdin : List (List Char)
  rounds : Nat

namespace MainState

/-- In front of the loop. -/
def start (lines : List (List Char)) : MainState :=
  { context := .fresh, command := .fresh, stdin := lines, rounds := 0 }

/-- One round, with the files as they are then; the line stays empty where the input is exhausted. -/
def round (world : Nat → Files) (state : MainState) : MainState :=
  let files := world state.rounds
  let command := state.command.receive files (state.stdin.headD [])
  { context := (state.context.execute files command).1, command := command, stdin := state.stdin.tail,
    rounds := state.rounds + 1 }

/-- `!context.Destroyed()`. -/
def again (state : MainState) : Bool := !state.context.destroyed

end MainState

/-- `main` in at most the given number of rounds. -/
def main (world : Nat → Files) (lines : List (List Char)) (fuel : Nat) : Option (Nat × MainState) :=
  doWhile (MainState.round world) MainState.again fuel (.start lines)

/-- The line is the command `end`. -/
def isEnd (line : List Char) : Bool := Command.parse line [] == [['e', 'n', 'd']]

/-! ### What a round changes -/

section Rounds

variable {world : Nat → Files} {lines : List (List Char)}

/-- A context is destroyed by `END` only, and for good. -/
theorem execute_destroyed (context : Context) (files : Files) (command : Command) :
    (context.execute files command).1.destroyed = (context.destroyed || command.op == .END) := by
  rw [Context.execute]
  cases command.op with
  | END => simp [Context.printResult]
  | LOAD =>
    -- with or without a new dictionary, with or without a load
    dsimp only
    split <;> split <;> simp [Context.printResult]
  | _ => simp [Context.printResult]

theorem receive_end (command : Command) (files : Files) (line : List Char) :
    (command.receive files line).op = .END ↔ isEnd line = true := by
  rw [isEnd, beq_iff_eq, Command.receive]
  rcases Command.parse line [] with _ | ⟨op, _ | ⟨path, _ | ⟨occurrence, _ | ⟨more, ops⟩⟩⟩⟩
  · simp
  · by_cases hnew : op = ['n', 'e', 'w']
    · simp [hnew]
    · by_cases hend : op = ['e', 'n', 'd']
      · simp [hend]
      · simp [hnew, hend]
  · dsimp only
    split <;> simp
  · simp
  · simp

/-- An exhausted input reads as an empty line, which does not end the session. -/
theorem isEnd_nil : isEnd [] = false := rfl

theorem round_destroyed (state : MainState) : (state.round world).context.destroyed =
    (state.context.destroyed || isEnd (state.stdin.headD [])) := by
  rw [MainState.round]
  dsimp only
  rw [execute_destroyed]
  congr 1
  rw [Bool.eq_iff_iff, beq_iff_eq]
  exact receive_end ..

/-- After `n` rounds: the lines that are left, and whether one of the others was an end. -/
theorem rounds_state (n : Nat) : ((MainState.round world)^[n] (.start lines)).stdin = lines.drop n ∧
    ((MainState.round world)^[n] (.start lines)).context.destroyed = (lines.take n).any isEnd := by
  induction n with
  | zero => exact ⟨rfl, rfl⟩
  | succ n ih =>
    obtain ⟨hstdin, hdestroyed⟩ := ih
    rw [Function.iterate_succ_apply', round_destroyed, hdestroyed, hstdin]
    constructor
    · rw [← List.tail_drop, ← hstdin]
      rfl
    · cases hdrop : lines.drop n with
      | nil =>
        -- the input is exhausted, and this round reads an empty line
        have hall : lines.length ≤ n := List.drop_eq_nil_iff.mp hdrop
        rw [List.take_of_length_le hall, List.take_of_length_le (by omega), List.headD_nil, isEnd_nil, Bool.or_false]
      | cons line rest =>
        have hget : lines[n]? = some line := by
          rw [← List.head?_drop, hdrop]
          rfl
        rw [List.take_add_one, List.any_append, hget]
        simp

/-- The first `m` lines have an end among them. -/
theorem any_take_iff (m : Nat) :
    (lines.take m).any isEnd = true ↔ lines.findIdx isEnd < lines.length ∧ lines.findIdx isEnd < m := by
  rw [List.any_eq_true, ← List.findIdx_lt_length, List.findIdx_take, List.length_take]
  omega

/-- The round behind which the loop stops. -/
theorem stopsAfter_iff {n : Nat} :
    StopsAfter (MainState.round world) MainState.again (.start lines) n ↔
      (∃ line ∈ lines, isEnd line = true) ∧ n = lines.findIdx isEnd + 1 := by
  have hagain : ∀ m, MainState.again ((MainState.round world)^[m] (.start lines)) = !(lines.take m).any isEnd :=
    fun m => congrArg not (rounds_state m).2
  have hstop : ∀ m, MainState.again ((MainState.round world)^[m] (.start lines)) = false ↔
      lines.findIdx isEnd < lines.length ∧ lines.findIdx isEnd < m := by
    intro m
    rw [hagain, Bool.not_eq_false', any_take_iff]
  have hgo : ∀ m, MainState.again ((MainState.round world)^[m] (.start lines)) = true ↔
      ¬ (lines.findIdx isEnd < lines.length ∧ lines.findIdx isEnd < m) := by
    intro m
    rw [← hstop, Bool.not_eq_false]
  rw [StopsAfter, ← List.findIdx_lt_length]
  simp only [hstop, hgo]
  constructor
  · rintro ⟨-, ⟨hlen, hlt⟩, hbefore⟩
    refine ⟨hlen, ?_⟩
    by_contra hne
    exact hbefore (lines.findIdx isEnd + 1) (by omega) (by omega) ⟨hlen, by omega⟩
  · rintro ⟨hlen, rfl⟩
    exact ⟨by omega, ⟨hlen, by omega⟩, fun m _ hlt => by omega⟩

/-- A session ends exactly if one of its lines is the command `end`, and then right behind the first of them. -/
theorem main_ends (world : Nat → Files) (lines : List (List Char)) :
    ((∃ fuel, (main world lines fuel).isSome) ↔ ∃ line ∈ lines, isEnd line = true) ∧
    ∀ fuel rounds state, main world lines fuel = some (rounds, state) → rounds = lines.findIdx isEnd + 1 := by
  constructor
  · constructor
    · rintro ⟨fuel, hsome⟩
      obtain ⟨⟨rounds, state⟩, hmain⟩ := Option.isSome_iff_exists.mp hsome
      exact (stopsAfter_iff.mp (doWhile_sound hmain).1).1
    · intro hend
      have hstops := (@stopsAfter_iff world lines _).mpr ⟨hend, rfl⟩
      exact ⟨_, Option.isSome_iff_exists.mpr ⟨_, doWhile_complete hstops⟩⟩
  · intro fuel rounds state hmain
    exact (stopsAfter_iff.mp (doWhile_sound hmain).1).2

theorem main_new : ¬ ∀ (world : Nat → Files) (lines : List (List Char)), ∃ fuel, (main world lines fuel).isSome := by
  intro h
  obtain ⟨fuel, hsome⟩ := h (fun _ _ => none) ["new".toList]
  obtain ⟨⟨rounds, state⟩, hmain⟩ := Option.isSome_iff_exists.mp hsome
  obtain ⟨⟨line, hline, hend⟩, -⟩ := stopsAfter_iff.mp (doWhile_sound hmain).1
  obtain rfl := List.mem_singleton.mp hline
  exact absurd hend (by decide)

end Rounds

end Cs564.WordLocator
