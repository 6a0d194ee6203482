import Mathlib.Data.List.TakeWhile
import Mathlib.Logic.Function.Basic

/-!
# Regular expressions with captures

Regular expressions as backtracking matchers read them (those of ECMAScript): an alternation prefers its first branch, a
repetition prefers one more round, a round that takes no character fails, and a round forgets what the groups inside it
have captured before.  `run` lists the ways to match from a state, the preferred ones first, and `match?` takes the first
one that reaches the end of the text.

A proof follows the matcher with `first`: the first way that what comes behind accepts.  A repeated character class takes
all it can if what comes behind does not accept a character of the class (`first_star_char_greedy`), and the same holds
for a repeated group of repeated characters (`first_plus_group_greedy`).
-/

namespace Cs564

/-- Regular expressions over an alphabet, with numbered groups. -/
inductive Regex (α : Type)
  | empty
  | start
  | stop
  | char (p : α → Bool)
  | seq (r r' : Regex α)
  | alt (r r' : Regex α)
  | star (r : Regex α)
  | group (i : Nat) (r : Regex α)

namespace Regex

variable {α β : Type}

/-- One or more. -/
def plus (r : Regex α) : Regex α := .seq r (.star r)

/-- What is left behind the first characters that satisfy `p`. -/
theorem drop_length_takeWhile (p : α → Bool) (l : List α) : l.drop (l.takeWhile p).length = l.dropWhile p := by
  calc l.drop (l.takeWhile p).length
      = (l.takeWhile p ++ l.dropWhile p).drop (l.takeWhile p).length := by rw [List.takeWhile_append_dropWhile]
    _ = l.dropWhile p := List.drop_left

/-- What satisfies `p` up to an element that does not. -/
theorem takeWhile_append_stop {p : α → Bool} {l l' : List α} (h : ∀ c ∈ l, p c = true)
    (hstop : ∀ c ∈ l'.head?, p c = false) : (l ++ l').takeWhile p = l := by
  rw [List.takeWhile_append_of_pos h]
  cases l' with
  | nil => simp
  | cons c l' => simp [hstop c rfl]

theorem dropWhile_append_stop {p : α → Bool} {l l' : List α} (h : ∀ c ∈ l, p c = true)
    (hstop : ∀ c ∈ l'.head?, p c = false) : (l ++ l').dropWhile p = l' := by
  rw [← drop_length_takeWhile, takeWhile_append_stop h hstop, List.drop_left]

/-- A matcher inside a text: the characters behind it, those in front of it, and what the groups have captured. -/
structure State (α : Type) where
  index : Nat
  rest : List α
  captures : Nat → Option (List α)

namespace State

/-- The state `n` characters further on. -/
def advance (s : State α) (n : Nat) : State α := { s with index := s.index + n, rest := s.rest.drop n }

/-- The state after a group has captured a text. -/
def capture (s : State α) (i : Nat) (text : List α) : State α :=
  { s with captures := Function.update s.captures i (some text) }

/-- The state after groups have been reset. -/
def forget (s : State α) (groups : List Nat) : State α :=
  { s with captures := fun i => if i ∈ groups then none else s.captures i }

/-- The state behind the next characters that satisfy `p`. -/
def skip (s : State α) (p : α → Bool) : State α := s.advance (s.rest.takeWhile p).length

@[simp] theorem advance_rest (s : State α) (n : Nat) : (s.advance n).rest = s.rest.drop n := rfl

@[simp] theorem advance_index (s : State α) (n : Nat) : (s.advance n).index = s.index + n := rfl

@[simp] theorem advance_captures (s : State α) (n : Nat) : (s.advance n).captures = s.captures := rfl

@[simp] theorem capture_rest (s : State α) (i : Nat) (text : List α) : (s.capture i text).rest = s.rest := rfl

@[simp] theorem capture_index (s : State α) (i : Nat) (text : List α) : (s.capture i text).index = s.index := rfl

@[simp] theorem capture_self (s : State α) (i : Nat) (text : List α) : (s.capture i text).captures i = some text :=
  Function.update_self ..

theorem capture_ne (s : State α) {i j : Nat} (h : j ≠ i) (text : List α) :
    (s.capture i text).captures j = s.captures j := Function.update_of_ne h ..

@[simp] theorem forget_rest (s : State α) (groups : List Nat) : (s.forget groups).rest = s.rest := rfl

@[simp] theorem forget_nil (s : State α) : s.forget [] = s := by
  simp [forget]

@[simp] theorem skip_rest (s : State α) (p : α → Bool) : (s.skip p).rest = s.rest.dropWhile p :=
  drop_length_takeWhile p s.rest

@[simp] theorem skip_index (s : State α) (p : α → Bool) : (s.skip p).index = s.index + (s.rest.takeWhile p).length := rfl

@[simp] theorem skip_captures (s : State α) (p : α → Bool) : (s.skip p).captures = s.captures := rfl

theorem advance_zero (s : State α) : s.advance 0 = s := rfl

theorem advance_advance (s : State α) (m n : Nat) : (s.advance m).advance n = s.advance (m + n) := by
  simp only [advance, List.drop_drop, Nat.add_assoc]

end State

/-- The groups inside an expression. -/
def groups : Regex α → List Nat
  | empty => []
  | start => []
  | stop => []
  | char _ => []
  | seq r r' => r.groups ++ r'.groups
  | alt r r' => r.groups ++ r'.groups
  | star r => r.groups
  | group i r => i :: r.groups

/-- The ways through a repetition of `body`, in at most the given number of rounds. -/
def rounds (groups : List Nat) (body : State α → List (State α)) : Nat → State α → List (State α)
  | 0, s => [s]
  | n + 1, s =>
    ((body (s.forget groups)).filter fun t => t.rest.length < s.rest.length).flatMap (rounds groups body n) ++ [s]

/-- The ways to match, the preferred ones first.  A repetition has no more rounds than characters are left. -/
def run : Regex α → State α → List (State α)
  | empty, s => [s]
  | start, s => if s.index = 0 then [s] else []
  | stop, s => if s.rest.isEmpty then [s] else []
  | char p, s =>
    match s.rest with
    | [] => []
    | c :: _ => if p c then [s.advance 1] else []
  | seq r r', s => (run r s).flatMap (run r')
  | alt r r', s => run r s ++ run r' s
  | star r, s => rounds r.groups (run r) s.rest.length s
  | group i r, s => (run r s).map fun t => t.capture i (s.rest.take (t.index - s.index))

/-- The first way to match that what comes behind accepts, and what it makes of it. -/
def first (r : Regex α) (s : State α) (k : State α → Option β) : Option β := (r.run s).findSome? k

/-- The end of the text is reached. -/
def atEnd (s : State α) : Option (Nat → Option (List α)) := if s.rest.isEmpty then some s.captures else none

/-- A match of the whole text: what the groups have captured in the end, nothing standing for the empty text. -/
def match? (r : Regex α) (text : List α) : Option (Nat → List α) :=
  (r.first ⟨0, text, fun _ => none⟩ atEnd).map fun captures i => (captures i).getD []

section Rules

variable {r r' : Regex α} {s : State α} {k : State α → Option β} {p : α → Bool}

private theorem findSome?_flatMap {γ : Type} (l : List γ) (f : γ → List (State α)) :
    (l.flatMap f).findSome? k = l.findSome? fun a => (f a).findSome? k := by
  induction l with
  | nil => rfl
  | cons a l ih =>
    rw [List.flatMap_cons, List.findSome?_append, ih, List.findSome?_cons]
    cases (f a).findSome? k <;> rfl

/-! ### The ways of one expression -/

theorem run_seq : (seq r r').run s = (r.run s).flatMap r'.run := rfl

theorem run_alt : (alt r r').run s = r.run s ++ r'.run s := rfl

theorem run_star : (star r).run s = rounds r.groups r.run s.rest.length s := rfl

theorem run_group {i : Nat} :
    (group i r).run s = (r.run s).map fun t => t.capture i (s.rest.take (t.index - s.index)) := rfl

theorem run_char : (char p).run s = match s.rest with
    | [] => []
    | c :: _ => if p c then [s.advance 1] else [] := rfl

theorem run_char_nil (h : s.rest = []) : (char p).run s = [] := by
  rw [run_char, h]

theorem run_char_pos {c : α} {rest : List α} (h : s.rest = c :: rest) (hc : p c = true) :
    (char p).run s = [s.advance 1] := by
  rw [run_char, h]
  exact if_pos hc

theorem run_char_neg {c : α} {rest : List α} (h : s.rest = c :: rest) (hc : p c = false) : (char p).run s = [] := by
  rw [run_char, h]
  exact if_neg (by simp [hc])

theorem rounds_zero {groups : List Nat} {body : State α → List (State α)} : rounds groups body 0 s = [s] := rfl

theorem rounds_succ {groups : List Nat} {body : State α → List (State α)} {n : Nat} :
    rounds groups body (n + 1) s =
      ((body (s.forget groups)).filter fun t => t.rest.length < s.rest.length).flatMap (rounds groups body n) ++ [s] :=
  rfl

/-! ### The first way of one expression -/

theorem first_eq : r.first s k = (r.run s).findSome? k := rfl

theorem first_seq : (seq r r').first s k = r.first s fun t => r'.first t k := by
  rw [first_eq, run_seq, findSome?_flatMap]
  rfl

theorem first_alt : (alt r r').first s k = (r.first s k).or (r'.first s k) := by
  rw [first_eq, run_alt, List.findSome?_append]
  rfl

theorem first_group {i : Nat} :
    (group i r).first s k = r.first s fun t => k (t.capture i (s.rest.take (t.index - s.index))) := by
  rw [first_eq, run_group, List.findSome?_map]
  rfl

/-- With no other way, what comes behind decides. -/
theorem first_of_run {t : State α} (h : r.run s = [t]) : r.first s k = k t := by
  rw [first_eq, h, List.findSome?_singleton]

theorem first_of_run_nil (h : r.run s = []) : r.first s k = none := by
  rw [first_eq, h, List.findSome?_nil]

theorem first_empty : empty.first s k = k s := first_of_run rfl

theorem first_start (h : s.index = 0) : start.first s k = k s := first_of_run (if_pos h)

theorem first_stop : stop.first s k = if s.rest.isEmpty then k s else none := by
  by_cases h : s.rest.isEmpty = true
  · have hrun : stop.run s = [s] := if_pos h
    rw [if_pos h, first_of_run hrun]
  · have hrun : stop.run s = [] := if_neg h
    rw [if_neg h, first_of_run_nil hrun]

theorem first_char_nil (h : s.rest = []) : (char p).first s k = none := first_of_run_nil (run_char_nil h)

theorem first_char_pos {c : α} {rest : List α} (h : s.rest = c :: rest) (hc : p c = true) :
    (char p).first s k = k (s.advance 1) := first_of_run (run_char_pos h hc)

theorem first_char_neg {c : α} {rest : List α} (h : s.rest = c :: rest) (hc : p c = false) :
    (char p).first s k = none := first_of_run_nil (run_char_neg h hc)

/-! ### Repeated characters -/

private theorem run_star_char : (star (char p)).run s = rounds [] (run (char p)) s.rest.length s := rfl

theorem first_star_char_pos {c : α} {rest : List α} (h : s.rest = c :: rest) (hc : p c = true) :
    (star (char p)).first s k = ((star (char p)).first (s.advance 1) k).or (k s) := by
  have hrest : (s.advance 1).rest = rest := by simp [h]
  have hround : rounds [] (run (char p)) (rest.length + 1) s =
      rounds [] (run (char p)) rest.length (s.advance 1) ++ [s] := by
    rw [rounds_succ, State.forget_nil, run_char_pos h hc]
    simp [h]
  rw [first_eq, run_star_char, h, List.length_cons, hround, List.findSome?_append, first_eq, run_star_char, hrest,
    List.findSome?_singleton]

theorem first_star_char_stop (h : s.rest.takeWhile p = []) : (star (char p)).first s k = k s := by
  apply first_of_run
  cases hs : s.rest with
  | nil => rw [run_star_char, hs, List.length_nil, rounds_zero]
  | cons c rest =>
    have hc : p c = false := by
      rw [hs] at h
      by_contra hpos
      rw [List.takeWhile_cons_of_pos (by simpa using hpos)] at h
      cases h
    rw [run_star_char, hs, List.length_cons, rounds_succ, State.forget_nil, run_char_neg hs hc]
    rfl

/-- A repeated character class takes all it can, if what comes behind does not accept a character of the class. -/
theorem first_star_char_greedy (hk : ∀ t : State α, ∀ c rest, t.rest = c :: rest → p c = true → k t = none) :
    (star (char p)).first s k = k (s.skip p) := by
  unfold State.skip
  induction hs : s.rest generalizing s with
  | nil =>
    rw [first_star_char_stop (by rw [hs]; rfl)]
    rfl
  | cons c rest ih =>
    by_cases hc : p c = true
    · have hrest : (s.advance 1).rest = rest := by simp [hs]
      rw [first_star_char_pos hs hc, ih hrest, hk s c rest hs hc, Option.or_none, State.advance_advance,
        List.takeWhile_cons_of_pos hc, List.length_cons, Nat.add_comm]
    · rw [first_star_char_stop (by rw [hs]; simp [hc])]
      simp [hc, State.advance_zero]

/-- What comes behind accepts nowhere inside the characters that can be taken. -/
theorem first_star_char_none (hk : ∀ n, n ≤ (s.rest.takeWhile p).length → k (s.advance n) = none) :
    (star (char p)).first s k = none := by
  induction hs : s.rest generalizing s with
  | nil =>
    rw [first_star_char_stop (by rw [hs]; rfl)]
    exact hk 0 (Nat.zero_le _)
  | cons c rest ih =>
    by_cases hc : p c = true
    · have hrest : (s.advance 1).rest = rest := by simp [hs]
      have hlater : (star (char p)).first (s.advance 1) k = none := by
        apply ih _ hrest
        intro n hn
        rw [State.advance_advance]
        apply hk
        rw [hrest] at hn
        rw [hs, List.takeWhile_cons_of_pos hc, List.length_cons]
        omega
      have hself : k s = none := hk 0 (Nat.zero_le _)
      rw [first_star_char_pos hs hc, hlater, hself]
      rfl
    · rw [first_star_char_stop (by rw [hs]; simp [hc])]
      exact hk 0 (Nat.zero_le _)

/-- The longest part that what comes behind accepts is taken. -/
theorem first_star_char_last {n : Nat} {v : β} (hn : n ≤ (s.rest.takeWhile p).length) (hv : k (s.advance n) = some v)
    (hlonger : ∀ m, n < m → m ≤ (s.rest.takeWhile p).length → k (s.advance m) = none) :
    (star (char p)).first s k = some v := by
  induction n generalizing s with
  | zero =>
    rw [State.advance_zero] at hv
    cases hs : s.rest with
    | nil =>
      rw [first_star_char_stop (by rw [hs]; rfl)]
      exact hv
    | cons c rest =>
      by_cases hc : p c = true
      · -- every longer way fails, so the one that takes nothing decides
        have hlater : (star (char p)).first (s.advance 1) k = none := by
          apply first_star_char_none
          intro m hm
          rw [State.advance_advance]
          apply hlonger _ (by omega)
          simp only [State.advance_rest, hs, List.drop_succ_cons, List.drop_zero] at hm
          rw [hs, List.takeWhile_cons_of_pos hc, List.length_cons]
          omega
        rw [first_star_char_pos hs hc, hlater, hv]
        rfl
      · rw [first_star_char_stop (by rw [hs]; simp [hc])]
        exact hv
  | succ n ih =>
    cases hs : s.rest with
    | nil => simp [hs] at hn
    | cons c rest =>
      by_cases hc : p c = true
      · rw [hs, List.takeWhile_cons_of_pos hc, List.length_cons] at hn hlonger
        have hrest : (s.advance 1).rest = rest := by simp [hs]
        have hlater : (star (char p)).first (s.advance 1) k = some v := by
          apply ih
          · rw [hrest]
            omega
          · rw [State.advance_advance, Nat.add_comm]
            exact hv
          · intro m hm hle
            rw [State.advance_advance]
            apply hlonger _ (by omega)
            rw [hrest] at hle
            omega
        rw [first_star_char_pos hs hc, hlater]
        rfl
      · rw [hs] at hn
        simp [hc] at hn

/-- No character of the class is left. -/
theorem first_plus_char_stop (h : s.rest.takeWhile p = []) : (plus (char p)).first s k = none := by
  rw [plus, first_seq]
  cases hs : s.rest with
  | nil => exact first_char_nil hs
  | cons c rest =>
    apply first_char_neg hs
    by_contra hc
    rw [hs, List.takeWhile_cons_of_pos (by simpa using hc)] at h
    cases h

/-- One or more characters of a class, all of them. -/
theorem first_plus_char_greedy (hk : ∀ t : State α, ∀ c rest, t.rest = c :: rest → p c = true → k t = none) :
    (plus (char p)).first s k =
      if s.rest.takeWhile p = [] then none else k (s.skip p) := by
  unfold State.skip
  rw [plus, first_seq]
  cases hs : s.rest with
  | nil => rw [first_char_nil hs, List.takeWhile_nil, if_pos rfl]
  | cons c rest =>
    by_cases hc : p c = true
    · have hrest : (s.advance 1).rest = rest := by simp [hs]
      rw [first_char_pos hs hc, first_star_char_greedy hk, State.skip, hrest, State.advance_advance,
        List.takeWhile_cons_of_pos hc, List.length_cons, if_neg (List.cons_ne_nil _ _), Nat.add_comm]
    · rw [first_char_neg hs (by simpa using hc), if_pos (by simp [hc])]

/-! ### Repeated groups of characters -/

/-- The states inside and right behind the characters of a class. -/
def Within (p : α → Bool) (s t : State α) : Prop :=
  ∃ n, n ≤ (s.rest.takeWhile p).length ∧ t.rest = s.rest.drop n ∧ t.index = s.index + n

private theorem length_takeWhile_drop (p : α → Bool) (l : List α) {n : Nat} (hn : n ≤ (l.takeWhile p).length) :
    ((l.drop n).takeWhile p).length + n = (l.takeWhile p).length := by
  induction n generalizing l with
  | zero => simp
  | succ n ih =>
    cases l with
    | nil => simp at hn
    | cons c l =>
      by_cases hc : p c = true
      · rw [List.takeWhile_cons_of_pos hc, List.length_cons] at hn ⊢
        rw [List.drop_succ_cons, ← ih l (by omega)]
        omega
      · simp [hc] at hn

private theorem Within.trans {t u : State α} (h : Within p s t) (h' : Within p t u) : Within p s u := by
  obtain ⟨m, hm, hrest, hindex⟩ := h
  obtain ⟨n, hn, hrest', hindex'⟩ := h'
  have hlen := length_takeWhile_drop p s.rest hm
  rw [hrest] at hn
  refine ⟨m + n, by omega, ?_, by omega⟩
  rw [hrest', hrest, List.drop_drop]

private theorem within_char {t : State α} (ht : t ∈ (char p).run s) : Within p s t := by
  cases hs : s.rest with
  | nil =>
    rw [run_char_nil hs] at ht
    cases ht
  | cons c rest =>
    by_cases hc : p c = true
    · rw [run_char_pos hs hc, List.mem_singleton] at ht
      refine ⟨1, ?_, by rw [ht]; rfl, by rw [ht]; rfl⟩
      rw [hs, List.takeWhile_cons_of_pos hc, List.length_cons]
      omega
    · rw [run_char_neg hs (by simpa using hc)] at ht
      cases ht

/-- A repeated class stays within its characters. -/
private theorem within_rounds (n : Nat) {t : State α} (ht : t ∈ rounds [] (run (char p)) n s) : Within p s t := by
  induction n generalizing s with
  | zero =>
    obtain rfl := List.mem_singleton.mp ht
    exact ⟨0, Nat.zero_le _, rfl, rfl⟩
  | succ n ih =>
    rw [rounds_succ, State.forget_nil, List.mem_append, List.mem_singleton] at ht
    rcases ht with ht | rfl
    · obtain ⟨u, hu, ht⟩ := List.mem_flatMap.mp ht
      exact (within_char (List.mem_filter.mp hu).1).trans (ih ht)
    · exact ⟨0, Nat.zero_le _, rfl, rfl⟩

private theorem within_plus {t : State α} (ht : t ∈ (plus (char p)).run s) : Within p s t := by
  obtain ⟨u, hu, ht⟩ := List.mem_flatMap.mp ht
  exact (within_char hu).trans (within_rounds _ ht)

private theorem within_star_group (i n : Nat) {t : State α} (ht : t ∈ rounds [i] (run (group i (plus (char p)))) n s) :
    Within p s t := by
  induction n generalizing s with
  | zero =>
    obtain rfl := List.mem_singleton.mp ht
    exact ⟨0, Nat.zero_le _, rfl, rfl⟩
  | succ n ih =>
    rw [rounds_succ, List.mem_append, List.mem_singleton] at ht
    rcases ht with ht | rfl
    · obtain ⟨u, hu, ht⟩ := List.mem_flatMap.mp ht
      obtain ⟨hu, -⟩ := List.mem_filter.mp hu
      obtain ⟨v, hv, rfl⟩ := List.mem_map.mp hu
      obtain ⟨m, hm, hrest, hindex⟩ := within_plus hv
      have hround : Within p s (v.capture i ((s.forget [i]).rest.take (v.index - (s.forget [i]).index))) :=
        ⟨m, hm, hrest, hindex⟩
      exact hround.trans (ih ht)
    · exact ⟨0, Nat.zero_le _, rfl, rfl⟩

/-- No character of the class is left. -/
private theorem run_group_nil {i : Nat} (h : s.rest.takeWhile p = []) : (group i (plus (char p))).run s = [] := by
  cases hs : s.rest with
  | nil => rw [run_group, plus, run_seq, run_char_nil hs, List.flatMap_nil, List.map_nil]
  | cons c rest =>
    by_cases hc : p c = true
    · rw [hs, List.takeWhile_cons_of_pos hc] at h
      cases h
    · rw [run_group, plus, run_seq, run_char_neg hs (by simpa using hc), List.flatMap_nil, List.map_nil]

theorem first_star_stop (h : r.run (s.forget r.groups) = []) : (star r).first s k = k s := by
  apply first_of_run
  rw [run_star]
  cases s.rest.length with
  | zero => rw [rounds_zero]
  | succ n => rw [rounds_succ, h, List.filter_nil, List.flatMap_nil, List.nil_append]

private theorem takeWhile_drop_takeWhile (p : α → Bool) (l : List α) :
    (l.drop (l.takeWhile p).length).takeWhile p = [] := by
  have hlen := length_takeWhile_drop p l (Nat.le_refl _)
  rw [← List.length_eq_zero_iff]
  omega

private theorem take_length_takeWhile (p : α → Bool) (l : List α) : l.take (l.takeWhile p).length = l.takeWhile p :=
  (List.prefix_iff_eq_take.mp (List.takeWhile_prefix p)).symm

/-- Behind the characters of the class there is no round left. -/
private theorem first_star_group_end {i : Nat} {t : State α} (h : t.rest = s.rest.drop (s.rest.takeWhile p).length) :
    (star (group i (plus (char p)))).first t k = k t := by
  apply first_star_stop
  apply run_group_nil
  rw [State.forget_rest, h]
  exact takeWhile_drop_takeWhile p s.rest

/-- What does not accept the end of the characters, whatever has been captured, accepts no state inside them. -/
private theorem none_of_within (hk : ∀ t : State α, ∀ c rest, t.rest = c :: rest → p c = true → k t = none)
    (hcaptures : ∀ t t' : State α, t.rest = t'.rest → t.index = t'.index → k t = none → k t' = none) {t e : State α}
    (hrest : e.rest = s.rest.drop (s.rest.takeWhile p).length) (hindex : e.index = s.index + (s.rest.takeWhile p).length)
    (hnone : k e = none) (ht : Within p s t) : k t = none := by
  obtain ⟨m, hm, htrest, htindex⟩ := ht
  by_cases hend : m = (s.rest.takeWhile p).length
  · exact hcaptures e t (by rw [hrest, htrest, hend]) (by rw [hindex, htindex, hend]) hnone
  · have hleft := length_takeWhile_drop p s.rest hm
    cases hd : s.rest.drop m with
    | nil =>
      rw [hd] at hleft
      simp at hleft
      omega
    | cons d rest =>
      -- a character of the class stands behind `t`
      apply hk t d rest (htrest.trans hd)
      by_contra hneg
      rw [hd, List.takeWhile_cons_of_neg hneg] at hleft
      simp at hleft
      omega

/-- A repeated group of repeated characters takes all of them in its first round, if what comes behind does not accept a
character of the class; `k` looks at the captures only to return them. -/
theorem first_plus_group_greedy {i : Nat}
    (hk : ∀ t : State α, ∀ c rest, t.rest = c :: rest → p c = true → k t = none)
    (hcaptures : ∀ t t' : State α, t.rest = t'.rest → t.index = t'.index → k t = none → k t' = none) :
    (plus (group i (plus (char p)))).first s k =
      if s.rest.takeWhile p = [] then none
      else k ((s.skip p).capture i (s.rest.takeWhile p)) := by
  unfold State.skip
  rw [plus, first_seq, first_group, plus, first_seq]
  cases hs : s.rest with
  | nil => rw [first_char_nil hs, List.takeWhile_nil, if_pos rfl]
  | cons c rest =>
    by_cases hc : p c = true
    · have hlen : ((c :: rest).takeWhile p).length = 1 + (rest.takeWhile p).length := by
        rw [List.takeWhile_cons_of_pos hc, List.length_cons, Nat.add_comm]
      have hrest : (s.advance 1).rest = rest := by simp [hs]
      -- the first round ends behind the last character, and there is no second one
      have hlast : (star (group i (plus (char p)))).first
          (((s.advance 1).advance (rest.takeWhile p).length).capture i
            ((c :: rest).take (((s.advance 1).advance (rest.takeWhile p).length).index - s.index))) k =
          k ((s.advance ((c :: rest).takeWhile p).length).capture i ((c :: rest).takeWhile p)) := by
        have hindex : ((s.advance 1).advance (rest.takeWhile p).length).index - s.index =
            ((c :: rest).takeWhile p).length := by
          simp only [State.advance_index]
          omega
        rw [hindex, take_length_takeWhile, State.advance_advance, ← hlen]
        exact @first_star_group_end _ _ s k p i _ (by rw [State.capture_rest, State.advance_rest, hs])
      rw [first_char_pos hs hc, if_neg (by rw [List.takeWhile_cons_of_pos hc]; simp)]
      cases hv : k ((s.advance ((c :: rest).takeWhile p).length).capture i ((c :: rest).takeWhile p)) with
      | some v =>
        apply first_star_char_last (n := (rest.takeWhile p).length)
        · rw [hrest]
        · exact hlast.trans hv
        · intro m hm hle
          rw [hrest] at hle
          omega
      | none =>
        -- every other way through the rounds ends at the same place or in front of a character of the class
        apply first_star_char_none
        intro n hn
        rw [hrest] at hn
        rw [State.advance_advance, first_eq, List.findSome?_eq_none_iff]
        intro t ht
        have hround : Within p s ((s.advance (1 + n)).capture i
            ((c :: rest).take ((s.advance (1 + n)).index - s.index))) :=
          ⟨1 + n, by rw [hs]; omega, rfl, rfl⟩
        apply none_of_within hk hcaptures _ _ hv (hround.trans (within_star_group i _ ht))
        · rw [State.capture_rest, State.advance_rest, hs]
        · rw [State.capture_index, State.advance_index, hs]
    · rw [first_char_neg hs (by simpa using hc), if_pos (by simp [hc])]

end Rules

end Regex

end Cs564
