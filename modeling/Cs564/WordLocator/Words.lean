import Cs564.Lib.Runs
import Cs564.WordLocator.Dictionary
/-!
# The words of a text

`Dictionary::Parse` appends to its vector the maximal runs of letters, digits and apostrophes of the line, in lower
case (`parse_eq`), and no run crosses the end of a line, so the lines together give the words of the text
(`words_lines`).  The words a text consists of, and the positions at which a word occurs in a sequence, are stated
here without any reference to the code.
-/

namespace Cs564.WordLocator

/-- The lower-cased words of a text. -/
def words (text : List Char) : List (List Char) := (runs isWordChar text).map toLower

/-- `ws` are the maximal runs of word characters of the text, from left to right and in lower case. -/
def AreWords (text : List Char) (ws : List (List Char)) : Prop := ∃ spans : List (Nat × Nat),
  spans.Pairwise (fun a b => a.1 < b.1) ∧ (∀ s n, (s, n) ∈ spans ↔ IsRun isWordChar text s n) ∧
    ws = spans.map fun span => toLower ((text.drop span.1).take span.2)

/-- The positions, from 1 on, at which `w` stands in a sequence of words. -/
def positions (ws : List (List Char)) (w : List Char) : List Nat :=
  ((ws.zipIdx 1).filter fun entry => entry.1 = w).map (·.2)

/-- The position of the `n`-th occurrence of `w`, 0 if there are fewer. -/
def nthPosition (ws : List (List Char)) (w : List Char) (n : Nat) : Nat := (positions ws w).getD (n - 1) 0

/-- The characters a word of the dictionary is made of: lower-case letters, digits and the apostrophe. -/
def IsLowerWordChar (ch : Char) : Prop := ch.isLower ∨ ch.isDigit ∨ ch = Char.ofNat 39

/-! ### One line -/

theorem emitWord_self (line : List Char) (e : Nat) (vec : List (List Char)) : emitWord line e e vec = vec := by
  simp [emitWord]

/-- The word between the indices, if there is one, is the run that ends at `eIndex`. -/
private theorem emitWord_eq {line : List Char} {s e : Nat} (vec : List (List Char)) (hse : s ≤ e)
    (he : e ≤ line.length) (hword : ∀ ch ∈ substr line s (e - s), isWordChar ch = true) :
    emitWord line s e vec = vec ++ (runs isWordChar (substr line s (e - s))).map toLower := by
  unfold emitWord
  by_cases h : s = e
  · simp [h, substr]
  · have hne : substr line s (e - s) ≠ [] := by
      intro hnil
      have hlen := congrArg List.length hnil
      simp only [substr, List.length_take, List.length_drop, List.length_nil] at hlen
      omega
    rw [if_pos h, runs_of_all hword hne, List.map_singleton]

/-- The run up to `e`, and the character there. -/
private theorem drop_eq_run {line : List Char} {s e : Nat} {ch : Char} (hse : s ≤ e) (hch : (line)[e]? = some ch) :
    line.drop s = substr line s (e - s) ++ ch :: line.drop (e + 1) := by
  obtain ⟨he, rfl⟩ := List.getElem?_eq_some_iff.mp hch
  have hsplit := (List.take_append_drop (e - s) (line.drop s)).symm
  rw [List.drop_drop, Nat.add_sub_cancel' hse, List.drop_eq_getElem_cons he] at hsplit
  exact hsplit

private theorem nextValid_none {line : List Char} {i : Nat} (h : nextValid line i = none) :
    ∀ ch ∈ line.drop i, isWordChar ch = false := by
  have hnone : (line.drop i).findIdx? isWordChar = none := by simpa [nextValid] using h
  simpa [List.findIdx?_eq_none_iff] using hnone

private theorem nextValid_some {line : List Char} {i j : Nat} (h : nextValid line i = some j) :
    i ≤ j ∧ j < line.length ∧ ∀ ch ∈ (line.drop i).take (j - i), isWordChar ch = false := by
  obtain ⟨k, hk, rfl⟩ : ∃ k, (line.drop i).findIdx? isWordChar = some k ∧ i + k = j := by
    simpa [nextValid] using h
  obtain ⟨hlt, -, hbefore⟩ := List.findIdx?_eq_some_iff_getElem.mp hk
  rw [List.length_drop] at hlt
  refine ⟨by omega, by omega, ?_⟩
  intro ch hch
  rw [Nat.add_sub_cancel_left] at hch
  obtain ⟨m, hm, rfl⟩ := List.getElem_of_mem hch
  have hmk : m < k := by
    rw [List.length_take] at hm
    omega
  rw [List.getElem_take]
  simpa using hbefore m hmk

/-- The outer loop of `Parse`, with the last word added: the characters from `sIndex` on give their runs. -/
private theorem parseFrom_eq (line : List Char) (fuel s e : Nat) (vec : List (List Char)) (hse : s ≤ e)
    (he : e ≤ line.length) (hword : ∀ ch ∈ substr line s (e - s), isWordChar ch = true)
    (hfuel : line.length - e < fuel) :
    emitWord line (parseFrom line fuel s e vec).1 (parseFrom line fuel s e vec).2.1 (parseFrom line fuel s e vec).2.2 =
      vec ++ words (line.drop s) := by
  induction fuel generalizing s e vec with
  | zero => omega
  | succ fuel ih =>
    rw [parseFrom]
    by_cases hs : s < line.length
    · rw [if_pos hs]
      cases hch : (line)[e]? with
      | none =>
        -- the last word touches the end of the line
        have hlen : e = line.length := by
          rw [List.getElem?_eq_none_iff] at hch
          omega
        have hall : substr line s (e - s) = line.drop s := by
          rw [substr, List.take_of_length_le (by rw [List.length_drop]; omega)]
        rw [emitWord_eq vec hse he hword, hall, words]
      | some ch =>
        have helt : e < line.length := (List.getElem?_eq_some_iff.mp hch).1
        by_cases hw : isWordChar ch = true
        · simp only [hw, if_true]
          apply ih s (e + 1) vec (by omega) (by omega) _ (by omega)
          intro c hc
          have hgrow : substr line s (e + 1 - s) = substr line s (e - s) ++ [ch] := by
            have hidx : (line.drop s)[e - s]? = some ch := by
              rw [List.getElem?_drop, Nat.add_sub_cancel' hse]
              exact hch
            rw [substr, show e + 1 - s = e - s + 1 by omega, List.take_add_one, hidx]
            rfl
          rw [hgrow, List.mem_append, List.mem_singleton] at hc
          rcases hc with hc | rfl
          · exact hword c hc
          · exact hw
        · have hcut : isWordChar ch = false := by simpa using hw
          simp only [hcut, Bool.false_eq_true, if_false]
          have hwords : words (line.drop s) =
              (runs isWordChar (substr line s (e - s))).map toLower ++ words (line.drop (e + 1)) := by
            rw [words, drop_eq_run hse hch, runs_append_cons hcut, List.map_append, words]
          cases hnext : nextValid line (e + 1) with
          | none =>
            have hrest : words (line.drop (e + 1)) = [] := by
              have hnone : runs isWordChar (line.drop (e + 1) ++ []) = runs isWordChar [] :=
                runs_append_of_none (nextValid_none hnext)
              rw [List.append_nil, runs_nil] at hnone
              rw [words, hnone, List.map_nil]
            rw [emitWord_self, emitWord_eq vec hse he hword, hwords, hrest, List.append_nil]
          | some i =>
            obtain ⟨hei, hilt, hskip⟩ := nextValid_some hnext
            have hrest : words (line.drop (e + 1)) = words (line.drop i) := by
              have hsplit := (List.take_append_drop (i - (e + 1)) (line.drop (e + 1))).symm
              rw [List.drop_drop, Nat.add_sub_cancel' hei] at hsplit
              rw [words, hsplit, runs_append_of_none hskip, words]
            rw [ih i i _ (Nat.le_refl i) (Nat.le_of_lt hilt) (by simp [substr]) (by omega),
              emitWord_eq vec hse he hword, hwords, hrest, List.append_assoc]
    · have hes : s = e := by omega
      subst hes
      have hdrop : line.drop s = [] := List.drop_eq_nil_of_le (by omega)
      rw [if_neg hs, emitWord_self, hdrop]
      simp [words]

/-- `Parse` appends the words of the line. -/
theorem parse_eq (line : List Char) (vec : List (List Char)) : parse line vec = vec ++ words line := by
  have hstart := parseFrom_eq line (line.length + 1) 0 0 vec (Nat.le_refl 0) (Nat.zero_le _) (by simp [substr]) (by omega)
  rw [List.drop_zero] at hstart
  exact hstart

/-! ### A text -/

theorem isWordChar_newline : isWordChar '\n' = false := by decide

/-- The characters up to the first newline are the first line. -/
private theorem lines_cons (line rest : List Char) (h : ∀ ch ∈ line, ch ≠ '\n') :
    lines (line ++ '\n' :: rest) = line :: lines rest := by
  induction line with
  | nil => simp [lines]
  | cons ch line ih =>
    have hch : ch ≠ '\n' := h ch (by simp)
    rw [List.cons_append, lines, if_neg hch, ih fun c hc => h c (by simp [hc])]

private theorem lines_last (line : List Char) (h : ∀ ch ∈ line, ch ≠ '\n') (hne : line ≠ []) :
    lines line = [line] := by
  induction line with
  | nil => exact absurd rfl hne
  | cons ch line ih =>
    have hch : ch ≠ '\n' := h ch (by simp)
    rw [lines, if_neg hch]
    cases line with
    | nil => rfl
    | cons c line => rw [ih (fun c hc => h c (by simp [hc])) (by simp)]

/-- No word crosses the end of a line: the words of the lines are the words of the text. -/
theorem words_lines (text : List Char) : (lines text).flatMap words = words text := by
  induction hn : text.length using Nat.strongRecOn generalizing text with
  | ind n ih =>
    by_cases hnl : '\n' ∈ text
    · obtain ⟨line, rest, rfl, hline⟩ := List.eq_append_cons_of_mem hnl
      have hshort : rest.length < n := by
        rw [List.length_append, List.length_cons] at hn
        omega
      rw [lines_cons line rest (fun ch hch => ne_of_mem_of_not_mem hch hline), List.flatMap_cons,
        ih rest.length hshort rest rfl, words, words, words, runs_append_cons isWordChar_newline, List.map_append]
    · by_cases hne : text = []
      · subst hne
        simp [lines, words]
      · rw [lines_last text (fun ch hch => ne_of_mem_of_not_mem hch hnl) hne]
        simp

theorem areWords_words (text : List Char) : AreWords text (words text) := by
  obtain ⟨spans, hsorted, hmem, hruns⟩ := runs_spans isWordChar text
  refine ⟨spans, hsorted, hmem, ?_⟩
  rw [words, hruns, List.map_map]
  rfl

/-- `Parse` appends the maximal runs of word characters of its line, and the lines of a text together give the runs of
the text. -/
theorem parse_runs (line text : List Char) (vec : List (List Char)) :
    (∃ ws, parse line vec = vec ++ ws ∧ AreWords line ws) ∧
      AreWords text ((lines text).flatMap fun line => parse line []) := by
  refine ⟨⟨words line, parse_eq line vec, areWords_words line⟩, ?_⟩
  have hlines : (lines text).flatMap (fun line => parse line []) = (lines text).flatMap words := by
    congr 1
    funext line
    rw [parse_eq, List.nil_append]
  rw [hlines, words_lines]
  exact areWords_words text

end Cs564.WordLocator
