import Mathlib.Data.List.Forall2

/-!
# Tables as separated text

Rows of fields written one behind the other, with a separator between the fields of a row and an end of line behind each
row.  A field may stand between quotes, with its own quotes doubled, and then hold anything.  `read` is a reader for such
text, and what was written by these rules is read back as it was (`read_table`).
-/

namespace Cs564

/-- The three characters that have a meaning in the text. -/
structure Delimiters (α : Type) where
  sep : α
  quote : α
  eol : α
  sep_ne_quote : sep ≠ quote
  eol_ne_quote : eol ≠ quote
  eol_ne_sep : eol ≠ sep

section Separated

variable {α : Type} [DecidableEq α]

/-- A text between quotes, with its own quotes doubled. -/
def enclose (quote : α) (s : List α) : List α :=
  quote :: s.flatMap (fun c => if c = quote then [quote, quote] else [c]) ++ [quote]

/-- Where a reader stands: in front of a field, in a field without quotes, in one with quotes, or behind a quote that may
close it. -/
inductive Mode | front | plain | quoted | closing
deriving DecidableEq

/-- A reader in some mode, with what it has of the field and of the row.  `none` stands for text that no table has: a
field that is not closed, or that goes on behind its quotes. -/
def readFrom (d : Delimiters α) (mode : Mode) (field : List α) (row : List (List α)) :
    List α → Option (List (List (List α)))
  | [] =>
    match mode with
    | .front => if row = [] then some [] else some [row ++ [field]]
    | .plain => some [row ++ [field]]
    | .quoted => none
    | .closing => some [row ++ [field]]
  | c :: text =>
    if mode = .quoted then
      if c = d.quote then readFrom d .closing field row text else readFrom d .quoted (field ++ [c]) row text
    else if c = d.sep then readFrom d .front [] (row ++ [field]) text
    else if c = d.eol then (readFrom d .front [] [] text).map fun rows => (row ++ [field]) :: rows
    else if c = d.quote ∧ mode = .front then readFrom d .quoted field row text
    else if c = d.quote ∧ mode = .closing then readFrom d .quoted (field ++ [c]) row text
    else if mode = .closing then none
    else readFrom d .plain (field ++ [c]) row text

/-- The rows of a text. -/
def read (d : Delimiters α) (text : List α) : Option (List (List (List α))) := readFrom d .front [] [] text

/-- A way to write a field: as it is, if it has no delimiter that matters, or between quotes. -/
inductive Writes (d : Delimiters α) : List α → List α → Prop
  | plain {s : List α} : (∀ c ∈ s, c ≠ d.sep ∧ c ≠ d.eol ∧ c ≠ d.quote) → Writes d s s
  | quoted (s : List α) : Writes d (enclose d.quote s) s

/-- The fields of a row, with separators between them and the end of the line behind. -/
def line (d : Delimiters α) : List (List α) → List α
  | [] => [d.eol]
  | [cell] => cell ++ [d.eol]
  | cell :: cells => cell ++ d.sep :: line d cells

variable {d : Delimiters α} {mode : Mode} {cell field s rest : List α} {row : List (List α)}

/-- Behind the first quote, up to the last one. -/
theorem readFrom_quoted : readFrom d .quoted field row
    (s.flatMap (fun c => if c = d.quote then [d.quote, d.quote] else [c]) ++ d.quote :: rest) =
      readFrom d .closing (field ++ s) row rest := by
  induction s generalizing field with
  | nil => rw [List.flatMap_nil, List.nil_append, List.append_nil, readFrom, if_pos rfl, if_pos rfl]
  | cons c s ih =>
    have happend : field ++ c :: s = (field ++ [c]) ++ s := by simp
    rw [List.flatMap_cons, happend, ← ih]
    by_cases hc : c = d.quote
    · -- a quote of the field is two quotes in the text
      have hsep : c ≠ d.sep := fun h => d.sep_ne_quote (h ▸ hc)
      have heol : c ≠ d.eol := fun h => d.eol_ne_quote (h ▸ hc)
      rw [if_pos hc, List.cons_append, List.cons_append, readFrom, if_pos rfl, if_pos rfl]
      simp only [List.cons_append, List.nil_append]
      rw [readFrom, if_neg (by decide), ← hc, if_neg hsep, if_neg heol, if_neg (by simp), if_pos ⟨rfl, rfl⟩]
    · rw [if_neg hc, List.cons_append, List.cons_append, readFrom, if_pos rfl, if_neg hc]
      rfl

/-- A run of characters without delimiters. -/
theorem readFrom_plain (h : ∀ c ∈ s, c ≠ d.sep ∧ c ≠ d.eol ∧ c ≠ d.quote) :
    readFrom d .plain field row (s ++ rest) = readFrom d .plain (field ++ s) row rest := by
  induction s generalizing field with
  | nil => rw [List.nil_append, List.append_nil]
  | cons c s ih =>
    obtain ⟨hsep, heol, hquote⟩ := h c (by simp)
    have happend : field ++ c :: s = (field ++ [c]) ++ s := by simp
    rw [happend, ← ih fun c' hc' => h c' (by simp [hc']), List.cons_append, readFrom, if_neg (by decide), if_neg hsep,
      if_neg heol, if_neg (by simp [hquote]), if_neg (by simp [hquote]), if_neg (by decide)]

/-- A field is read up to its end, however it is written. -/
theorem readFrom_cell (h : Writes d cell s) : ∃ mode, mode ≠ .quoted ∧
    ∀ row rest, readFrom d .front [] row (cell ++ rest) = readFrom d mode s row rest := by
  cases h with
  | plain hclean =>
    cases cell with
    | nil => exact ⟨.front, by decide, fun _ _ => rfl⟩
    | cons c s =>
      obtain ⟨hsep, heol, hquote⟩ := hclean c (by simp)
      refine ⟨.plain, by decide, fun row rest => ?_⟩
      rw [List.cons_append, readFrom, if_neg (by decide), if_neg hsep, if_neg heol, if_neg (by simp [hquote]),
        if_neg (by simp [hquote]), if_neg (by decide), readFrom_plain fun c' hc' => hclean c' (by simp [hc'])]
      rfl
  | quoted s =>
    refine ⟨.closing, by decide, fun row rest => ?_⟩
    rw [enclose, List.cons_append, List.cons_append, List.append_assoc, readFrom, if_neg (by decide),
      if_neg (Ne.symm d.sep_ne_quote), if_neg (Ne.symm d.eol_ne_quote), if_pos ⟨rfl, rfl⟩]
    exact readFrom_quoted

theorem readFrom_sep (h : mode ≠ .quoted) :
    readFrom d mode field row (d.sep :: rest) = readFrom d .front [] (row ++ [field]) rest := by
  rw [readFrom, if_neg h, if_pos rfl]

theorem readFrom_eol (h : mode ≠ .quoted) : readFrom d mode field row (d.eol :: rest) =
    (readFrom d .front [] [] rest).map fun rows => (row ++ [field]) :: rows := by
  rw [readFrom, if_neg h, if_neg d.eol_ne_sep, if_pos rfl]

/-- A row is read up to the end of its line. -/
theorem readFrom_line {cells values : List (List α)} (h : List.Forall₂ (Writes d) cells values) (hne : cells ≠ []) :
    readFrom d .front [] row (line d cells ++ rest) =
      (readFrom d .front [] [] rest).map fun rows => (row ++ values) :: rows := by
  induction h generalizing row with
  | nil => exact absurd rfl hne
  | @cons cell value cells values hcell hcells ih =>
    obtain ⟨mode, hmode, hread⟩ := readFrom_cell hcell
    cases hcells with
    | nil =>
      rw [line, List.append_assoc, hread, List.singleton_append, readFrom_eol hmode]
    | cons hnext hrest =>
      -- the separator puts the field into the row, and the reader starts with the next one
      rw [line, List.append_assoc, hread, List.cons_append, readFrom_sep hmode, ih (by simp), List.append_assoc]
      · rfl
      · simp

/-- What was written by the rules is read as it was. -/
theorem read_table {table values : List (List (List α))}
    (h : List.Forall₂ (fun cells row => cells ≠ [] ∧ List.Forall₂ (Writes d) cells row) table values) :
    read d (table.flatMap (line d)) = some values := by
  induction h with
  | nil => rfl
  | @cons cells values table rows hrow htable ih =>
    rw [List.flatMap_cons, read, readFrom_line hrow.2 hrow.1, ← read, ih]
    rfl

/-- Texts between quotes are equal only if the texts are. -/
theorem enclose_injective (quote : α) : Function.Injective (enclose quote) := by
  intro s t h
  have hinner := List.append_cancel_right (List.cons.inj h).2
  clear h
  induction s generalizing t with
  | nil =>
    cases t with
    | nil => rfl
    | cons c t =>
      rw [List.flatMap_nil, List.flatMap_cons] at hinner
      split at hinner <;> cases hinner
  | cons c s ih =>
    cases t with
    | nil =>
      rw [List.flatMap_nil, List.flatMap_cons] at hinner
      split at hinner <;> cases hinner
    | cons c' t =>
      rw [List.flatMap_cons, List.flatMap_cons] at hinner
      by_cases hc : c = quote
      · by_cases hc' : c' = quote
        · rw [if_pos hc, if_pos hc'] at hinner
          rw [hc, hc', ih (List.append_cancel_left hinner)]
        · rw [if_pos hc, if_neg hc'] at hinner
          exact absurd (List.cons.inj hinner).1.symm hc'
      · by_cases hc' : c' = quote
        · rw [if_neg hc, if_pos hc'] at hinner
          exact absurd (List.cons.inj hinner).1 hc
        · rw [if_neg hc, if_neg hc'] at hinner
          obtain ⟨rfl, hrest⟩ := List.cons.inj hinner
          rw [ih hrest]

end Separated

end Cs564
