import Cs564.Auction.Parser
import Cs564.Lib.Checked
import Cs564.Lib.Positional
import Mathlib.Data.Char
import Mathlib.Data.List.Lex

/-!
# The dates of the auction loader

`transformDttm` turns `Mon-DD-YY HH:MM:SS` into `YYYY-MM-DD HH:MM:SS`, so that the texts in the database sort
chronologically.  They do: the texts that it makes of two points in time of the years 2000 to 2099 compare like the
seconds that have passed (`transformDttm_chronological`).
-/

namespace Cs564.Auction

/-- A year of the Gregorian calendar with a 29th of February. -/
def isLeap (year : Nat) : Bool := year % 4 == 0 && (year % 100 != 0 || year % 400 == 0)

/-- The days of a month, the months counted from 0. -/
def daysInMonth (year month : Nat) : Nat :=
  if month = 1 then (if isLeap year then 29 else 28) else if [3, 5, 8, 10].contains month then 30 else 31

def daysInYear (year : Nat) : Nat := unitsBefore (daysInMonth year) 12

/-- A second of the years 2000 to 2099; months and days are counted from 0. -/
structure Stamp where
  year : Nat
  month : Nat
  day : Nat
  hour : Nat
  minute : Nat
  second : Nat
  year_lt : year < 100
  month_lt : month < 12
  day_lt : day < daysInMonth (2000 + year) month
  hour_lt : hour < 24
  minute_lt : minute < 60
  second_lt : second < 60

namespace Stamp

/-- The days since the beginning of 2000. -/
def days (t : Stamp) : Nat :=
  unitsBefore (fun year => daysInYear (2000 + year)) t.year + (unitsBefore (daysInMonth (2000 + t.year)) t.month + t.day)

/-- The seconds since the beginning of 2000. -/
def seconds (t : Stamp) : Nat := 86400 * t.days + 3600 * t.hour + 60 * t.minute + t.second

/-- A number in two digits. -/
def two (n : Nat) : List Char := [(n / 10).digitChar, (n % 10).digitChar]

def monthName (month : Nat) : List Char := (MONTHS[month]?.map (·.1)).getD []

def dateText (t : Stamp) : List Char := monthName t.month ++ '-' :: (two (t.day + 1) ++ '-' :: two t.year)

def timeText (t : Stamp) : List Char := two t.hour ++ ':' :: (two t.minute ++ ':' :: two t.second)

/-- `Mon-DD-YY HH:MM:SS`. -/
def text (t : Stamp) : List Char := t.dateText ++ ' ' :: t.timeText

/-- `YYYY-MM-DD HH:MM:SS`. -/
def sortable (t : Stamp) : List Char :=
  ['2', '0'] ++ two t.year ++ ['-'] ++ two (t.month + 1) ++ ['-'] ++ two (t.day + 1) ++ [' '] ++ t.timeText

/-! ### The transformation -/

section Transformation

variable {s s' : List Char} {t t' : Stamp} {m n : Nat}

theorem digitChar_ne (hn : n < 10) {c : Char} (hc : c.isDigit = false) : n.digitChar ≠ c := by
  rintro rfl
  rw [Nat.isDigit_digitChar, decide_eq_false_iff_not] at hc
  exact hc hn

theorem notMem_two (hn : n < 100) {c : Char} (hc : c.isDigit = false) : c ∉ two n := by
  rw [two, List.mem_pair, not_or]
  exact ⟨(digitChar_ne (by omega) hc).symm, (digitChar_ne (by omega) hc).symm⟩

theorem monthName_clean : ∀ month < 12, ' ' ∉ monthName month ∧ '-' ∉ monthName month ∧
    transformMonth (monthName month) = two (month + 1) := by
  decide

theorem splitOn_append {sep : Char} {field rest : List Char} (h : sep ∉ field) :
    (field ++ sep :: rest).splitOn sep = field :: rest.splitOn sep := by
  rw [List.splitOn, List.splitOnP_append_cons (p := fun c => c == sep) _ _ (beq_self_eq_true sep), List.splitOnP_eq_singleton]
  · rfl
  · intro c hc
    rw [beq_eq_false_iff_ne]
    rintro rfl
    exact h hc

theorem splitOn_self {sep : Char} {field : List Char} (h : sep ∉ field) : field.splitOn sep = [field] := by
  rw [List.splitOn, List.splitOnP_eq_singleton]
  intro c hc
  rw [beq_eq_false_iff_ne]
  rintro rfl
  exact h hc

theorem day_lt_31 (t : Stamp) : t.day < 31 := by
  have hday := t.day_lt
  unfold daysInMonth at hday
  split at hday
  · split at hday <;> omega
  · split at hday <;> omega

/-- The date and the time of a text that is a point in time. -/
theorem transformDttm_text (h : strip s = t.text) : transformDttm (.str s) = .ok (.str t.sortable) := by
  obtain ⟨hspace, hdash, hmonth⟩ := monthName_clean t.month t.month_lt
  have hday := t.day_lt_31
  have hyear := t.year_lt
  have hdate : ' ' ∉ t.dateText := by
    rw [dateText, List.mem_append, List.mem_cons, List.mem_append, List.mem_cons]
    simp [hspace, notMem_two (show t.day + 1 < 100 by omega) (show ' '.isDigit = false by decide),
      notMem_two hyear (show ' '.isDigit = false by decide)]
  have htime : ' ' ∉ t.timeText := by
    rw [timeText, List.mem_append, List.mem_cons, List.mem_append, List.mem_cons]
    have hhour := t.hour_lt
    have hminute := t.minute_lt
    have hsecond := t.second_lt
    simp [notMem_two (show t.hour < 100 by omega) (show ' '.isDigit = false by decide),
      notMem_two (show t.minute < 100 by omega) (show ' '.isDigit = false by decide),
      notMem_two (show t.second < 100 by omega) (show ' '.isDigit = false by decide)]
  have hfields : t.text.splitOn ' ' = [t.dateText, t.timeText] := by
    rw [text, splitOn_append hdate, splitOn_self htime]
  have hparts : t.dateText.splitOn '-' = [monthName t.month, two (t.day + 1), two t.year] := by
    rw [dateText, splitOn_append hdash, splitOn_append (notMem_two (by omega) (by decide)),
      splitOn_self (notMem_two hyear (by decide))]
  rw [transformDttm, h, hfields]
  simp only [cell, List.getElem?_cons_zero, List.getElem?_cons_succ, ok_bind, hparts, hmonth]
  rfl

/-! ### The order -/

theorem digitChar_lt_iff : ∀ m < 10, ∀ n < 10, (m.digitChar < n.digitChar ↔ m < n) ∧ (m.digitChar = n.digitChar ↔ m = n) := by
  decide

theorem two_eq_iff (hm : m < 100) (hn : n < 100) : two m = two n ↔ m = n := by
  have htens := (digitChar_lt_iff (m / 10) (by omega) (n / 10) (by omega)).2
  have hones := (digitChar_lt_iff (m % 10) (by omega) (n % 10) (by omega)).2
  simp only [two, List.cons.injEq, and_true, htens, hones]
  omega

/-- Numbers in two digits compare like texts. -/
theorem two_lt_iff (hm : m < 100) (hn : n < 100) : two m < two n ↔ m < n := by
  obtain ⟨htens, htens'⟩ := digitChar_lt_iff (m / 10) (by omega) (n / 10) (by omega)
  obtain ⟨hones, -⟩ := digitChar_lt_iff (m % 10) (by omega) (n % 10) (by omega)
  simp only [two, List.cons_lt_cons_iff, htens, htens', hones, List.not_lt_nil, and_false, or_false]
  omega

/-- Numbers in two digits, with more behind them. -/
theorem two_append_lt_iff (hm : m < 100) (hn : n < 100) :
    two m ++ s < two n ++ s' ↔ m < n ∨ m = n ∧ s < s' := by
  have hlen : (two m).length = (two n).length := rfl
  rw [append_lt_append_iff hlen, two_lt_iff hm hn, two_eq_iff hm hn]

theorem cons_lt_iff (c : Char) : c :: s < c :: s' ↔ s < s' := by
  rw [List.cons_lt_cons_iff]
  simp

theorem sortable_eq (t : Stamp) : t.sortable = '2' :: '0' :: (two t.year ++ '-' :: (two (t.month + 1) ++ '-' ::
    (two (t.day + 1) ++ ' ' :: (two t.hour ++ ':' :: (two t.minute ++ ':' :: two t.second))))) := by
  simp only [sortable, timeText, List.append_assoc, List.cons_append, List.nil_append]

/-- The texts compare field by field. -/
theorem sortable_lt_iff (t t' : Stamp) : t.sortable < t'.sortable ↔
    t.year < t'.year ∨ t.year = t'.year ∧ (t.month < t'.month ∨ t.month = t'.month ∧ (t.day < t'.day ∨ t.day = t'.day ∧
      (t.hour < t'.hour ∨ t.hour = t'.hour ∧ (t.minute < t'.minute ∨ t.minute = t'.minute ∧ t.second < t'.second)))) := by
  obtain ⟨hyear, hmonth, hday⟩ := (⟨t.year_lt, t.month_lt, t.day_lt_31⟩ : t.year < 100 ∧ t.month < 12 ∧ t.day < 31)
  obtain ⟨hyear', hmonth', hday'⟩ := (⟨t'.year_lt, t'.month_lt, t'.day_lt_31⟩ : t'.year < 100 ∧ t'.month < 12 ∧ t'.day < 31)
  obtain ⟨hhour, hminute, hsecond⟩ :=
    (⟨t.hour_lt, t.minute_lt, t.second_lt⟩ : t.hour < 24 ∧ t.minute < 60 ∧ t.second < 60)
  obtain ⟨hhour', hminute', hsecond'⟩ :=
    (⟨t'.hour_lt, t'.minute_lt, t'.second_lt⟩ : t'.hour < 24 ∧ t'.minute < 60 ∧ t'.second < 60)
  rw [sortable_eq, sortable_eq, cons_lt_iff, cons_lt_iff, two_append_lt_iff hyear hyear', cons_lt_iff,
    two_append_lt_iff (by omega) (by omega), cons_lt_iff, two_append_lt_iff (by omega) (by omega), cons_lt_iff,
    two_append_lt_iff (by omega) (by omega), cons_lt_iff, two_append_lt_iff (by omega) (by omega), cons_lt_iff,
    two_lt_iff (by omega) (by omega), Nat.add_lt_add_iff_right, Nat.add_lt_add_iff_right, Nat.add_right_cancel_iff,
    Nat.add_right_cancel_iff]

/-- A day comes before another in the count of days if its year, its month or itself does. -/
theorem days_lt_iff (t t' : Stamp) : t.days < t'.days ↔
    t.year < t'.year ∨ t.year = t'.year ∧ (t.month < t'.month ∨ t.month = t'.month ∧ t.day < t'.day) := by
  have hin := position_lt t.day_lt t.month_lt
  have hin' := position_lt t'.day_lt t'.month_lt
  rw [days, days, position_lt_iff (fun year => daysInYear (2000 + year)) hin hin']
  refine or_congr_right (and_congr_right fun hyear => ?_)
  have hday' := t'.day_lt
  rw [← hyear] at hday' ⊢
  exact position_lt_iff _ t.day_lt hday'

theorem seconds_lt_iff (t t' : Stamp) : t.seconds < t'.seconds ↔ t.sortable < t'.sortable := by
  have hdays := days_lt_iff t t'
  have hdays' := days_lt_iff t' t
  have hhour := t.hour_lt
  have hminute := t.minute_lt
  have hsecond := t.second_lt
  have hhour' := t'.hour_lt
  have hminute' := t'.minute_lt
  have hsecond' := t'.second_lt
  rw [sortable_lt_iff, seconds, seconds]
  omega

end Transformation

end Stamp

/-- The texts that the loader makes of two points in time are ordered like the points in time themselves. -/
theorem transformDttm_chronological (t t' : Stamp) (s s' : List Char) (h : strip s = t.text) (h' : strip s' = t'.text) :
    ∃ d d', transformDttm (.str s) = .ok (.str d) ∧ transformDttm (.str s') = .ok (.str d') ∧
      (d < d' ↔ t.seconds < t'.seconds) ∧ (d = d' ↔ t.seconds = t'.seconds) := by
  have hlt := Stamp.seconds_lt_iff t t'
  have hgt := Stamp.seconds_lt_iff t' t
  refine ⟨t.sortable, t'.sortable, Stamp.transformDttm_text h, Stamp.transformDttm_text h', hlt.symm, ?_⟩
  rw [← not_iff_not, ← Ne, ← Ne, lt_or_lt_iff_ne.symm, ← hlt, ← hgt, lt_or_lt_iff_ne]

def lastOfMarch : Stamp where
  year := 2
  month := 2
  day := 30
  hour := 23
  minute := 59
  second := 59
  year_lt := by decide
  month_lt := by decide
  day_lt := by decide
  hour_lt := by decide
  minute_lt := by decide
  second_lt := by decide

def firstOfApril : Stamp where
  year := 2
  month := 3
  day := 0
  hour := 0
  minute := 0
  second := 0
  year_lt := by decide
  month_lt := by decide
  day_lt := by decide
  hour_lt := by decide
  minute_lt := by decide
  second_lt := by decide

theorem transformDttm_chronological_april :
    ∃ d d', transformDttm (.str "Mar-31-02 23:59:59".toList) = .ok (.str d) ∧
      transformDttm (.str " Apr-01-02 00:00:00".toList) = .ok (.str d') ∧
      (d < d' ↔ lastOfMarch.seconds < firstOfApril.seconds) ∧ (d = d' ↔ lastOfMarch.seconds = firstOfApril.seconds) :=
  transformDttm_chronological lastOfMarch firstOfApril _ _ (by decide) (by decide)

end Cs564.Auction
