import Cs564.WordLocator.Occurrence
import Mathlib.Data.List.Nodup
import Mathlib.Data.List.Perm.Subperm

/-!
# Every position is an answer

Late splits give some words the wrong positions, but no position is lost and none is given twice: in every text each
position is the answer for exactly one word and number (`locate_once`).
-/

namespace Cs564.WordLocator

section Insert

variable {ws : List (List Char)} {path path' : List Char} {p : Nat}

/-- A position stands at one place only. -/
theorem insertWords_unique (hne : ∀ w ∈ ws, w ≠ []) (hlen : ws.length < 2 ^ 32)
    (hp : p ∈ (place (insertWords ws).1 path).counts) (hp' : p ∈ (place (insertWords ws).1 path').counts) :
    path = path' := by
  induction ws using List.reverseRecOn generalizing path path' with
  | nil =>
    rw [insertWords, List.foldl_nil, counts_new] at hp
    exact absurd hp List.not_mem_nil
  | append_singleton ws w ih =>
    rw [List.length_append, List.length_singleton] at hlen
    have hne' : ∀ x ∈ ws, x ≠ [] := fun x hx => hne x (List.mem_append_left _ hx)
    obtain ⟨d, forks, hlands, -⟩ := insert_lands (insertWords ws).1 (hne w (by simp)) (ws.length + 1)
    -- it is an old position, or the one of the new word
    have hcases : ∀ {x}, p ∈ (place (insertWords (ws ++ [w])).1 x).counts →
        (p ∈ (place (insertWords ws).1 x).counts ∧ p ≤ ws.length) ∨ x = d ∧ p = ws.length + 1 := by
      intro x hx
      rw [insertWords_step hlen, hlands, landed_counts] at hx
      rcases List.mem_append.mp hx with hx | hx
      · exact .inl ⟨hx, insertWords_counts_le hne' (by omega) x p hx⟩
      · by_cases hd : x = d
        · rw [if_pos hd, List.mem_singleton] at hx
          exact .inr ⟨hd, hx⟩
        · rw [if_neg hd] at hx
          exact absurd hx List.not_mem_nil
    rcases hcases hp with ⟨hold, hle⟩ | ⟨rfl, rfl⟩
    · rcases hcases hp' with ⟨hold', -⟩ | ⟨-, rfl⟩
      · exact ih hne' (by omega) hold hold'
      · omega
    · rcases hcases hp' with ⟨-, hle⟩ | ⟨rfl, -⟩
      · omega
      · rfl

/-- Every position stands somewhere. -/
theorem exists_place (hne : ∀ w ∈ ws, w ≠ []) (hlen : ws.length < 2 ^ 32) (hpos : 1 ≤ p) (hle : p ≤ ws.length) :
    ∃ path, p ∈ (place (insertWords ws).1 path).counts := by
  induction ws using List.reverseRecOn with
  | nil =>
    rw [List.length_nil] at hle
    omega
  | append_singleton ws w ih =>
    rw [List.length_append, List.length_singleton] at hlen hle
    have hne' : ∀ x ∈ ws, x ≠ [] := fun x hx => hne x (List.mem_append_left _ hx)
    obtain ⟨d, forks, hlands, -⟩ := insert_lands (insertWords ws).1 (hne w (by simp)) (ws.length + 1)
    have hcounts : ∀ x, (place (insertWords (ws ++ [w])).1 x).counts =
        (place (insertWords ws).1 x).counts ++ if x = d then [ws.length + 1] else [] := by
      intro x
      rw [insertWords_step hlen, hlands, landed_counts]
    by_cases hold : p ≤ ws.length
    · obtain ⟨path, hpath⟩ := ih hne' (by omega) hold
      refine ⟨path, ?_⟩
      rw [hcounts]
      exact List.mem_append_left _ hpath
    · refine ⟨d, ?_⟩
      rw [hcounts, if_pos rfl, List.mem_append, List.mem_singleton]
      omega

/-- No word has more positions than there are words. -/
theorem length_counts_le (hne : ∀ w ∈ ws, w ≠ []) (hlen : ws.length < 2 ^ 32) (path : List Char) :
    (place (insertWords ws).1 path).counts.length ≤ ws.length := by
  obtain ⟨hincr, hpos⟩ := insertWords_ordered hne hlen path
  have hsub : (place (insertWords ws).1 path).counts ⊆ List.range' 1 ws.length := by
    intro p hp
    have hle := insertWords_counts_le hne hlen path p hp
    have hge := hpos p hp
    rw [List.mem_range'_1]
    omega
  have hnodup : (place (insertWords ws).1 path).counts.Nodup := hincr.imp Nat.ne_of_lt
  have hlength := (hnodup.subperm hsub).length_le
  rwa [List.length_range'] at hlength

end Insert

/-- In every text, each position is the answer for exactly one word and number; no other number but 0 is an answer; and
the answers for one word increase. -/
theorem locate_once (dictionary : Dictionary) (text : List Char) (hlen : (words text).length < 2 ^ 32) :
    (∀ p, 1 ≤ p → p ≤ (words text).length → ∃ w n, (1 ≤ n ∧ n < 2 ^ 32) ∧
        (dictionary.new.load (some text)).locate w n = p ∧ ∀ w' n', 1 ≤ n' → n' < 2 ^ 32 →
          (dictionary.new.load (some text)).locate w' n' = p → w' = w ∧ n' = n) ∧
    (∀ w n, 1 ≤ n → n < 2 ^ 32 → (dictionary.new.load (some text)).locate w n ≤ (words text).length) ∧
    ∀ w m n, 1 ≤ m → m < n → n < 2 ^ 32 → (dictionary.new.load (some text)).locate w n ≠ 0 →
      1 ≤ (dictionary.new.load (some text)).locate w m ∧
      (dictionary.new.load (some text)).locate w m < (dictionary.new.load (some text)).locate w n := by
  have hne : ∀ w ∈ words text, w ≠ [] := fun w hw => (mem_words hw).1
  have hlocate : ∀ w n, 1 ≤ n → n < 2 ^ 32 → (dictionary.new.load (some text)).locate w n =
      (place (insertWords (words text)).1 w).counts.getD (n - 1) 0 := by
    intro w n hn hmax
    rw [Dictionary.locate, load_eq, search_eq _ _ hn hmax]
  have hordered := fun w => insertWords_ordered hne hlen w
  have hget : ∀ {w : List Char} {k : Nat}, (place (insertWords (words text)).1 w).counts.getD k 0 ≠ 0 →
      ∃ h : k < (place (insertWords (words text)).1 w).counts.length,
        (place (insertWords (words text)).1 w).counts.getD k 0 = (place (insertWords (words text)).1 w).counts[k] := by
    intro w k hzero
    have hlt : k < (place (insertWords (words text)).1 w).counts.length := by
      by_contra hge
      exact hzero (List.getD_eq_default _ _ (Nat.not_lt.mp hge))
    exact ⟨hlt, List.getD_eq_getElem _ _ hlt⟩
  refine ⟨fun p hpos hle => ?_, fun w n hn hmax => ?_, fun w m n hm hmn hmax hzero => ?_⟩
  · obtain ⟨w, hw⟩ := exists_place hne hlen hpos hle
    obtain ⟨k, hk, rfl⟩ := List.getElem_of_mem hw
    have hlength := length_counts_le hne hlen w
    refine ⟨w, k + 1, ⟨Nat.le_add_left 1 k, by omega⟩, ?_, fun w' n' hn' hmax' hsame => ?_⟩
    · rw [hlocate w (k + 1) (Nat.le_add_left 1 k) (by omega), Nat.add_sub_cancel, List.getD_eq_getElem _ _ hk]
    · rw [hlocate w' n' hn' hmax'] at hsame
      obtain ⟨hk', hget'⟩ := hget (hsame ▸ Nat.ne_of_gt hpos)
      rw [hget'] at hsame
      obtain rfl := insertWords_unique hne hlen hw (hsame ▸ List.getElem_mem hk')
      -- the counts of one word are different
      have hnodup : (place (insertWords (words text)).1 w).counts.Nodup := (hordered w).1.imp Nat.ne_of_lt
      have hindex := (List.Nodup.getElem_inj_iff hnodup).mp hsame
      exact ⟨rfl, by omega⟩
  · rw [hlocate w n hn hmax]
    by_cases hzero : (place (insertWords (words text)).1 w).counts.getD (n - 1) 0 = 0
    · rw [hzero]
      exact Nat.zero_le _
    · obtain ⟨hk, hget'⟩ := hget hzero
      rw [hget']
      exact insertWords_counts_le hne hlen w _ (List.getElem_mem hk)
  · rw [hlocate w n (by omega) hmax] at hzero ⊢
    rw [hlocate w m hm (by omega)]
    obtain ⟨hk, hget'⟩ := hget hzero
    have hk' : m - 1 < (place (insertWords (words text)).1 w).counts.length := by omega
    rw [hget', List.getD_eq_getElem _ _ hk']
    refine ⟨(hordered w).2 _ (List.getElem_mem hk'), ?_⟩
    exact List.pairwise_iff_getElem.mp (hordered w).1 (m - 1) (n - 1) hk' hk (by omega)

/-- The word "soap" splits late, and its position is the answer for another word. -/
theorem locate_once_soap : ∃ w n, (1 ≤ n ∧ n < 2 ^ 32) ∧
    (Dictionary.fresh.new.load (some "song soap".toList)).locate w n = 2 ∧ ∀ w' n', 1 ≤ n' → n' < 2 ^ 32 →
      (Dictionary.fresh.new.load (some "song soap".toList)).locate w' n' = 2 → w' = w ∧ n' = n :=
  (locate_once .fresh "song soap".toList (by decide)).1 2 (by decide) (by decide)

end Cs564.WordLocator
