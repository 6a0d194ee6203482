import Mathlib.Data.List.Induction
import Cs564.WordLocator.Insertion
import Cs564.WordLocator.Words
/-!
# What `Locate` answers

As long as no word leaves the tree late, the tree is the radix tree of the words loaded so far: its paths are the
beginnings of the words, and its nodes stand at the words and where two of them part (`Canonical`), so whether the
next word leaves late is a fact about the words alone (`SplitsLate`).  `Locate` is right for every word and number
exactly if no word of the text splits late after the words before it (`locate_iff`).
-/

namespace Cs564.WordLocator

/-- Some word begins with `path`. -/
def Begins (ws : List (List Char)) (path : List Char) : Prop := ∃ x ∈ ws, path <+: x

/-- Two words go on differently behind `path`. -/
def Fork (ws : List (List Char)) (path : List Char) : Prop :=
  ∃ x ∈ ws, ∃ y ∈ ws, ∃ a b, a ≠ b ∧ path ++ [a] <+: x ∧ path ++ [b] <+: y

/-- The places of the radix tree's nodes: the root, the words, and where words part. -/
def Boundary (ws : List (List Char)) (path : List Char) : Prop := path = [] ∨ path ∈ ws ∨ Fork ws path

/-- The word `w` parts from the words before it, its first `l` characters common with one of them, inside a prefix and
at least two characters behind the node above. -/
def SplitsLate (before : List (List Char)) (w : List Char) : Prop :=
  ∃ l, l < w.length ∧ Begins before (w.take l) ∧ ¬ Begins before (w.take (l + 1)) ∧
    ¬ Boundary before (w.take l) ∧ ¬ Boundary before (w.take (l - 1))

/-- No word of the sequence splits late after the words before it. -/
def NoneSplitsLate (ws : List (List Char)) : Prop :=
  ∀ before w behind, ws = before ++ w :: behind → ¬ SplitsLate before w

/-- The places are those of the radix tree of the words. -/
structure Canonical (places : List Char → Place) (ws : List (List Char)) : Prop where
  off : ∀ path, places path = .off ↔ path ≠ [] ∧ ¬ Begins ws path
  edge : ∀ path, places path = .edge ↔ Begins ws path ∧ ¬ Boundary ws path

section Step

variable {places : List Char → Place} {ws : List (List Char)} {w path : List Char}

/-! ### One more word -/

theorem Begins.take {l m : Nat} (h : Begins ws (w.take m)) (hlm : l ≤ m) : Begins ws (w.take l) := by
  obtain ⟨x, hx, hpre⟩ := h
  exact ⟨x, hx, (List.take_prefix_take_left hlm).trans hpre⟩

theorem begins_append : Begins (ws ++ [w]) path ↔ Begins ws path ∨ path <+: w := by
  unfold Begins
  constructor
  · rintro ⟨x, hx, hpre⟩
    rcases List.mem_append.mp hx with hx | hx
    · exact Or.inl ⟨x, hx, hpre⟩
    · rw [List.mem_singleton] at hx
      exact Or.inr (hx ▸ hpre)
  · rintro (⟨x, hx, hpre⟩ | hpre)
    · exact ⟨x, by simp [hx], hpre⟩
    · exact ⟨w, by simp, hpre⟩

private theorem next_char_unique {a b : Char} (ha : path ++ [a] <+: w) (hb : path ++ [b] <+: w) : a = b := by
  have heq : path ++ [a] = path ++ [b] := by
    rw [List.prefix_iff_eq_take.mp ha, List.prefix_iff_eq_take.mp hb]
    simp
  simpa using heq

/-- A new fork has the new word on one side. -/
theorem fork_append : Fork (ws ++ [w]) path ↔
    Fork ws path ∨ ∃ x ∈ ws, ∃ a b, a ≠ b ∧ path ++ [a] <+: x ∧ path ++ [b] <+: w := by
  constructor
  · rintro ⟨x, hx, y, hy, a, b, hab, ha, hb⟩
    rw [List.mem_append, List.mem_singleton] at hx hy
    rcases hx with hx | rfl
    · rcases hy with hy | rfl
      · exact Or.inl ⟨x, hx, y, hy, a, b, hab, ha, hb⟩
      · exact Or.inr ⟨x, hx, a, b, hab, ha, hb⟩
    · rcases hy with hy | rfl
      · exact Or.inr ⟨y, hy, b, a, Ne.symm hab, hb, ha⟩
      · exact absurd (next_char_unique ha hb) hab
  · rintro (⟨x, hx, y, hy, hfork⟩ | ⟨x, hx, hfork⟩)
    · exact ⟨x, by simp [hx], y, by simp [hy], hfork⟩
    · exact ⟨x, by simp [hx], w, by simp, hfork⟩

theorem Canonical.leaves_iff (h : Canonical places ws) (l : Nat) :
    Leaves places w l ↔ l < w.length ∧ (w.take l = [] ∨ Begins ws (w.take l)) ∧ ¬ Begins ws (w.take (l + 1)) := by
  unfold Leaves
  rw [Ne, h.off, h.off, not_and_or, not_not, not_not]
  constructor
  · rintro ⟨hlt, hon, -, hoff⟩
    exact ⟨hlt, hon, hoff⟩
  · rintro ⟨hlt, hon, hoff⟩
    refine ⟨hlt, hon, ?_, hoff⟩
    apply List.ne_nil_of_length_pos
    rw [List.length_take]
    omega

/-- Whether a word leaves the tree late is a fact about the words. -/
theorem Canonical.late_iff (h : Canonical places ws) : Late places w ↔ SplitsLate ws w := by
  constructor
  · rintro ⟨l, hleaves, hedge, hedge'⟩
    obtain ⟨hlt, -, hoff⟩ := (h.leaves_iff l).mp hleaves
    obtain ⟨hon, hnode⟩ := (h.edge _).mp hedge
    exact ⟨l, hlt, hon, hoff, hnode, ((h.edge _).mp hedge').2⟩
  · rintro ⟨l, hlt, hon, hoff, hnode, hnode'⟩
    refine ⟨l, (h.leaves_iff l).mpr ⟨hlt, Or.inr hon, hoff⟩, (h.edge _).mpr ⟨hon, hnode⟩, ?_⟩
    exact (h.edge _).mpr ⟨hon.take (Nat.sub_le l 1), hnode'⟩

/-- Where the new word parts from an old one inside a prefix, a node is made. -/
private theorem Canonical.mem_forks (h : Canonical places ws) {forks : List (List Char)}
    (hforks : ∀ path, path ∈ forks ↔ ∃ l, Leaves places w l ∧ path = w.take l ∧ places path = .edge)
    (hedge : places path = .edge) :
    path ∈ forks ↔ ∃ x ∈ ws, ∃ a b, a ≠ b ∧ path ++ [a] <+: x ∧ path ++ [b] <+: w := by
  obtain ⟨⟨x, hx, hpre⟩, hnode⟩ := (h.edge path).mp hedge
  unfold Boundary at hnode
  rw [not_or, not_or] at hnode
  obtain ⟨hne, hmem, hfork⟩ := hnode
  rw [hforks]
  constructor
  · rintro ⟨l, hleaves, rfl, -⟩
    obtain ⟨hlt, -, hoff⟩ := (h.leaves_iff l).mp hleaves
    obtain ⟨s, rfl⟩ := hpre
    cases s with
    | nil => exact absurd (by simpa using hx) hmem
    | cons a s =>
      have hnext : w.take (l + 1) = w.take l ++ [w[l]] := (List.take_append_getElem hlt).symm
      have ha : w.take l ++ [a] <+: w.take l ++ a :: s := ⟨s, by simp⟩
      have hb : w.take l ++ [w[l]] <+: w := by
        rw [← hnext]
        exact List.take_prefix _ _
      refine ⟨_, hx, a, w[l], ?_, ha, hb⟩
      rintro rfl
      exact hoff ⟨_, hx, by rw [hnext]; exact ha⟩
  · rintro ⟨y, hy, a, b, hab, ha, hb⟩
    have htake : path = w.take path.length :=
      List.prefix_iff_eq_take.mp ((List.prefix_append _ _).trans hb)
    have hnext : path ++ [b] = w.take (path.length + 1) := by simpa using List.prefix_iff_eq_take.mp hb
    have hlt : path.length < w.length := by
      have hle := hb.length_le
      rw [List.length_append, List.length_singleton] at hle
      omega
    refine ⟨path.length, (h.leaves_iff _).mpr ⟨hlt, Or.inr ⟨x, hx, by rw [← htake]; exact hpre⟩, ?_⟩, htake, hedge⟩
    rintro ⟨z, hz, hpre'⟩
    rw [← hnext] at hpre'
    exact hfork ⟨y, hy, z, hz, a, b, hab, ha, hpre'⟩

/-- A word that does not split late keeps the tree the radix tree of its words. -/
theorem Canonical.step (h : Canonical places ws) {count : Nat} {forks : List (List Char)}
    (hforks : ∀ path, path ∈ forks ↔ ∃ l, Leaves places w l ∧ path = w.take l ∧ places path = .edge) :
    Canonical (landed places w count forks) (ws ++ [w]) := by
  have hforkEdge : ∀ path, path ∈ forks → places path = .edge := by
    intro path hpath
    obtain ⟨-, -, -, hedge⟩ := (hforks path).mp hpath
    exact hedge
  constructor
  · intro path
    rw [begins_append, not_or]
    unfold landed
    by_cases hw : path = w
    · simp [hw]
    · by_cases hfork : path ∈ forks
      · have hedge := hforkEdge path hfork
        obtain ⟨hon, -⟩ := (h.edge path).mp hedge
        simp [hw, hfork, hon]
      · rw [if_neg hw, if_neg hfork]
        by_cases hpre : path <+: w
        · by_cases hoff : places path = .off
          · simp [hpre, hoff]
          · simp [hpre, hoff]
        · rw [if_neg (by simp [hpre]), h.off]
          simp [hpre]
  · intro path
    have hboundary : Boundary (ws ++ [w]) path ↔ Boundary ws path ∨ path = w ∨
        ∃ x ∈ ws, ∃ a b, a ≠ b ∧ path ++ [a] <+: x ∧ path ++ [b] <+: w := by
      unfold Boundary
      rw [fork_append, List.mem_append, List.mem_singleton]
      tauto
    rw [begins_append, hboundary, not_or, not_or]
    unfold landed
    by_cases hw : path = w
    · simp [hw]
    · by_cases hedge : places path = .edge
      · have hmem := h.mem_forks hforks hedge
        obtain ⟨hon, hnode⟩ := (h.edge path).mp hedge
        by_cases hfork : path ∈ forks
        · simp [hw, hfork, hmem.mp hfork]
        · simp [hw, hfork, hedge, hon, hnode, ← hmem]
      · have hfork : path ∉ forks := fun hfork => hedge (hforkEdge path hfork)
        rw [if_neg hw, if_neg hfork]
        have hnode : ¬ (Begins ws path ∧ ¬ Boundary ws path) := by
          rwa [← h.edge]
        by_cases hoff : places path = .off
        · obtain ⟨hne, hnot⟩ := (h.off path).mp hoff
          have hnew : ¬ ∃ x ∈ ws, ∃ a b, a ≠ b ∧ path ++ [a] <+: x ∧ path ++ [b] <+: w := by
            rintro ⟨x, hx, a, b, -, ha, -⟩
            exact hnot ⟨x, hx, (List.prefix_append _ _).trans ha⟩
          have hno : ¬ Boundary ws path := by
            rintro (hnil | hx | ⟨x, hx, -, -, a, b, -, ha, -⟩)
            · exact hne hnil
            · exact hnot ⟨path, hx, List.prefix_rfl⟩
            · exact hnot ⟨x, hx, (List.prefix_append _ _).trans ha⟩
          by_cases hpre : path <+: w
          · simp [hpre, hoff, hw, hno, hnew]
          · simp [hpre, hoff, hnot]
        · have hbound : Boundary ws path := by
            by_contra hno
            rw [h.off, not_and_or, not_not, not_not] at hoff
            rcases hoff with hnil | hon
            · exact hno (Or.inl hnil)
            · exact hnode ⟨hon, hno⟩
          simp [hoff, hedge, hbound]

end Step

/-! ### Loading a text -/

/-- A landed count is new at one place and leaves the counts everywhere else. -/
theorem landed_counts (before : List Char → Place) (d : List Char) (count : Nat) (forks : List (List Char))
    (path : List Char) :
    (landed before d count forks path).counts = (before path).counts ++ if path = d then [count] else [] := by
  unfold landed
  by_cases hd : path = d
  · subst hd
    simp
  · by_cases hfork : path ∈ forks
    · simp [hd, hfork]
    · by_cases hoff : path <+: d ∧ before path = .off
      · simp [hd, hfork, hoff]
      · simp [hd, hfork, hoff]

theorem positions_append (ws : List (List Char)) (w x : List Char) :
    positions (ws ++ [w]) x = positions ws x ++ if x = w then [ws.length + 1] else [] := by
  unfold positions
  rw [List.zipIdx_append, List.filter_append, List.map_append]
  by_cases hx : x = w
  · simp [hx, Nat.add_comm]
  · simp [hx, Ne.symm hx]

theorem positions_prefix {ws ws' : List (List Char)} (h : ws <+: ws') (x : List Char) :
    positions ws x <+: positions ws' x := by
  obtain ⟨behind, rfl⟩ := h
  unfold positions
  rw [List.zipIdx_append, List.filter_append, List.map_append]
  exact List.prefix_append _ _

theorem positions_of_notMem {ws : List (List Char)} {w : List Char} (h : w ∉ ws) : positions ws w = [] := by
  unfold positions
  rw [List.map_eq_nil_iff, List.filter_eq_nil_iff]
  rintro ⟨x, i⟩ hx heq
  rw [decide_eq_true_eq] at heq
  exact h (heq ▸ List.fst_mem_of_mem_zipIdx hx)

/-- `Insert` of the words in order, each with its number. -/
def insertWords (ws : List (List Char)) : Node × Nat := ws.foldl insertNext (Node.new [], 0)

theorem insertWords_append (ws : List (List Char)) (w : List Char) :
    insertWords (ws ++ [w]) = insertNext (insertWords ws) w := by
  simp [insertWords]

section Load

variable {ws : List (List Char)}

/-- The counter is the number of words, as long as that fits into 32 bits. -/
theorem insertWords_count (hlen : ws.length < 2 ^ 32) : (insertWords ws).2 = ws.length := by
  induction ws using List.reverseRecOn with
  | nil => rfl
  | append_singleton ws w ih =>
    rw [List.length_append, List.length_singleton] at hlen ⊢
    rw [insertWords_append, insertNext, ih (by omega)]
    exact Nat.mod_eq_of_lt hlen

/-- The round of the loop for one more word. -/
theorem insertWords_step {w : List Char} (hlen : ws.length + 1 < 2 ^ 32) :
    (insertWords (ws ++ [w])).1 = (insertWords ws).1.insert w (ws.length + 1) := by
  rw [insertWords_append, insertNext, insertWords_count (by omega), Nat.mod_eq_of_lt hlen]

theorem NoneSplitsLate.init {w : List Char} (h : NoneSplitsLate (ws ++ [w])) : NoneSplitsLate ws := by
  intro before x behind heq
  exact h before x (behind ++ [w]) (by simp [heq])

theorem canonical_nil : Canonical (place (Node.new [])) [] where
  off := by
    intro path
    cases path with
    | nil => simp
    | cons front rest => simp [place_none (show (Node.new []).next front = none from rfl), Begins]
  edge := by
    intro path
    cases path with
    | nil => simp [Begins]
    | cons front rest => simp [place_none (show (Node.new []).next front = none from rfl), Begins]

/-- Without late splits the tree is the radix tree of the words, with their positions at its nodes. -/
theorem insertWords_canonical (hne : ∀ w ∈ ws, w ≠ []) (hlen : ws.length < 2 ^ 32) (h : NoneSplitsLate ws) :
    Canonical (place (insertWords ws).1) ws ∧ ∀ path, (place (insertWords ws).1 path).counts = positions ws path := by
  induction ws using List.reverseRecOn with
  | nil =>
    refine ⟨canonical_nil, fun path => ?_⟩
    cases path with
    | nil => simp [insertWords, Node.new, positions]
    | cons front rest =>
      rw [insertWords, List.foldl_nil, place_none (show (Node.new []).next front = none from rfl)]
      rfl
  | append_singleton ws w ih =>
    rw [List.length_append, List.length_singleton] at hlen
    obtain ⟨hcanon, hcounts⟩ := ih (fun x hx => hne x (by simp [hx])) (by omega) h.init
    obtain ⟨d, forks, hlands, hlanding⟩ := insert_lands (insertWords ws).1 (hne w (by simp)) (ws.length + 1)
    have hlate : ¬ Late (place (insertWords ws).1) w := by
      rw [hcanon.late_iff]
      exact h ws w [] rfl
    obtain ⟨rfl, hforks⟩ := hlanding.straight hlate
    rw [insertWords_step hlen, funext hlands]
    refine ⟨hcanon.step hforks, fun path => ?_⟩
    rw [landed_counts, hcounts, positions_append]

/-- The counts in the tree are numbers of words that were inserted. -/
theorem insertWords_counts_le (hne : ∀ w ∈ ws, w ≠ []) (hlen : ws.length < 2 ^ 32) (path : List Char) :
    ∀ count ∈ (place (insertWords ws).1 path).counts, count ≤ ws.length := by
  induction ws using List.reverseRecOn generalizing path with
  | nil =>
    intro count hcount
    cases path with
    | nil => simp [insertWords, Node.new] at hcount
    | cons front rest =>
      rw [insertWords, List.foldl_nil, place_none (show (Node.new []).next front = none from rfl)] at hcount
      simp at hcount
  | append_singleton ws w ih =>
    rw [List.length_append, List.length_singleton] at hlen ⊢
    intro count hcount
    obtain ⟨d, forks, hlands, -⟩ := insert_lands (insertWords ws).1 (hne w (by simp)) (ws.length + 1)
    rw [insertWords_step hlen, hlands, landed_counts, List.mem_append] at hcount
    rcases hcount with hcount | hcount
    · have hle := ih (fun x hx => hne x (by simp [hx])) (by omega) path count hcount
      omega
    · by_cases hd : path = d
      · rw [if_pos hd, List.mem_singleton] at hcount
        omega
      · rw [if_neg hd] at hcount
        simp at hcount

/-- A word that splits late never gets the number of that occurrence. -/
theorem insertWords_late {before behind : List (List Char)} {w : List Char}
    (hne : ∀ x ∈ before ++ w :: behind, x ≠ []) (hlen : (before ++ w :: behind).length < 2 ^ 32)
    (h : NoneSplitsLate before) (hlate : SplitsLate before w) :
    before.length + 1 ∉ (place (insertWords (before ++ w :: behind)).1 w).counts := by
  induction behind using List.reverseRecOn with
  | nil =>
    rw [List.length_append, List.length_singleton] at hlen
    have hne' : ∀ x ∈ before, x ≠ [] := fun x hx => hne x (by simp [hx])
    obtain ⟨d, forks, hlands, hlanding⟩ := insert_lands (insertWords before).1 (hne w (by simp)) (before.length + 1)
    obtain ⟨hcanon, -⟩ := insertWords_canonical hne' (by omega) h
    have hlonger := hlanding.late (hcanon.late_iff.mpr hlate)
    have hwd : w ≠ d := by
      rintro rfl
      omega
    rw [insertWords_step hlen, hlands, landed_counts, if_neg hwd, List.append_nil]
    intro hmem
    have hle := insertWords_counts_le hne' (by omega) w _ hmem
    omega
  | append_singleton behind x ih =>
    have hassoc : before ++ w :: (behind ++ [x]) = (before ++ w :: behind) ++ [x] := by simp
    rw [hassoc] at hne hlen ⊢
    rw [List.length_append, List.length_singleton] at hlen
    obtain ⟨d, forks, hlands, -⟩ := insert_lands (insertWords (before ++ w :: behind)).1 (hne x (by simp))
      ((before ++ w :: behind).length + 1)
    rw [insertWords_step hlen, hlands, landed_counts, List.mem_append, not_or]
    refine ⟨ih (fun y hy => hne y (List.mem_append_left _ hy)) (by omega), ?_⟩
    intro hmem
    by_cases hd : w = d
    · rw [if_pos hd, List.mem_singleton, List.length_append, List.length_cons] at hmem
      omega
    · rw [if_neg hd] at hmem
      simp at hmem

end Load

/-! ### The answers -/

theorem load_eq (dictionary : Dictionary) (text : List Char) :
    (dictionary.new.load (some text)).wordList = (insertWords (words text)).1 := by
  have hlines : (lines text).foldl (fun state line => (parse line []).foldl insertNext state) (Node.new [], 0) =
      insertWords (words text) := by
    rw [insertWords, ← words_lines, List.foldl_flatMap]
    simp only [parse_eq, List.nil_append]
  simp only [Dictionary.load, Dictionary.new, if_true, hlines]

private theorem isLowerWordChar_toLower {ch : Char} (h : isWordChar ch = true) : IsLowerWordChar ch.toLower := by
  have hclass : ((ch.isUpper || ch.isLower || ch.isDigit) || ch == Char.ofNat 39) = true := h
  rw [Bool.or_eq_true, Bool.or_eq_true, Bool.or_eq_true, beq_iff_eq] at hclass
  unfold IsLowerWordChar
  by_cases hup : 'A'.val ≤ ch.val ∧ ch.val ≤ 'Z'.val
  · left
    have hlower : ch.toLower.val = ch.val + ('a'.val - 'A'.val) := by
      change (if h : _ then _ else _ : Char).val = _
      rw [dif_pos hup]
    have hlo : 65 ≤ ch.val.toNat := UInt32.le_iff_toNat_le.mp hup.1
    have hhi : ch.val.toNat ≤ 90 := UInt32.le_iff_toNat_le.mp hup.2
    have hval : ch.toLower.val.toNat = ch.val.toNat + 32 := by
      rw [hlower, UInt32.toNat_add, show ('a'.val - 'A'.val).toNat = 32 from rfl]
      omega
    change (decide ('a'.val ≤ ch.toLower.val) && decide (ch.toLower.val ≤ 'z'.val)) = true
    rw [Bool.and_eq_true, decide_eq_true_eq, decide_eq_true_eq]
    constructor
    · apply UInt32.le_iff_toNat_le.mpr
      rw [hval, show 'a'.val.toNat = 97 from rfl]
      omega
    · apply UInt32.le_iff_toNat_le.mpr
      rw [hval, show 'z'.val.toNat = 122 from rfl]
      omega
  · have hsame : ch.toLower = ch := by
      change (if h : _ then _ else _ : Char) = _
      rw [dif_neg hup]
    have hnot : ¬ ch.isUpper = true := by
      change ¬ decide ('A'.val ≤ ch.val ∧ ch.val ≤ 'Z'.val) = true
      rwa [decide_eq_true_eq]
    rw [hsame]
    tauto

theorem mem_words {text w : List Char} (h : w ∈ words text) : w ≠ [] ∧ ∀ ch ∈ w, IsLowerWordChar ch := by
  obtain ⟨run, hrun, rfl⟩ := List.mem_map.mp h
  obtain ⟨hne, hall⟩ := mem_runs hrun
  refine ⟨by simpa [toLower] using hne, ?_⟩
  intro ch hch
  obtain ⟨c, hc, rfl⟩ := List.mem_map.mp hch
  exact isLowerWordChar_toLower (hall c hc)

/-- `Locate` answers right for every word and number exactly if no word of the text splits late. -/
theorem locate_iff (dictionary : Dictionary) (text : List Char) (hlen : (words text).length < 2 ^ 32) :
    (∀ w, w ≠ [] → (∀ ch ∈ w, IsLowerWordChar ch) → ∀ n, 1 ≤ n → n < 2 ^ 32 →
        (dictionary.new.load (some text)).locate w n = nthPosition (words text) w n) ↔
      NoneSplitsLate (words text) := by
  have hne : ∀ w ∈ words text, w ≠ [] := fun w hw => (mem_words hw).1
  constructor
  · intro hlocate
    -- the first word that splits late is not found
    have hfirst : ∀ m before w behind, before.length = m → words text = before ++ w :: behind →
        ¬ SplitsLate before w := by
      intro m
      induction m using Nat.strongRecOn with
      | ind m ih =>
        intro before w behind hm heq hlate
        have hnone : NoneSplitsLate before := by
          rintro b x b' rfl
          refine ih b.length ?_ b x (b' ++ w :: behind) rfl (by simp [heq])
          rw [← hm, List.length_append, List.length_cons]
          omega
        have hw : w ∉ before := by
          intro hw
          obtain ⟨l, -, -, hoff, -⟩ := hlate
          exact hoff ⟨w, hw, List.take_prefix _ _⟩
        have hmem : w ∈ words text := by simp [heq]
        have hfound := hlocate w (mem_words hmem).1 (mem_words hmem).2 1 (Nat.le_refl 1) (by omega)
        rw [Dictionary.locate, load_eq, search_eq _ _ (Nat.le_refl 1) (by omega), nthPosition] at hfound
        have hright : (positions (words text) w).getD (1 - 1) 0 = before.length + 1 := by
          have hpos : positions (before ++ [w]) w = [before.length + 1] := by
            rw [positions_append, positions_of_notMem hw, if_pos rfl, List.nil_append]
          obtain ⟨rest, hrest⟩ := positions_prefix (show before ++ [w] <+: words text from ⟨behind, by simp [heq]⟩) w
          rw [← hrest, hpos]
          rfl
        have hnot := insertWords_late (by rw [← heq]; exact hne) (by rw [← heq]; exact hlen) hnone hlate
        rw [← heq] at hnot
        rw [hright] at hfound
        apply hnot
        cases hcounts : (place (insertWords (words text)).1 w).counts with
        | nil =>
          rw [hcounts] at hfound
          simp at hfound
        | cons count rest =>
          rw [hcounts] at hfound
          simp at hfound
          simp [hfound]
    exact fun before w behind heq => hfirst before.length before w behind rfl heq
  · intro hnone w hw hchars n hn hmax
    obtain ⟨-, hcounts⟩ := insertWords_canonical hne hlen hnone
    rw [Dictionary.locate, load_eq, search_eq _ _ hn hmax, hcounts, nthPosition]

theorem locate_iff_so_song : (∀ w, w ≠ [] → (∀ ch ∈ w, IsLowerWordChar ch) → ∀ n, 1 ≤ n → n < 2 ^ 32 →
      (Dictionary.fresh.new.load (some "So, song: so".toList)).locate w n =
        nthPosition (words "So, song: so".toList) w n) ↔ NoneSplitsLate (words "So, song: so".toList) :=
  locate_iff Dictionary.fresh "So, song: so".toList (by decide)

/-- The word "soap" parts from "song" behind "so", where there is no node. -/
theorem locate_soap : ¬ ∀ text : List Char, (∀ ch ∈ text, ch.toNat < 128) → (words text).length < 2 ^ 32 →
    ∀ w, w ≠ [] → (∀ ch ∈ w, IsLowerWordChar ch) → ∀ n, 1 ≤ n → n < 2 ^ 32 →
      (Dictionary.fresh.new.load (some text)).locate w n = nthPosition (words text) w n := by
  intro h
  have hsoap := h "song soap".toList (by simp) (by decide) "soap".toList (by decide)
    (by simp [IsLowerWordChar]) 1 (by decide) (by decide)
  revert hsoap
  decide

end Cs564.WordLocator
