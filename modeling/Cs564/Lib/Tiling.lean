import Mathlib.Algebra.BigOperators.Intervals
import Mathlib.Order.Interval.Finset.Nat
/-!
# Blocks that tile an interval

A family of blocks `[off i, off i + len i)` that do not overlap and fill `[lo, hi)` (`Tiles`); empty blocks may stand
anywhere.  The blocks that begin before a non-empty one fill the interval up to it (`Tiles.below`), so their lengths
add up (`Tiles.sum_below`); removing a block and shifting those before it by its length closes the hole
(`Tiles.remove`).
-/

namespace Cs564

section Tiling

variable {ι : Type} {s s' : ι → Prop} {off off' len len' : ι → Nat} {lo hi : Nat}

/-- The block `i` contains the position `q`. -/
def Covers (off len : ι → Nat) (i : ι) (q : Nat) : Prop := off i ≤ q ∧ q < off i + len i

/-- The blocks with an index in `s` fill the interval without overlap. -/
structure Tiles (s : ι → Prop) (off len : ι → Nat) (lo hi : Nat) : Prop where
  le : lo ≤ hi
  inside : ∀ i q, s i → Covers off len i q → lo ≤ q ∧ q < hi
  cover : ∀ q, lo ≤ q → q < hi → ∃ i, s i ∧ Covers off len i q
  unique : ∀ i j q, s i → s j → Covers off len i q → Covers off len j q → i = j

theorem covers_start {i : ι} (hpos : 0 < len i) : Covers off len i (off i) := ⟨Nat.le_refl _, by omega⟩

/-- The same blocks under other names. -/
theorem Tiles.congr (h : Tiles s off len lo hi) (hs : ∀ i, s' i ↔ s i) (hoff : ∀ i, s i → off' i = off i)
    (hlen : ∀ i, s i → len' i = len i) : Tiles s' off' len' lo hi := by
  have hcovers : ∀ {i q}, s i → (Covers off' len' i q ↔ Covers off len i q) := by
    intro i q hi'
    rw [Covers, Covers, hoff i hi', hlen i hi']
  constructor
  · exact h.le
  · intro i q hi' hq
    exact h.inside i q ((hs i).mp hi') ((hcovers ((hs i).mp hi')).mp hq)
  · intro q hlo hhi
    obtain ⟨i, hi', hq⟩ := h.cover q hlo hhi
    exact ⟨i, (hs i).mpr hi', (hcovers hi').mpr hq⟩
  · intro i j q hi' hj hq hq'
    exact h.unique i j q ((hs i).mp hi') ((hs j).mp hj) ((hcovers ((hs i).mp hi')).mp hq)
      ((hcovers ((hs j).mp hj)).mp hq')

/-- A non-empty block lies in the interval. -/
theorem Tiles.bounds (h : Tiles s off len lo hi) {i : ι} (hi' : s i) (hpos : 0 < len i) :
    lo ≤ off i ∧ off i + len i ≤ hi := by
  have hfirst := h.inside i (off i) hi' (covers_start hpos)
  have hlast := h.inside i (off i + len i - 1) hi' ⟨by omega, by omega⟩
  exact ⟨hfirst.1, by omega⟩

/-- A non-empty block that begins before another one also ends before it. -/
theorem Tiles.ends_before (h : Tiles s off len lo hi) {i k : ι} (hi' : s i) (hk : s k) (hpos : 0 < len k)
    (hlt : off i < off k) : off i + len i ≤ off k := by
  by_contra hover
  have heq := h.unique i k (off k) hi' hk ⟨by omega, by omega⟩ (covers_start hpos)
  subst heq
  omega

/-- The blocks that begin before a non-empty one fill the interval up to it. -/
theorem Tiles.below (h : Tiles s off len lo hi) {k : ι} (hk : s k) (hpos : 0 < len k) :
    Tiles (fun i => s i ∧ off i < off k) off len lo (off k) where
  le := (h.bounds hk hpos).1
  inside := by
    intro i q ⟨hi', hlt⟩ hq
    have hend := h.ends_before hi' hk hpos hlt
    have hin := h.inside i q hi' hq
    unfold Covers at hq
    omega
  cover := by
    intro q hlo hq
    have hbounds := h.bounds hk hpos
    obtain ⟨i, hi', hcov⟩ := h.cover q hlo (by omega)
    unfold Covers at hcov
    exact ⟨i, ⟨hi', by omega⟩, hcov⟩
  unique := fun i j q hi' hj => h.unique i j q hi'.1 hj.1

/-- The block at the lower end of the interval. -/
theorem Tiles.exists_lowest (h : Tiles s off len lo hi) (hlt : lo < hi) : ∃ i, s i ∧ off i = lo ∧ 0 < len i := by
  obtain ⟨i, hi', hcov⟩ := h.cover lo (Nat.le_refl lo) hlt
  unfold Covers at hcov
  have hpos : 0 < len i := by omega
  have hbounds := h.bounds hi' hpos
  exact ⟨i, hi', by omega, hpos⟩

section Sum

variable {l : List ι}

private theorem sum_eq_card [DecidableEq ι] (h : Tiles s off len lo hi) (hl : l.Nodup) (hs : ∀ i ∈ l, s i) :
    (l.map len).sum = (l.toFinset.biUnion fun i => Finset.Ico (off i) (off i + len i)).card := by
  rw [Finset.card_biUnion, ← List.sum_toFinset len hl]
  · simp
  · intro i hi' j hj hij
    rw [Finset.mem_coe, List.mem_toFinset] at hi' hj
    rw [Function.onFun, Finset.disjoint_left]
    intro q hq hq'
    rw [Finset.mem_Ico] at hq hq'
    exact hij (h.unique i j q (hs i hi') (hs j hj) hq hq')

/-- The lengths of some of the blocks. -/
theorem Tiles.sum_le (h : Tiles s off len lo hi) (hl : l.Nodup) (hs : ∀ i ∈ l, s i) :
    (l.map len).sum ≤ hi - lo := by
  classical
  rw [sum_eq_card h hl hs, ← Nat.card_Ico lo hi]
  apply Finset.card_le_card
  intro q hq
  rw [Finset.mem_biUnion] at hq
  obtain ⟨i, hi', hq⟩ := hq
  rw [Finset.mem_Ico] at hq ⊢
  exact h.inside i q (hs i (List.mem_toFinset.mp hi')) hq

/-- The lengths of all blocks. -/
theorem Tiles.sum_eq (h : Tiles s off len lo hi) (hl : l.Nodup) (hs : ∀ i, i ∈ l ↔ s i) :
    (l.map len).sum = hi - lo := by
  classical
  rw [sum_eq_card h hl fun i => (hs i).mp, ← Nat.card_Ico lo hi]
  congr 1
  ext q
  rw [Finset.mem_biUnion, Finset.mem_Ico]
  constructor
  · rintro ⟨i, hi', hq⟩
    rw [Finset.mem_Ico] at hq
    exact h.inside i q ((hs i).mp (List.mem_toFinset.mp hi')) hq
  · intro hq
    obtain ⟨i, hi', hcov⟩ := h.cover q hq.1 hq.2
    exact ⟨i, List.mem_toFinset.mpr ((hs i).mpr hi'), Finset.mem_Ico.mpr hcov⟩

end Sum

/-- A position of another block that does not begin before a block lies behind that one. -/
private theorem Tiles.behind (h : Tiles s off len lo hi) {i k : ι} {q : Nat} (hi' : s i) (hk : s k) (hne : i ≠ k)
    (hle : off k ≤ off i) (hcov : Covers off len i q) : off k + len k ≤ q := by
  by_contra hover
  unfold Covers at hcov
  exact hne (h.unique i k q hi' hk hcov ⟨by omega, by omega⟩)

/-- A position of a block that begins before a non-empty one lies before that one. -/
private theorem Tiles.before (h : Tiles s off len lo hi) {i k : ι} {q : Nat} (hi' : s i) (hk : s k) (hpos : 0 < len k)
    (hlt : off i < off k) (hcov : Covers off len i q) : q < off k := by
  have hend := h.ends_before hi' hk hpos hlt
  unfold Covers at hcov
  omega

/-- Removing an empty block. -/
private theorem Tiles.remove_empty (h : Tiles s off len lo hi) {k : ι} (hzero : len k = 0) (hs : ∀ i, s' i ↔ s i ∧ i ≠ k)
    (hsame : ∀ i, s' i → off' i = off i ∧ len' i = len i) : Tiles s' off' len' lo hi := by
  have hcovers : ∀ i q, s' i → (Covers off' len' i q ↔ Covers off len i q) := by
    intro i q hi'
    unfold Covers
    rw [(hsame i hi').1, (hsame i hi').2]
  refine ⟨h.le, fun i q hi' hcov => ?_, fun q hlo hq => ?_, fun i j q hi' hj hcovi hcovj => ?_⟩
  · exact h.inside i q ((hs i).mp hi').1 ((hcovers i q hi').mp hcov)
  · obtain ⟨i, hi', hcov⟩ := h.cover q hlo hq
    have hik : i ≠ k := by
      rintro rfl
      unfold Covers at hcov
      omega
    have hsi : s' i := (hs i).mpr ⟨hi', hik⟩
    exact ⟨i, hsi, (hcovers i q hsi).mpr hcov⟩
  · exact h.unique i j q ((hs i).mp hi').1 ((hs j).mp hj).1 ((hcovers i q hi').mp hcovi) ((hcovers j q hj).mp hcovj)

/-- Removing a block and shifting those before it by its length. -/
theorem Tiles.remove (h : Tiles s off len lo hi) {k : ι} (hk : s k) (hs : ∀ i, s' i ↔ s i ∧ i ≠ k)
    (hoff : ∀ i, s' i → off' i = if off i < off k then off i + len k else off i)
    (hlen : ∀ i, s' i → len' i = len i) : Tiles s' off' len' (lo + len k) hi := by
  by_cases hpos : 0 < len k
  · have hbounds := h.bounds hk hpos
    -- where a position of a shifted or an unshifted block comes from
    have hcovers : ∀ i q, s' i → (Covers off' len' i q ↔
        (off i < off k ∧ len k ≤ q ∧ Covers off len i (q - len k)) ∨ (off k ≤ off i ∧ Covers off len i q)) := by
      intro i q hi'
      unfold Covers
      rw [hoff i hi', hlen i hi']
      split <;> omega
    refine ⟨by omega, fun i q hi' hcov => ?_, fun q hlo hq => ?_, fun i j q hi' hj hcovi hcovj => ?_⟩
    · obtain ⟨hsi, hne⟩ := (hs i).mp hi'
      rcases (hcovers i q hi').mp hcov with ⟨hlt, hle, hold⟩ | ⟨hle, hold⟩
      · have hin := h.inside i _ hsi hold
        have hq := h.before hsi hk hpos hlt hold
        omega
      · have hin := h.inside i q hsi hold
        have hq := h.behind hsi hk hne hle hold
        omega
    · by_cases hshifted : q < off k + len k
      · obtain ⟨i, hi', hcov⟩ := h.cover (q - len k) (by omega) (by omega)
        have hlt : off i < off k := by
          unfold Covers at hcov
          omega
        have hsi : s' i := (hs i).mpr ⟨hi', fun hik => by rw [hik] at hlt; omega⟩
        exact ⟨i, hsi, (hcovers i q hsi).mpr (.inl ⟨hlt, by omega, hcov⟩)⟩
      · obtain ⟨i, hi', hcov⟩ := h.cover q (by omega) hq
        have hik : i ≠ k := by
          rintro rfl
          unfold Covers at hcov
          omega
        have hle : off k ≤ off i := by
          by_contra hlt
          have hq' := h.before hi' hk hpos (Nat.lt_of_not_le hlt) hcov
          omega
        have hsi : s' i := (hs i).mpr ⟨hi', hik⟩
        exact ⟨i, hsi, (hcovers i q hsi).mpr (.inr ⟨hle, hcov⟩)⟩
    · obtain ⟨hsi, hnei⟩ := (hs i).mp hi'
      obtain ⟨hsj, hnej⟩ := (hs j).mp hj
      rcases (hcovers i q hi').mp hcovi with ⟨hlti, -, hi''⟩ | ⟨hlei, hi''⟩
      · rcases (hcovers j q hj).mp hcovj with ⟨-, -, hj''⟩ | ⟨hlej, hj''⟩
        · exact h.unique i j _ hsi hsj hi'' hj''
        · have hqi := h.before hsi hk hpos hlti hi''
          have hqj := h.behind hsj hk hnej hlej hj''
          omega
      · rcases (hcovers j q hj).mp hcovj with ⟨hltj, -, hj''⟩ | ⟨-, hj''⟩
        · have hqj := h.before hsj hk hpos hltj hj''
          have hqi := h.behind hsi hk hnei hlei hi''
          omega
        · exact h.unique i j q hsi hsj hi'' hj''
  · have hzero : len k = 0 := Nat.eq_zero_of_not_pos hpos
    have hsame : ∀ i, s' i → off' i = off i ∧ len' i = len i := by
      intro i hi'
      refine ⟨?_, hlen i hi'⟩
      rw [hoff i hi', hzero, Nat.add_zero, ite_self]
    rw [hzero, Nat.add_zero]
    exact h.remove_empty hzero hs hsame

/-- A new block in front of the others. -/
theorem Tiles.insert (h : Tiles s off len lo hi) {k : ι} {n : Nat} (hn : n ≤ lo) (hk : ¬ s k)
    (hs : ∀ i, s' i ↔ s i ∨ i = k) (hold : ∀ i, s i → off' i = off i ∧ len' i = len i) (hoff : off' k = lo - n)
    (hlen : len' k = n) : Tiles s' off' len' (lo - n) hi := by
  have hcases : ∀ i q, s' i → Covers off' len' i q →
      (s i ∧ Covers off len i q) ∨ (i = k ∧ lo - n ≤ q ∧ q < lo) := by
    intro i q hi' hcov
    rcases (hs i).mp hi' with hsi | rfl
    · unfold Covers at *
      rw [(hold i hsi).1, (hold i hsi).2] at hcov
      exact Or.inl ⟨hsi, hcov⟩
    · unfold Covers at hcov
      exact Or.inr ⟨rfl, by omega, by omega⟩
  have hle := h.le
  constructor
  · omega
  · intro i q hi' hcov
    rcases hcases i q hi' hcov with ⟨hsi, hcov⟩ | ⟨-, hq, hq'⟩
    · have hin := h.inside i q hsi hcov
      omega
    · omega
  · intro q hlo hq
    by_cases hold' : lo ≤ q
    · obtain ⟨i, hsi, hcov⟩ := h.cover q hold' hq
      refine ⟨i, (hs i).mpr (Or.inl hsi), ?_⟩
      unfold Covers at *
      rwa [(hold i hsi).1, (hold i hsi).2]
    · refine ⟨k, (hs k).mpr (Or.inr rfl), ?_⟩
      unfold Covers
      omega
  · intro i j q hi' hj hcovi hcovj
    rcases hcases i q hi' hcovi with ⟨hsi, hcovi⟩ | ⟨rfl, hqi, hqi'⟩
    · rcases hcases j q hj hcovj with ⟨hsj, hcovj⟩ | ⟨rfl, hqj, hqj'⟩
      · exact h.unique i j q hsi hsj hcovi hcovj
      · have hin := h.inside i q hsi hcovi
        omega
    · rcases hcases j q hj hcovj with ⟨hsj, hcovj⟩ | ⟨rfl, -, -⟩
      · have hin := h.inside j q hsj hcovj
        omega
      · rfl

end Tiling

end Cs564
