import Cs564.Lib.Checked
import Mathlib.Data.List.Induction

/-!
# Loops that read and store

A loop that reads an element of its input and stores it at once, in a state that stands for what was stored before
(`tables`).  If a round succeeds exactly when its element can be read and is `valid` after what was stored before, the
loop succeeds exactly when all elements can be read and each is valid in its turn; the state stands for all of them
(`foldlM_reads`).
-/

namespace Cs564

variable {ε σ ρ α β : Type} {f : σ → α → Except ε σ} {read : α → Option β} {store : ρ → β → ρ}
  {valid : ρ → β → Prop}

/-- Each element is valid after what was stored before it. -/
def AllValid (valid : ρ → β → Prop) (store : ρ → β → ρ) : ρ → List β → Prop
  | _, [] => True
  | r, b :: bs => valid r b ∧ AllValid valid store (store r b) bs

theorem allValid_append {r : ρ} {bs cs : List β} :
    AllValid valid store r (bs ++ cs) ↔ AllValid valid store r bs ∧ AllValid valid store (bs.foldl store r) cs := by
  induction bs generalizing r with
  | nil => exact (and_iff_right trivial).symm
  | cons b bs ih => rw [List.cons_append, AllValid, AllValid, ih, List.foldl_cons, and_assoc]

theorem allValid_of_forall (h : ∀ r b, valid r b) (r : ρ) (bs : List β) : AllValid valid store r bs := by
  induction bs generalizing r with
  | nil => trivial
  | cons b bs ih => exact ⟨h r b, ih (store r b)⟩

/-- The same for lists of elements, one list after the other. -/
theorem allValid_flatten {r : ρ} {lists : List (List β)} :
    AllValid (AllValid valid store) (fun r bs => bs.foldl store r) r lists ↔ AllValid valid store r lists.flatten := by
  induction lists generalizing r with
  | nil => exact Iff.rfl
  | cons bs lists ih => rw [List.flatten_cons, allValid_append, AllValid, ih]

/-- A property of each element and of what was stored before it. -/
theorem allValid_iff {r : ρ} {bs : List β} : AllValid valid store r bs ↔
    ∀ before b after, bs = before ++ b :: after → valid (before.foldl store r) b := by
  induction bs generalizing r with
  | nil => exact iff_of_true trivial fun before b after h => by simp at h
  | cons b bs ih =>
    rw [AllValid, ih]
    constructor
    · rintro ⟨hb, hbs⟩ before c after h
      cases before with
      | nil => exact (List.cons.inj h).1 ▸ hb
      | cons c' before =>
        obtain ⟨rfl, hrest⟩ := List.cons.inj h
        exact hbs before c after hrest
    · intro h
      refine ⟨h [] b bs rfl, fun before c after hrest => ?_⟩
      exact h (b :: before) c after (by rw [hrest, List.cons_append])

/-- The loop succeeds exactly when all can be read and each is valid in its turn; by induction on the input. -/
theorem foldlM_reads (tables : ρ → σ)
    (hround : ∀ r a s, f (tables r) a = .ok s ↔ ∃ b, read a = some b ∧ valid r b ∧ s = tables (store r b))
    (l : List α) (r : ρ) (s : σ) : l.foldlM f (tables r) = .ok s ↔
      ∃ bs, l.mapM read = some bs ∧ AllValid valid store r bs ∧ s = tables (bs.foldl store r) := by
  induction l generalizing r with
  | nil =>
    rw [List.foldlM_nil, pure_eq_ok, List.mapM_nil]
    constructor
    · rintro rfl
      exact ⟨[], rfl, trivial, rfl⟩
    · rintro ⟨bs, hbs, -, rfl⟩
      obtain rfl := Option.some.inj hbs
      rfl
  | cons a l ih =>
    rw [List.foldlM_cons, bind_eq_ok, List.mapM_cons]
    constructor
    · rintro ⟨mid, hfirst, hrest⟩
      obtain ⟨b, hb, hvalid, rfl⟩ := (hround r a mid).mp hfirst
      obtain ⟨bs, hbs, hall, rfl⟩ := (ih (store r b)).mp hrest
      exact ⟨b :: bs, by rw [hb, hbs]; rfl, ⟨hvalid, hall⟩, rfl⟩
    · rintro ⟨cs, hcs, hall, rfl⟩
      obtain ⟨b, hb, hcs⟩ := Option.bind_eq_some_iff.mp hcs
      obtain ⟨bs, hbs, hcs⟩ := Option.bind_eq_some_iff.mp hcs
      obtain rfl := Option.some.inj hcs
      exact ⟨tables (store r b), (hround r a _).mpr ⟨b, hb, hall.1, rfl⟩, (ih (store r b)).mpr ⟨bs, hbs, hall.2, rfl⟩⟩

/-- What was read stands in the input. -/
theorem mem_mapM {l : List α} {bs : List β} (h : l.mapM read = some bs) {b : β} (hb : b ∈ bs) :
    ∃ a ∈ l, read a = some b := by
  induction l generalizing bs with
  | nil =>
    obtain rfl := Option.some.inj h
    cases hb
  | cons a l ih =>
    rw [List.mapM_cons] at h
    obtain ⟨b', hb', h⟩ := Option.bind_eq_some_iff.mp h
    obtain ⟨bs', hbs', h⟩ := Option.bind_eq_some_iff.mp h
    obtain rfl := Option.some.inj h
    rcases List.mem_cons.mp hb with rfl | hb
    · exact ⟨a, List.mem_cons_self, hb'⟩
    · obtain ⟨a', ha', hread⟩ := ih hbs' hb
      exact ⟨a', List.mem_cons_of_mem _ ha', hread⟩

end Cs564
