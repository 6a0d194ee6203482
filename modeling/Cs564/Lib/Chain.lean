import Mathlib.Data.List.Basic
import Mathlib.Logic.Function.Basic

/-!
# Linked chains

A linked list in a store is a successor function and a start.  `Chain next a l z` says that following `next` from `a`
visits the elements of `l` in order and arrives at `z`; `walk` follows the links.  Chains are taken apart by
`chain_append`, and survive changes of the links outside of the list (`Chain.congr`).  An element is put in with two
changes of links and taken out with one (`Chain.insert`, `Chain.remove`).
-/

namespace Cs564

variable {α : Type}

/-- Following `next` from `a` visits `l` and arrives at `z`. -/
def Chain (next : α → α) : α → List α → α → Prop
  | a, [], z => a = z
  | a, x :: l, z => a = x ∧ Chain next (next x) l z

@[simp] theorem chain_nil {next : α → α} {a z : α} : Chain next a [] z ↔ a = z := Iff.rfl

@[simp] theorem chain_cons {next : α → α} {a x z : α} {l : List α} :
    Chain next a (x :: l) z ↔ a = x ∧ Chain next (next x) l z := Iff.rfl

theorem chain_append {next : α → α} {a z : α} {l₁ l₂ : List α} :
    Chain next a (l₁ ++ l₂) z ↔ ∃ m, Chain next a l₁ m ∧ Chain next m l₂ z := by
  induction l₁ generalizing a with
  | nil => simp
  | cons x l ih => simp [ih, and_assoc]

theorem Chain.congr {next next' : α → α} {a z : α} {l : List α} (h : Chain next a l z)
    (hl : ∀ x ∈ l, next' x = next x) : Chain next' a l z := by
  induction l generalizing a with
  | nil => exact h
  | cons x l ih =>
    refine ⟨h.1, ?_⟩
    rw [hl x (by simp)]
    exact ih h.2 fun y hy => hl y (by simp [hy])

/-- The start of a chain is its first element. -/
theorem Chain.start_eq {next : α → α} {a z : α} {l : List α} (h : Chain next a l z) : a = l.headD z := by
  cases l with
  | nil => exact h
  | cons x l => exact h.1

/-- The successor of an element of a chain. -/
theorem Chain.next_eq {next : α → α} {a x z : α} {l₁ l₂ : List α} (h : Chain next a (l₁ ++ x :: l₂) z) :
    next x = l₂.headD z := by
  obtain ⟨m, -, hm⟩ := chain_append.mp h
  exact hm.2.start_eq

/-- In front of an element there are only elements whose successors are not behind it. -/
theorem Chain.next_mem {next : α → α} {a s z x : α} {l₁ l₂ : List α} (h : Chain next s (l₁ ++ a :: l₂) z) (hx : x ∈ l₁) :
    next x ∈ l₁ ++ [a] := by
  obtain ⟨front, back, rfl⟩ := List.mem_iff_append.mp hx
  rw [List.append_assoc, List.cons_append] at h
  rw [h.next_eq]
  cases back <;> simp

section Update

variable [DecidableEq α] {next : α → α} {s z : α}

theorem Chain.update {l : List α} (h : Chain next s l z) {x : α} (hx : x ∉ l) (y : α) :
    Chain (Function.update next x y) s l z :=
  h.congr fun _ hw => Function.update_of_ne (ne_of_mem_of_not_mem hw hx) _ _

/-- A new first element. -/
theorem Chain.push {l : List α} (h : Chain next s l z) {m : α} (hm : m ∉ l) :
    Chain (Function.update next m s) m (m :: l) z := by
  refine ⟨rfl, ?_⟩
  rw [Function.update_self]
  exact h.update hm s

/-- A new element behind `a`. -/
theorem Chain.insert {l₁ l₂ : List α} {a m : α} (h : Chain next s (l₁ ++ a :: l₂) z) (hnodup : (l₁ ++ a :: l₂).Nodup)
    (hm : m ∉ l₁ ++ a :: l₂) :
    Chain (Function.update (Function.update next m (next a)) a m) s (l₁ ++ a :: m :: l₂) z := by
  obtain ⟨b, hfront, rfl, hback⟩ := chain_append.mp h
  rw [List.nodup_append] at hnodup
  obtain ⟨-, htail, hapart⟩ := hnodup
  have ha : b ∉ l₁ := fun hb => hapart b hb b (List.mem_cons_self ..) rfl
  have ha' : b ∉ l₂ := (List.nodup_cons.mp htail).1
  simp only [List.mem_append, List.mem_cons, not_or] at hm
  rw [chain_append]
  refine ⟨b, (hfront.update hm.1 _).update ha _, rfl, Function.update_self .., ?_⟩
  rw [Function.update_of_ne hm.2.1, Function.update_self]
  exact (hback.update hm.2.2 _).update ha' _

/-- The element behind `a` is taken out. -/
theorem Chain.remove {l₁ l₂ : List α} {a m : α} (h : Chain next s (l₁ ++ a :: m :: l₂) z)
    (hnodup : (l₁ ++ a :: m :: l₂).Nodup) : Chain (Function.update next a (next m)) s (l₁ ++ a :: l₂) z := by
  obtain ⟨b, hfront, rfl, -, hback⟩ := chain_append.mp h
  rw [List.nodup_append] at hnodup
  obtain ⟨-, htail, hapart⟩ := hnodup
  have ha : b ∉ l₁ := fun hb => hapart b hb b (List.mem_cons_self ..) rfl
  have ha' : b ∉ l₂ := fun hb => (List.nodup_cons.mp htail).1 (List.mem_cons_of_mem _ hb)
  rw [chain_append]
  refine ⟨b, hfront.update ha _, rfl, ?_⟩
  rw [Function.update_self]
  exact hback.update ha' _

end Update

section Walk

variable [DecidableEq α]

/-- The elements met when following `next` from `a` to `z`, in at most `fuel` steps. -/
def walk (next : α → α) (z : α) : Nat → α → Option (List α)
  | 0, a => if a = z then some [] else none
  | fuel + 1, a => if a = z then some [] else (walk next z fuel (next a)).map (a :: ·)

theorem Chain.walk_eq {next : α → α} {a z : α} {l : List α} (h : Chain next a l z) (hz : z ∉ l) {fuel : Nat}
    (hfuel : l.length ≤ fuel) : walk next z fuel a = some l := by
  induction l generalizing a fuel with
  | nil => cases fuel <;> simp [walk, chain_nil.1 h]
  | cons x l ih =>
    obtain ⟨f, rfl⟩ : ∃ f, fuel = f + 1 := ⟨fuel - 1, by simp at hfuel; omega⟩
    obtain ⟨rfl, h⟩ := h
    simp only [List.mem_cons, not_or] at hz
    have hne : a ≠ z := Ne.symm hz.1
    simp [walk, hne, ih h hz.2 (by simpa using hfuel)]

end Walk

end Cs564
