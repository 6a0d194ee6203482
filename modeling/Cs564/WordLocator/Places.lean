import Mathlib.Data.List.GetD
import Cs564.WordLocator.Dictionary
/-!
# Paths in the radix tree

A path of characters from a node ends at a node, inside a child's prefix, or nowhere: `place`.  `Search` returns what
the place of the word says (`search_eq`).  `Insert` puts its count at one place and changes no count elsewhere
(`insert_lands`); this place is the word itself, unless the word leaves the tree inside a prefix at least two
characters behind the node above: then `Split` cuts the prefix there, but the loop goes on only one character further
in the word, and the count lands at a longer path.
-/

namespace Cs564.WordLocator

/-- What stands at the end of a path: a node with its counts, a point inside a prefix, or nothing. -/
inductive Place where
  | node (counts : List Nat)
  | edge
  | off
deriving DecidableEq, Repr

namespace Place

/-- The counts of the node at a place, if there is one. -/
def counts? : Place → Option (List Nat)
  | node counts => some counts
  | edge => none
  | off => none

/-- The counts kept at a place. -/
def counts (here : Place) : List Nat := here.counts?.getD []

@[simp] theorem counts_node (counts : List Nat) : (node counts).counts = counts := rfl

@[simp] theorem counts_edge : edge.counts = [] := rfl

@[simp] theorem counts_off : off.counts = [] := rfl

end Place

/-- The place that a path leads to. -/
def place (curr : Node) : List Char → Place
  | [] => .node curr.counts
  | front :: rest =>
    match curr.next front with
    | none => .off
    | some k =>
      if (curr.child k).pfx <+: front :: rest then place (curr.child k) (rest.drop ((curr.child k).pfx.length - 1))
      else if front :: rest <+: (curr.child k).pfx then .edge
      else .off
termination_by path => path.length
decreasing_by
  simp only [List.length_drop, List.length_cons]
  omega

/-- The place of a path that begins with the prefix of `next`. -/
def placeIn (next : Node) (path : List Char) : Place :=
  if next.pfx <+: path then place next (path.drop next.pfx.length)
  else if path <+: next.pfx then .edge
  else .off

section Children

variable {curr next : Node} {ch : Char} {k : Nat}

/-! ### Children -/

theorem next_some (h : curr.next ch = some k) : k < curr.children.length ∧ (curr.child k).pfx.head? = some ch := by
  obtain ⟨hk, hhead, -⟩ := List.findIdx?_eq_some_iff_getElem.mp h
  refine ⟨hk, ?_⟩
  rw [Node.child, List.getD_eq_getElem _ _ hk]
  simpa using hhead

theorem next_some_cons (h : curr.next ch = some k) : ∃ rest, (curr.child k).pfx = ch :: rest :=
  List.head?_eq_some_iff.mp (next_some h).2

/-- A child is replaced by one that begins with the same character. -/
theorem map_head_setChild (h : curr.next ch = some k) (hhead : next.pfx.head? = some ch) :
    (curr.setChild k next).children.map (fun child => child.pfx.head?) = curr.children.map fun child => child.pfx.head? := by
  have hk := (next_some h).1
  have hold : (curr.children.map fun child => child.pfx.head?)[k]? = some (some ch) := by
    rw [List.getElem?_map, List.getElem?_eq_getElem hk, Option.map_some, ← (next_some h).2, Node.child,
      List.getD_eq_getElem _ _ hk]
  obtain ⟨hk', hget⟩ := List.getElem?_eq_some_iff.mp hold
  rw [Node.setChild, List.map_set, hhead, ← hget, List.set_getElem_self]

/-- It is found as before. -/
theorem next_setChild (h : curr.next ch = some k) (hhead : next.pfx.head? = some ch) (c : Char) :
    (curr.setChild k next).next c = curr.next c := by
  have hfind := congrArg (List.findIdx? fun head => head == some c) (map_head_setChild h hhead)
  rw [List.findIdx?_map, List.findIdx?_map] at hfind
  exact hfind

theorem child_setChild_self (hk : k < curr.children.length) : (curr.setChild k next).child k = next := by
  rw [Node.child, Node.setChild, List.getD_eq_getElem _ _ (by simpa using hk), List.getElem_set_self]

theorem child_setChild_ne {j : Nat} (hjk : j ≠ k) : (curr.setChild k next).child j = curr.child j := by
  rw [Node.child, Node.setChild, List.getD_eq_getElem?_getD, List.getElem?_set_ne (Ne.symm hjk), ←
    List.getD_eq_getElem?_getD, Node.child]

@[simp] theorem setChild_setChild {next' : Node} : (curr.setChild k next).setChild k next' = curr.setChild k next' := by
  simp [Node.setChild]

/-! ### Places -/

@[simp] theorem place_nil (curr : Node) : place curr [] = .node curr.counts := by
  rw [place]

theorem place_none (h : curr.next ch = none) (rest : List Char) : place curr (ch :: rest) = .off := by
  rw [place, h]

theorem place_cons (h : curr.next ch = some k) (rest : List Char) :
    place curr (ch :: rest) = placeIn (curr.child k) (ch :: rest) := by
  obtain ⟨tail, htail⟩ := next_some_cons h
  rw [place, placeIn, h]
  simp [htail]

theorem place_ne_nil (h : curr.next ch = some k) {path : List Char} (hpath : path.head? = some ch) :
    place curr path = placeIn (curr.child k) path := by
  obtain ⟨rest, rfl⟩ := List.head?_eq_some_iff.mp hpath
  exact place_cons h rest

theorem placeIn_append (next : Node) (path : List Char) : placeIn next (next.pfx ++ path) = place next path := by
  rw [placeIn, if_pos (List.prefix_append _ _), List.drop_left]

/-- The paths through a child are the child's paths behind its prefix. -/
theorem place_append (h : curr.next ch = some k) (path : List Char) :
    place curr ((curr.child k).pfx ++ path) = place (curr.child k) path := by
  obtain ⟨tail, htail⟩ := next_some_cons h
  rw [place_ne_nil h (by simp [htail]), placeIn_append]

/-- A path that ends before the child's prefix does. -/
theorem place_edge (h : curr.next ch = some k) {path : List Char} (hne : path ≠ [])
    (hpath : path <+: (curr.child k).pfx) (hlt : path.length < (curr.child k).pfx.length) :
    place curr path = .edge := by
  obtain ⟨tail, htail⟩ := next_some_cons h
  have hhead : path.head? = some ch := by
    obtain ⟨c, rest, rfl⟩ := List.exists_cons_of_ne_nil hne
    rw [htail, List.cons_prefix_cons] at hpath
    rw [hpath.1, List.head?_cons]
  have hnot : ¬ (curr.child k).pfx <+: path := fun hpre => absurd hpre.length_le (by omega)
  rw [place_ne_nil h hhead, placeIn, if_neg hnot, if_pos hpath]

/-- A path that parts from the child's prefix. -/
theorem place_off (h : curr.next ch = some k) {path : List Char} (hpath : path.head? = some ch)
    (hnot : ¬ (curr.child k).pfx <+: path) (hnot' : ¬ path <+: (curr.child k).pfx) : place curr path = .off := by
  rw [place_ne_nil h hpath, placeIn, if_neg hnot, if_neg hnot']

theorem place_setChild (h : curr.next ch = some k) (hhead : next.pfx.head? = some ch) (path : List Char) :
    place (curr.setChild k next) path = if path.head? = some ch then placeIn next path else place curr path := by
  cases path with
  | nil => simp [Node.setChild]
  | cons c rest =>
    have hnext := next_setChild h hhead
    by_cases hc : c = ch
    · subst hc
      rw [place_cons ((hnext c).trans h), child_setChild_self (next_some h).1, if_pos (List.head?_cons)]
    · rw [if_neg (by simpa using hc)]
      cases hj : curr.next c with
      | none => rw [place_none hj, place_none ((hnext c).trans hj)]
      | some j =>
        have hjk : j ≠ k := by
          rintro rfl
          have heq := (next_some hj).2.symm.trans (next_some h).2
          exact hc (Option.some.inj heq)
        rw [place_cons ((hnext c).trans hj), place_cons hj, child_setChild_ne hjk]

theorem place_addChild (h : curr.next ch = none) (hhead : next.pfx.head? = some ch) (path : List Char) :
    place (curr.addChild next) path = if path.head? = some ch then placeIn next path else place curr path := by
  have hnext : ∀ c, (curr.addChild next).next c =
      (curr.next c).or (if c = ch then some curr.children.length else none) := by
    intro c
    rw [Node.next, Node.addChild, List.findIdx?_append, Node.next]
    congr 1
    by_cases hc : c = ch
    · simp [hc, hhead]
    · simp [hc, hhead, Ne.symm hc]
  cases path with
  | nil => simp [Node.addChild]
  | cons c rest =>
    by_cases hc : c = ch
    · subst hc
      have hk : (curr.addChild next).next c = some curr.children.length := by
        rw [hnext c, h, if_pos rfl, Option.none_or]
      have hchild : (curr.addChild next).child curr.children.length = next := by
        simp [Node.child, Node.addChild]
      rw [place_cons hk, hchild, if_pos (List.head?_cons)]
    · rw [if_neg (by simpa using hc)]
      cases hj : curr.next c with
      | none =>
        rw [place_none hj, place_none]
        rw [hnext c, hj, if_neg hc, Option.none_or]
      | some j =>
        have hj' : (curr.addChild next).next c = some j := by
          rw [hnext c, hj, Option.some_or]
        have hchild : (curr.addChild next).child j = curr.child j := by
          simp [Node.child, Node.addChild, List.getElem?_append_left (next_some hj).1]
        rw [place_cons hj', place_cons hj, hchild]

end Children

/-! ### Search -/

theorem drop_drop_pfx {word sub : List Char} {i n : Nat} (hsub : word.drop i = sub) (hn : 0 < n) :
    word.drop (i + (n - 1) + 1) = sub.drop n := by
  rw [← hsub, List.drop_drop]
  congr 1
  omega

/-- The loop of `Search` ends at the node that the rest of the word leads to. -/
private theorem searchFrom_eq (fuel : Nat) (curr : Node) (word : List Char) (i : Nat)
    (hfuel : (word.drop i).length < fuel) :
    (searchFrom fuel curr word i).map (·.counts) = (place curr (word.drop i)).counts? := by
  induction fuel generalizing curr i with
  | zero => omega
  | succ fuel ih =>
    cases hsub : word.drop i with
    | nil => simp [searchFrom, hsub, Place.counts?]
    | cons front rest =>
      rw [hsub, List.length_cons] at hfuel
      cases hnext : curr.next front with
      | none =>
        rw [place_none hnext]
        simp [searchFrom, hsub, hnext, Place.counts?]
      | some k =>
        obtain ⟨tail, htail⟩ := next_some_cons hnext
        have hpos : 0 < (curr.child k).pfx.length := by simp [htail]
        simp only [searchFrom, hsub, hnext]
        by_cases hexact : (curr.child k).pfx = front :: rest
        · rw [if_pos ⟨by rw [hexact], hexact⟩]
          have hend : word.drop (i + (front :: rest).length + 1) = [] := by
            rw [Nat.add_assoc, ← List.drop_drop, hsub]
            simp
          rw [ih (curr.child k) _ (by rw [hend, List.length_nil]; omega), hend, ← hexact, place_nil]
          have hself := place_append hnext []
          rw [List.append_nil, place_nil] at hself
          rw [hself]
        · rw [if_neg fun h => hexact h.2]
          by_cases hpre : (curr.child k).pfx <+: front :: rest
          · obtain ⟨q, hq⟩ := hpre
            have hqne : q ≠ [] := by
              rintro rfl
              rw [List.append_nil] at hq
              exact hexact hq
            have hlt : (curr.child k).pfx.length < (front :: rest).length := by
              rw [← hq, List.length_append]
              have := List.length_pos_of_ne_nil hqne
              omega
            have hrest : word.drop (i + ((curr.child k).pfx.length - 1) + 1) = q := by
              rw [drop_drop_pfx hsub hpos, ← hq, List.drop_left]
            rw [if_pos ⟨hlt, by rw [← hq, List.take_left]⟩, ih (curr.child k) _ _, hrest, ← hq, place_append hnext]
            have hlen := congrArg List.length hq
            rw [List.length_append, List.length_cons] at hlen
            rw [hrest]
            omega
          · rw [if_neg, place_cons hnext, placeIn, if_neg hpre]
            · split <;> rfl
            · rintro ⟨-, htake⟩
              apply hpre
              rw [htake]
              exact List.take_prefix _ _

/-- `Search` looks at nothing of the tree but the counts at the word's place. -/
theorem search_eq_counts (root : Node) (word : List Char) {n : Nat} (hn : 1 ≤ n) :
    root.search word n =
      if n ≤ (place root word).counts.length then (place root word).counts.getD ((n + (2 ^ 32 - 1)) % 2 ^ 32) 0
      else 0 := by
  have hloop := searchFrom_eq (word.length + 1) root word 0 (by simp)
  rw [List.drop_zero] at hloop
  rw [Node.search, Place.counts, ← hloop]
  cases searchFrom (word.length + 1) root word 0 with
  | none =>
    rw [Option.map_none, Option.getD_none, List.length_nil, if_neg (by omega)]
  | some curr => rfl

/-- `Search` returns the count with this number at the word's place, 0 if there is none. -/
theorem search_eq (root : Node) (word : List Char) {n : Nat} (hn : 1 ≤ n) (hmax : n < 2 ^ 32) :
    root.search word n = (place root word).counts.getD (n - 1) 0 := by
  have hwrap : (n + (2 ^ 32 - 1)) % 2 ^ 32 = n - 1 := by omega
  rw [search_eq_counts root word hn, hwrap]
  by_cases hle : n ≤ (place root word).counts.length
  · rw [if_pos hle]
  · rw [if_neg hle, List.getD_eq_default _ _ (by omega)]

end Cs564.WordLocator
