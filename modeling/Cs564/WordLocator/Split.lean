import Cs564.WordLocator.Search

/-!
# Splitting a node

`Dictionary::Node::Split` cuts the prefix of a node in two and hands the counts and the children down to a new node
with the rest.  Wherever below the root the node stands, prefixes stay non-empty and siblings stay apart, the counts
stay at their paths, and so `Search` answers as before (`split_keeps`).
-/

namespace Cs564.WordLocator

/-- The node that a path of children's indices leads to. -/
def Node.at? : Node → List Nat → Option Node
  | curr, [] => some curr
  | curr, k :: path => if k < curr.children.length then (curr.child k).at? path else none

/-- `Split(node, iDiff)` for the node that the indices lead to. -/
def Node.splitAt : Node → List Nat → Nat → Node
  | curr, [], iDiff => curr.split iDiff
  | curr, k :: path, iDiff => curr.setChild k ((curr.child k).splitAt path iDiff)

section SplitAt

variable {curr node : Node} {path : List Nat} {i k : Nat}

theorem at?_cons (h : curr.at? (k :: path) = some node) :
    k < curr.children.length ∧ (curr.child k).at? path = some node := by
  rw [Node.at?] at h
  by_cases hk : k < curr.children.length
  · rw [if_pos hk] at h
    exact ⟨hk, h⟩
  · rw [if_neg hk] at h
    cases h

theorem child_mem_children (hk : k < curr.children.length) : curr.child k ∈ curr.children := by
  rw [Node.child, List.getD_eq_getElem _ _ hk]
  exact List.getElem_mem hk

/-- The node keeps its place among its siblings. -/
theorem head_splitAt (curr : Node) (path : List Nat) (hi : 0 < i) :
    (curr.splitAt path i).pfx.head? = curr.pfx.head? := by
  cases path with
  | nil =>
    change (curr.pfx.take i).head? = _
    rw [List.head?_take, if_neg (by omega)]
  | cons k path => rfl

/-- Prefixes stay non-empty and siblings apart; by induction on the way down to the node. -/
theorem Node.Radix.splitAt (h : curr.Radix) (hnode : curr.at? path = some node) (hi : 0 < i)
    (hlt : i < node.pfx.length) : (curr.splitAt path i).Radix := by
  induction path generalizing curr with
  | nil =>
    obtain rfl : curr = node := Option.some.inj hnode
    -- the new node takes over the children, which stay the siblings they were
    have hlower : (⟨curr.children, curr.counts, curr.pfx.drop i⟩ : Node).Radix :=
      .of_children (fun child hchild => ⟨h.pfx_ne_nil child (.child hchild), h.of_mem hchild⟩)
        (h.heads_nodup curr (.inl rfl))
    have hne : curr.pfx.drop i ≠ [] := mt List.drop_eq_nil_iff.mp (Nat.not_le.mpr hlt)
    refine .of_children ?_ (by simp [Node.splitAt, Node.split, Node.heads])
    intro child hchild
    rw [List.mem_singleton.mp hchild]
    exact ⟨hne, hlower⟩
  | cons k path ih =>
    obtain ⟨hk, hnode⟩ := at?_cons hnode
    have hmem := child_mem_children hk
    have hbelow := ih (h.of_mem hmem) hnode
    obtain ⟨ch, rest, hpfx⟩ := List.exists_cons_of_ne_nil (h.pfx_ne_nil _ (.child hmem))
    have hhead : ((curr.child k).splitAt path i).pfx.head? = some ch := by
      rw [head_splitAt _ path hi, hpfx, List.head?_cons]
    have hnext := h.next_child hk (by rw [hpfx, List.head?_cons])
    refine .of_children ?_ ?_
    · intro child hchild
      rcases List.mem_or_eq_of_mem_set hchild with hold | rfl
      · exact ⟨h.pfx_ne_nil child (.child hold), h.of_mem hold⟩
      · refine ⟨?_, hbelow⟩
        rintro hnil
        rw [hnil] at hhead
        cases hhead
    · rw [Node.splitAt, Node.heads, map_head_setChild hnext hhead]
      exact h.heads_nodup curr (.inl rfl)

/-- The counts at every path below a node stay when a child of it is changed without changing the counts at the paths
through that child. -/
private theorem counts_setChild (h : curr.Radix) (hk : k < curr.children.length) {next : Node}
    (hhead : next.pfx.head? = (curr.child k).pfx.head?)
    (hcounts : ∀ word, (placeIn next word).counts = (placeIn (curr.child k) word).counts) (word : List Char) :
    (place (curr.setChild k next) word).counts = (place curr word).counts := by
  obtain ⟨ch, rest, hpfx⟩ := List.exists_cons_of_ne_nil (h.pfx_ne_nil _ (.child (child_mem_children hk)))
  have hch : (curr.child k).pfx.head? = some ch := by rw [hpfx, List.head?_cons]
  have hnext := h.next_child hk hch
  rw [place_setChild hnext (hhead.trans hch)]
  by_cases hword : word.head? = some ch
  · rw [if_pos hword, hcounts, place_ne_nil hnext hword]
  · rw [if_neg hword]

/-- The counts stay at their paths; the new upper node has none. -/
private theorem counts_splitAt (h : curr.Radix) (hnode : curr.at? path = some node) (hi : 0 < i)
    (hlt : i < node.pfx.length) : (∀ word, (placeIn (curr.splitAt path i) word).counts = (placeIn curr word).counts) ∧
      (path ≠ [] → ∀ word, (place (curr.splitAt path i) word).counts = (place curr word).counts) := by
  induction path generalizing curr with
  | nil =>
    obtain rfl : curr = node := Option.some.inj hnode
    refine ⟨fun word => ?_, fun hne => absurd rfl hne⟩
    rw [Node.splitAt, placeIn_split curr hlt]
    by_cases hword : word = curr.pfx.take i
    · -- the path that ends at the cut ended inside the prefix before
      have hnot : ¬ curr.pfx <+: word := by
        intro hpre
        have hle := hpre.length_le
        rw [hword, List.length_take] at hle
        omega
      have hpre : word <+: curr.pfx := hword ▸ List.take_prefix _ _
      rw [if_pos hword, placeIn, if_neg hnot, if_pos hpre, Place.counts_node, Place.counts_edge]
    · rw [if_neg hword]
  | cons k path ih =>
    obtain ⟨hk, hnode⟩ := at?_cons hnode
    have hbelow := (ih (h.of_mem (child_mem_children hk)) hnode).1
    have hplace := counts_setChild h hk (head_splitAt (curr.child k) path hi) hbelow
    refine ⟨fun word => ?_, fun _ => hplace⟩
    unfold placeIn
    change (if curr.pfx <+: word then place (curr.splitAt (k :: path) i) (word.drop curr.pfx.length)
      else if word <+: curr.pfx then .edge else .off : Place).counts = _
    by_cases hpre : curr.pfx <+: word
    · rw [if_pos hpre, if_pos hpre]
      exact hplace _
    · rw [if_neg hpre, if_neg hpre]

end SplitAt

/-- `Split` of a node below the root of a radix tree, at an index inside the node's prefix, leaves a radix tree in which
every search has the answer it had. -/
theorem split_keeps {root node : Node} (hroot : root.Radix) {path : List Nat} (hnode : root.at? path = some node)
    (hbelow : path ≠ []) {i : Nat} (hi : 0 < i) (hlt : i < node.pfx.length) :
    (root.splitAt path i).Radix ∧
      ∀ (word : List Char) (n : Nat), 1 ≤ n → (root.splitAt path i).search word n = root.search word n := by
  refine ⟨hroot.splitAt hnode hi hlt, fun word n hn => ?_⟩
  have hcounts := (counts_splitAt hroot hnode hi hlt).2 hbelow word
  rw [search_eq_counts _ word hn, search_eq_counts root word hn, hcounts]

/-- "song" is cut into "so" and "ng". -/
theorem split_keeps_song :
    let song : Node := { children := [], counts := [2, 5], pfx := ['s', 'o', 'n', 'g'] }
    let root : Node := { children := [song], counts := [], pfx := [] }
    (root.splitAt [0] 2).Radix ∧
      ∀ (word : List Char) (n : Nat), 1 ≤ n → (root.splitAt [0] 2).search word n = root.search word n := by
  intro song root
  have hsong : song.Radix := .of_leaf rfl
  have hroot : root.Radix := .of_children (by simp [root, song, hsong]) (by simp [Node.heads, root])
  exact split_keeps hroot (show root.at? [0] = some song from rfl) (by decide) (by decide) (by decide)

end Cs564.WordLocator
