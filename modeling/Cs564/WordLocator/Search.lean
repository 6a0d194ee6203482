import Cs564.WordLocator.Insertion
/-!
# Search in a radix tree

The nodes of a tree are told apart by their paths: `Leads` says that the prefixes on the way to a node concatenate to
a word.  In a tree whose prefixes are not empty and whose siblings begin with different characters, `Search` finds the
node of its word and stays inside the word and the counts (`search_exact`).  What a search has found, it finds again
after any further insertion (`search_insert`).
-/

namespace Cs564.WordLocator

/-! ### Nodes and their paths -/

/-- `node` stands somewhere below another node. -/
inductive Node.Under : Node → Node → Prop
  | child {curr child : Node} : child ∈ curr.children → Under curr child
  | deeper {curr child node : Node} : child ∈ curr.children → Under child node → Under curr node

/-- The prefixes below `curr` on the way to `node`, its own included, concatenate to the path. -/
inductive Node.Leads : Node → List Char → Node → Prop
  | here (curr : Node) : Leads curr [] curr
  | deeper {curr child node : Node} {path : List Char} : child ∈ curr.children → Leads child path node →
      Leads curr (child.pfx ++ path) node

/-- The first characters by which `Next` tells the children apart. -/
def Node.heads (curr : Node) : List (Option Char) := curr.children.map fun child => child.pfx.head?

/-- Prefixes below the root are not empty, and the prefixes of siblings begin with different characters. -/
structure Node.Radix (root : Node) : Prop where
  pfx_ne_nil : ∀ node, root.Under node → node.pfx ≠ []
  heads_nodup : ∀ node, node = root ∨ root.Under node → node.heads.Nodup

section Nodes

variable {curr child node node' : Node} {path : List Char} {ch : Char} {k : Nat}

theorem Node.Radix.of_mem (h : curr.Radix) (hchild : child ∈ curr.children) : child.Radix where
  pfx_ne_nil := fun node hnode => h.pfx_ne_nil node (.deeper hchild hnode)
  heads_nodup := by
    rintro node (rfl | hnode)
    · exact h.heads_nodup node (.inr (.child hchild))
    · exact h.heads_nodup node (.inr (.deeper hchild hnode))

theorem Node.Radix.of_children (hchildren : ∀ child ∈ curr.children, child.pfx ≠ [] ∧ child.Radix)
    (hheads : curr.heads.Nodup) : curr.Radix where
  pfx_ne_nil := by
    intro node hnode
    cases hnode with
    | child hchild => exact (hchildren _ hchild).1
    | deeper hchild hnode => exact (hchildren _ hchild).2.pfx_ne_nil node hnode
  heads_nodup := by
    rintro node (rfl | hnode)
    · exact hheads
    · cases hnode with
      | child hchild => exact (hchildren _ hchild).2.heads_nodup _ (.inl rfl)
      | deeper hchild hnode => exact (hchildren _ hchild).2.heads_nodup node (.inr hnode)

theorem Node.Radix.of_leaf (h : curr.children = []) : curr.Radix :=
  .of_children (by simp [h]) (by simp [Node.heads, h])

theorem child_mem (h : curr.next ch = some k) : curr.child k ∈ curr.children := by
  have hk := (next_some h).1
  rw [Node.child, List.getD_eq_getElem _ _ hk]
  exact List.getElem_mem hk

/-- `Next` finds every child by the character it begins with. -/
theorem Node.Radix.next_child (h : curr.Radix) (hk : k < curr.children.length)
    (hhead : (curr.child k).pfx.head? = some ch) : curr.next ch = some k := by
  rw [Node.child, List.getD_eq_getElem _ _ hk] at hhead
  rw [Node.next, List.findIdx?_eq_some_iff_getElem]
  refine ⟨hk, by simp [hhead], ?_⟩
  intro j hj hsame
  have hnodup := List.pairwise_iff_getElem.mp (h.heads_nodup curr (.inl rfl)) j k
  have hne := hnodup (by simp [Node.heads]; omega) (by simpa [Node.heads] using hk) hj
  simp only [Node.heads, List.getElem_map, ne_eq] at hne
  apply hne
  rw [hhead]
  simpa using hsame

/-- `Next` finds the only child that begins with the character. -/
theorem Node.Radix.next_eq (h : curr.Radix) (hchild : child ∈ curr.children) (hhead : child.pfx.head? = some ch) :
    ∃ k, curr.next ch = some k ∧ curr.child k = child := by
  obtain ⟨k, hk, rfl⟩ := List.getElem_of_mem hchild
  have hget : curr.child k = curr.children[k] := List.getD_eq_getElem _ _ hk
  exact ⟨k, h.next_child hk (by rw [hget]; exact hhead), hget⟩

/-- The node that a path leads to stands at the path's place. -/
theorem Node.Leads.place_eq (h : curr.Radix) (hleads : curr.Leads path node) : place curr path = .node node.counts := by
  induction hleads with
  | here curr => exact place_nil curr
  | deeper hchild hpath ih =>
    obtain ⟨ch, rest, hpfx⟩ := List.exists_cons_of_ne_nil (h.pfx_ne_nil _ (.child hchild))
    obtain ⟨k, hk, rfl⟩ := h.next_eq hchild (List.head?_eq_some_iff.mpr ⟨rest, hpfx⟩)
    rw [place_append hk]
    exact ih (h.of_mem hchild)

/-- No two nodes have the same path. -/
theorem Node.Leads.unique (h : curr.Radix) (hleads : curr.Leads path node) (hleads' : curr.Leads path node') :
    node = node' := by
  induction hleads with
  | here curr =>
    generalize hnil : ([] : List Char) = path at hleads'
    cases hleads' with
    | here => rfl
    | deeper hchild' _ => exact absurd (List.append_eq_nil_iff.mp hnil.symm).1 (h.pfx_ne_nil _ (.child hchild'))
  | @deeper curr child node path hchild hpath ih =>
    obtain ⟨ch, rest, hpfx⟩ := List.exists_cons_of_ne_nil (h.pfx_ne_nil _ (.child hchild))
    generalize hsame : child.pfx ++ path = whole at hleads'
    cases hleads' with
    | here => rw [hpfx] at hsame; simp at hsame
    | @deeper _ child' _ path' hchild' hpath' =>
      obtain ⟨ch', rest', hpfx'⟩ := List.exists_cons_of_ne_nil (h.pfx_ne_nil _ (.child hchild'))
      have hch : ch = ch' := by
        rw [hpfx, hpfx'] at hsame
        exact (List.cons.inj hsame).1
      obtain ⟨k, hk, hk'⟩ := h.next_eq hchild (List.head?_eq_some_iff.mpr ⟨rest, hpfx⟩)
      obtain ⟨j, hj, hj'⟩ := h.next_eq hchild' (List.head?_eq_some_iff.mpr ⟨rest', hpfx'⟩)
      -- both children begin with the first character of the path
      obtain rfl : k = j := by
        rw [hch, hj] at hk
        exact (Option.some.inj hk).symm
      obtain rfl : child = child' := hk'.symm.trans hj'
      obtain rfl : path = path' := List.append_cancel_left hsame
      exact ih (h.of_mem hchild) hpath'

/-- At a place with counts there is a node. -/
theorem exists_leads {curr : Node} {path : List Char} {counts : List Nat} (hplace : place curr path = .node counts) :
    ∃ node, curr.Leads path node ∧ node.counts = counts := by
  induction hn : path.length using Nat.strongRecOn generalizing curr path with
  | ind n ih =>
    cases path with
    | nil =>
      rw [place_nil, Place.node.injEq] at hplace
      exact ⟨curr, .here curr, hplace⟩
    | cons front rest =>
      cases hnext : curr.next front with
      | none =>
        rw [place_none hnext] at hplace
        exact absurd hplace (by simp)
      | some k =>
        obtain ⟨tail, htail⟩ := next_some_cons hnext
        by_cases hpre : (curr.child k).pfx <+: front :: rest
        · obtain ⟨q, hq⟩ := hpre
          rw [← hq, place_append hnext] at hplace
          have hshort : q.length < n := by
            rw [← hn, ← hq, List.length_append, htail, List.length_cons]
            omega
          obtain ⟨node, hnode, hcounts⟩ := ih q.length hshort hplace rfl
          exact ⟨node, hq ▸ .deeper (child_mem hnext) hnode, hcounts⟩
        · rw [place_cons hnext, placeIn, if_neg hpre] at hplace
          split at hplace <;> simp at hplace

end Nodes

/-! ### The accesses of a search -/

/-- `word.substr(pos)`, `none` where it throws `std::out_of_range`. -/
def substrFrom? (word : List Char) (pos : Nat) : Option (List Char) :=
  if pos ≤ word.length then some (word.drop pos) else none

/-- `Node::Next` from the `i`-th child on, `none` for the front of an empty prefix. -/
def nextFrom? (nextCh : Char) : List Node → Nat → Option (Option Nat)
  | [], _ => some none
  | child :: rest, i =>
    match child.pfx with
    | [] => none
    | ch :: _ => if ch = nextCh then some (some i) else nextFrom? nextCh rest (i + 1)

/-- The loop of `Node::Search` with its accesses checked: `none` for one out of bounds, and when the loop has not ended
after the given number of rounds. -/
def searchFrom? : Nat → Node → List Char → Nat → Option (Option Node)
  | 0, curr, word, i => if i < word.length then none else some (some curr)
  | rounds + 1, curr, word, i =>
    if i < word.length then do
      let sub ← substrFrom? word i
      let front ← sub.head?
      match ← nextFrom? front curr.children 0 with
      | none => return none
      | some k =>
        let next ← curr.children[k]?
        let preSize := next.pfx.length
        let subSize := sub.length
        if preSize = subSize ∧ next.pfx = sub then
          searchFrom? rounds next word (i + subSize + 1)
        else if preSize < subSize ∧ next.pfx = sub.take preSize then
          searchFrom? rounds next word (i + (preSize - 1) + 1)
        else return none
    else return some curr

/-- `Node::Search` with its accesses checked, in one round for every character of the word. -/
def Node.search? (root : Node) (word : List Char) (occurrence : Nat) : Option Nat := do
  match ← searchFrom? word.length root word 0 with
  | none => return 0
  | some curr =>
    if occurrence ≤ curr.counts.length then curr.counts[(occurrence + (2 ^ 32 - 1)) % 2 ^ 32]?
    else return 0

section Accesses

variable {curr : Node} {word : List Char}

private theorem nextFrom?_eq {children : List Node} (h : ∀ child ∈ children, child.pfx ≠ []) (nextCh : Char) (i : Nat) :
    nextFrom? nextCh children i =
      some ((children.findIdx? fun child => child.pfx.head? == some nextCh).map (· + i)) := by
  induction children generalizing i with
  | nil => simp [nextFrom?]
  | cons child rest ih =>
    obtain ⟨ch, tail, htail⟩ := List.exists_cons_of_ne_nil (h child (by simp))
    rw [nextFrom?, htail]
    by_cases hch : ch = nextCh
    · simp [hch, List.findIdx?_cons, htail]
    · simp only [if_neg hch]
      rw [ih (fun c hc => h c (by simp [hc])), List.findIdx?_cons, htail]
      simp only [List.head?_cons, Option.some_beq_some, beq_iff_eq, hch, if_false, Option.map_map]
      congr 2
      funext j
      simp only [Function.comp_apply]
      omega

/-- The front of every child's prefix that `Next` looks at is there. -/
theorem Node.Radix.nextFrom?_eq (h : curr.Radix) (nextCh : Char) :
    nextFrom? nextCh curr.children 0 = some (curr.next nextCh) := by
  rw [WordLocator.nextFrom?_eq (fun child hchild => h.pfx_ne_nil child (.child hchild))]
  simp [Node.next]

/-- The loop of `Search` ends before its rounds are used up, and no access fails. -/
private theorem searchFrom?_eq (rounds : Nat) (h : curr.Radix) (i : Nat) (hrounds : word.length - i ≤ rounds) :
    searchFrom? rounds curr word i = some (searchFrom (rounds + 1) curr word i) := by
  induction rounds generalizing curr i with
  | zero =>
    have hend : ¬ i < word.length := by omega
    have hdrop : word.drop i = [] := List.drop_eq_nil_of_le (by omega)
    simp [searchFrom?, searchFrom, hend, hdrop]
  | succ rounds ih =>
    by_cases hi : i < word.length
    · have hsub : substrFrom? word i = some (word.drop i) := if_pos (Nat.le_of_lt hi)
      obtain ⟨front, rest, hdrop⟩ := List.exists_cons_of_ne_nil (mt List.drop_eq_nil_iff.mp (Nat.not_le.mpr hi))
      rw [searchFrom?, if_pos hi, hsub, searchFrom, hdrop]
      simp only [Option.bind_eq_bind, Option.bind_some, List.head?_cons, h.nextFrom?_eq]
      cases hnext : curr.next front with
      | none => rfl
      | some k =>
        have hk := (next_some hnext).1
        have hchild : curr.children[k]? = some (curr.child k) := by
          rw [List.getElem?_eq_getElem hk, Node.child, List.getD_eq_getElem _ _ hk]
        have hradix := h.of_mem (child_mem hnext)
        have hpos := List.length_pos_of_ne_nil (h.pfx_ne_nil _ (.child (child_mem hnext)))
        simp only [hchild, Option.bind_some]
        split
        · exact ih hradix _ (by omega)
        · split
          · exact ih hradix _ (by omega)
          · rfl
    · have hdrop : word.drop i = [] := List.drop_eq_nil_of_le (by omega)
      rw [searchFrom?, if_neg hi, searchFrom, hdrop]
      rfl

/-- `Search` stays inside the word, the prefixes and the counts. -/
theorem search?_eq (h : curr.Radix) (word : List Char) {n : Nat} (hn : 1 ≤ n) (hmax : n < 2 ^ 32) :
    curr.search? word n = some (curr.search word n) := by
  have hwrap : (n + (2 ^ 32 - 1)) % 2 ^ 32 = n - 1 := by omega
  rw [Node.search?, searchFrom?_eq word.length h 0 (by omega), Node.search, hwrap]
  simp only [Option.bind_eq_bind, Option.bind_some]
  cases searchFrom (word.length + 1) curr word 0 with
  | none => rfl
  | some last =>
    by_cases hle : n ≤ last.counts.length
    · have hlt : n - 1 < last.counts.length := by omega
      simp [hle, hlt]
    · simp [hle]

end Accesses

/-! ### What a search returns -/

/-- `Search` returns the count with this number of the node that its word leads to, 0 if there is no such node or no
such count; it ends in at most one round for every character and stays inside the word and the counts. -/
theorem search_exact {root : Node} (hroot : root.Radix) (word : List Char) {n : Nat} (hn : 1 ≤ n)
    (hmax : n < 2 ^ 32) :
    (∀ node, root.Leads word node → root.search word n = node.counts.getD (n - 1) 0 ∧
      ∀ node', root.Leads word node' → node' = node) ∧
    ((∀ node, ¬ root.Leads word node) → root.search word n = 0) ∧
    root.search? word n = some (root.search word n) := by
  refine ⟨?_, ?_, search?_eq hroot word hn hmax⟩
  · intro node hnode
    refine ⟨?_, fun node' hnode' => hnode'.unique hroot hnode⟩
    rw [search_eq root word hn hmax, hnode.place_eq hroot, Place.counts_node]
  · intro hnone
    rw [search_eq root word hn hmax]
    cases hplace : place root word with
    | node counts =>
      obtain ⟨node, hnode, -⟩ := exists_leads hplace
      exact absurd hnode (hnone node)
    | edge => simp
    | off => simp

/-- In the tree of the words `so` and `song`, `song` is found below `so`. -/
theorem search_exact_song :
    let ng : Node := { children := [], counts := [2, 5], pfx := ['n', 'g'] }
    let so : Node := { children := [ng], counts := [1], pfx := ['s', 'o'] }
    let root : Node := { children := [so], counts := [], pfx := [] }
    root.Leads ['s', 'o', 'n', 'g'] ng ∧ root.search ['s', 'o', 'n', 'g'] 2 = 5 := by
  intro ng so root
  have hng : ng.Radix := .of_leaf rfl
  have hso : so.Radix := .of_children (by simp [so, ng, hng]) (by simp [Node.heads, so])
  have hroot : root.Radix := .of_children (by simp [root, so, hso]) (by simp [Node.heads, root])
  have hleads : root.Leads ['s', 'o', 'n', 'g'] ng :=
    .deeper (show so ∈ root.children by simp [root]) (.deeper (show ng ∈ so.children by simp [so]) (.here ng))
  exact ⟨hleads, ((search_exact hroot _ (by decide) (by decide)).1 ng hleads).1⟩

/-! ### Searches after further insertions -/

/-- A count that `Search` has found in a tree, of insertions or not, is found again after any insertion. -/
theorem search_insert (root : Node) {w : List Char} (hw : w ≠ []) (c : Nat) (v : List Char) {n : Nat} (hn : 1 ≤ n)
    (hmax : n < 2 ^ 32) (hfound : root.search v n ≠ 0) : (root.insert w c).search v n = root.search v n := by
  obtain ⟨d, forks, hplace, -⟩ := insert_lands root hw c
  rw [search_eq root v hn hmax] at hfound ⊢
  rw [search_eq _ v hn hmax, hplace v]
  have hlt : n - 1 < (place root v).counts.length := by
    by_contra hge
    exact hfound (List.getD_eq_default _ _ (Nat.le_of_not_lt hge))
  unfold landed
  split
  -- the new count stands behind the earlier ones
  · rename_i hd
    rw [Place.counts_node, ← hd, List.getD_append _ _ _ _ hlt]
  · split
    · rw [Place.counts_node]
    · split
      · rename_i hoff
        rw [hoff.2, Place.counts_off] at hlt
        simp at hlt
      · rfl

theorem search_insert_song :
    let root := (Node.new []).insert ['s', 'o', 'n', 'g'] 1
    root.search ['s', 'o', 'n', 'g'] 1 = 1 ∧
      (root.insert ['s', 'o'] 2).search ['s', 'o', 'n', 'g'] 1 = root.search ['s', 'o', 'n', 'g'] 1 :=
  ⟨by decide, search_insert _ (by decide) 2 _ (by decide) (by decide) (by decide)⟩

end Cs564.WordLocator
