import Mathlib.Data.List.Induction
import Cs564.WordLocator.Search
/-!
# The shape that insertions give the radix tree

A compact tree has no empty prefixes and no siblings that begin with the same character, and below the root every node
has counts or forks (`Compact`).  Every insertion keeps the prefixes apart, leaves no leaf without counts and appends its
count to one node (by `Inserted`, the list of what the rounds of `Insert` can do).  Its last part fails where the loop,
after it has split a prefix, goes on one character further in the word and meets the rest of that prefix again
(`Rejoins`): then the node of the cut keeps a single child and gets no count (`compact_iff`).
-/

namespace Cs564.WordLocator

/-- What holds of the tree of a dictionary. -/
structure Node.Compact (root : Node) : Prop where
  radix : root.Radix
  leaf_counts : ∀ node, root.Under node → node.children = [] → node.counts ≠ []
  forks : ∀ node, root.Under node → node.counts = [] → 2 ≤ node.children.length

/-- The word parts from a prefix, and behind the first character of what is left of it goes on as the prefix does. -/
inductive Node.Rejoins : Node → List Char → Prop
  | here {curr : Node} {front : Char} {rest : List Char} {k j : Nat} : curr.next front = some k →
      diff (curr.child k).pfx (front :: rest) = some j → rest.head? = (curr.child k).pfx[j]? →
      Rejoins curr (front :: rest)
  | deeper {curr : Node} {front : Char} {rest q : List Char} {k : Nat} : curr.next front = some k →
      front :: rest = (curr.child k).pfx ++ q → Rejoins (curr.child k) q → Rejoins curr (front :: rest)

/-! ### The rounds of an insertion -/

/-- The loop of `Node::Insert`, `none` if it has not ended after the given number of rounds. -/
def insertFrom? : Nat → Node → List Char → Nat → Nat → Option Node
  | 0, curr, word, i, _ => if i < word.length then none else some curr
  | rounds + 1, curr, word, i, count =>
    match word.drop i with
    | [] => some curr
    | front :: rest =>
      let sub := front :: rest
      match curr.next front with
      | none => some (curr.addChild ((Node.new sub).addCount count))
      | some k =>
        let next := curr.child k
        let subSize := sub.length
        let preSize := next.pfx.length
        match diff next.pfx sub with
        | none =>
          if preSize < subSize then
            (insertFrom? rounds next word (i + (preSize - 1) + 1) count).map (curr.setChild k)
          else if subSize < preSize then
            some (curr.setChild k ((next.split subSize).addCount count))
          else
            some (curr.setChild k (next.addCount count))
        | some iDiff => (insertFrom? rounds (next.split iDiff) word (i + 1) count).map (curr.setChild k)

/-- The loop of `Insert` ends before its rounds are used up. -/
theorem insertFrom?_eq (rounds : Nat) (curr : Node) (word : List Char) (i count : Nat)
    (hrounds : word.length - i ≤ rounds) :
    insertFrom? rounds curr word i count = some (insertFrom (rounds + 1) curr word i count) := by
  induction rounds generalizing curr i with
  | zero =>
    have hend : ¬ i < word.length := by omega
    have hdrop : word.drop i = [] := List.drop_eq_nil_of_le (by omega)
    simp [insertFrom?, insertFrom, hend, hdrop]
  | succ rounds ih =>
    rw [insertFrom?, insertFrom]
    cases hsub : word.drop i with
    | nil => rfl
    | cons front rest =>
      simp only
      cases hnext : curr.next front with
      | none => rfl
      | some k =>
        obtain ⟨tail, htail⟩ := next_some_cons hnext
        simp only
        cases hdiff : diff (curr.child k).pfx (front :: rest) with
        | none =>
          simp only
          split
          · rw [ih _ _ (by omega)]
            rfl
          · split <;> rfl
        | some j =>
          simp only
          rw [ih _ _ (by omega)]
          rfl

/-! ### The nodes below a node -/

section Each

variable {P : Node → Prop} {curr next : Node} {k : Nat}

/-- Every node below `curr` satisfies `P`. -/
def Node.Each (P : Node → Prop) (curr : Node) : Prop := ∀ node, curr.Under node → P node

theorem Node.Each.of_mem {child : Node} (h : curr.Each P) (hchild : child ∈ curr.children) :
    P child ∧ child.Each P :=
  ⟨h child (.child hchild), fun node hnode => h node (.deeper hchild hnode)⟩

theorem Node.Each.of_children (h : ∀ child ∈ curr.children, P child ∧ child.Each P) : curr.Each P := by
  intro node hnode
  cases hnode with
  | child hchild => exact (h _ hchild).1
  | deeper hchild hnode => exact (h _ hchild).2 node hnode

theorem Node.Each.setChild (h : curr.Each P) (hnext : P next) (hbelow : next.Each P) :
    (curr.setChild k next).Each P := by
  apply Node.Each.of_children
  intro child hchild
  rcases List.mem_or_eq_of_mem_set hchild with hold | rfl
  · exact h.of_mem hold
  · exact ⟨hnext, hbelow⟩

theorem Node.Each.addChild (h : curr.Each P) (hnext : P next) (hbelow : next.Each P) : (curr.addChild next).Each P := by
  apply Node.Each.of_children
  intro child hchild
  rcases List.mem_append.mp hchild with hold | hnew
  · exact h.of_mem hold
  · rw [List.mem_singleton.mp hnew]
    exact ⟨hnext, hbelow⟩

/-- What stands below a node depends on its children only. -/
theorem Node.Each.congr {curr' : Node} (h : curr.Each P) (hchildren : curr'.children = curr.children) :
    curr'.Each P :=
  .of_children fun _ hchild => h.of_mem (hchildren ▸ hchild)

theorem Node.Each.split {j : Nat} (h : curr.Each P) (hlower : P { curr with pfx := curr.pfx.drop j }) :
    (curr.split j).Each P := by
  apply Node.Each.of_children
  intro child hchild
  rw [List.mem_singleton.mp hchild]
  exact ⟨hlower, h.congr rfl⟩

end Each

/-! ### One insertion -/

section Insertion

variable {curr next after : Node} {sub : List Char} {ch : Char} {count k j : Nat}

theorem split_next :
    (curr.split j).next ch = if (curr.pfx)[j]? = some ch then some 0 else none := by
  have hdrop : (curr.pfx.drop j).head? = (curr.pfx)[j]? := List.head?_drop
  rw [Node.split, Node.next]
  simp only [List.findIdx?_cons, List.findIdx?_nil, hdrop, beq_iff_eq, Option.map_none]

theorem Inserted.pfx_eq (h : Inserted count curr sub after) : after.pfx = curr.pfx := by
  cases h <;> rfl

theorem Inserted.counts_eq (h : Inserted count curr sub after) : after.counts = curr.counts := by
  cases h <;> rfl

/-- A child is added where `Next` finds none, and else one is changed. -/
theorem Inserted.length_eq {front : Char} {rest : List Char} (h : Inserted count curr (front :: rest) after) :
    after.children.length = curr.children.length + if (curr.next front).isNone then 1 else 0 := by
  cases h with
  | new hnext => simp [Node.addChild, hnext]
  | deeper hnext _ _ => simp [Node.setChild, hnext]
  | cut hnext _ _ => simp [Node.setChild, hnext]
  | same hnext _ => simp [Node.setChild, hnext]
  | parts hnext _ _ => simp [Node.setChild, hnext]

private theorem setChild_ne_nil (h : curr.next ch = some k) : (curr.setChild k next).children ≠ [] := by
  apply List.ne_nil_of_length_pos
  rw [Node.setChild, List.length_set]
  exact Nat.zero_lt_of_lt (next_some h).1

theorem Inserted.children_ne_nil (h : Inserted count curr sub after) : after.children ≠ [] := by
  cases h with
  | new _ => simp [Node.addChild]
  | deeper hnext _ _ => exact setChild_ne_nil hnext
  | cut hnext _ _ => exact setChild_ne_nil hnext
  | same hnext _ => exact setChild_ne_nil hnext
  | parts hnext _ _ => exact setChild_ne_nil hnext

/-- A node below the root with a prefix, children that `Next` tells apart, and counts if it is a leaf. -/
def Node.Kept (node : Node) : Prop :=
  node.pfx ≠ [] ∧ node.heads.Nodup ∧ (node.children = [] → node.counts ≠ [])

/-- A node below the root with counts or a fork. -/
def Node.Forked (node : Node) : Prop := node.counts = [] → 2 ≤ node.children.length

private theorem kept_split (hkept : curr.Kept) (heach : curr.Each Node.Kept) (hlt : j < curr.pfx.length) :
    (curr.split j).heads.Nodup ∧ (curr.split j).Each Node.Kept := by
  refine ⟨by simp [Node.heads, Node.split], heach.split ⟨?_, hkept.2⟩⟩
  exact mt List.drop_eq_nil_iff.mp (Nat.not_le.mpr hlt)

private theorem take_ne_nil {pfx : List Char} (hj : 0 < j) (hlt : j < pfx.length) : pfx.take j ≠ [] := by
  apply List.ne_nil_of_length_pos
  rw [List.length_take]
  omega

/-- Every round keeps the prefixes apart and leaves no leaf without counts. -/
theorem Inserted.kept (h : Inserted count curr sub after) (hheads : curr.heads.Nodup) (heach : curr.Each Node.Kept) :
    after.heads.Nodup ∧ after.Each Node.Kept := by
  induction h with
  | @new curr front rest hnext =>
    have hfresh : some front ∉ curr.heads := by
      intro hmem
      obtain ⟨child, hchild, hhead⟩ := List.mem_map.mp hmem
      have hnot := List.findIdx?_eq_none_iff.mp hnext child hchild
      simp [hhead] at hnot
    have hleaf : ((Node.new (front :: rest)).addCount count).Kept :=
      ⟨List.cons_ne_nil _ _, List.nodup_nil, fun _ => List.cons_ne_nil _ _⟩
    refine ⟨?_, heach.addChild hleaf (.of_children fun child hchild => absurd hchild List.not_mem_nil)⟩
    rw [Node.heads, Node.addChild, List.map_append, List.nodup_append]
    refine ⟨hheads, by simp, ?_⟩
    intro head hhead head' hhead' heq
    rw [List.map_singleton, List.mem_singleton] at hhead'
    rw [heq, hhead'] at hhead
    exact hfresh hhead
  | deeper hnext _ hinner ih =>
    obtain ⟨hkept, hbelow⟩ := heach.of_mem (child_mem hnext)
    obtain ⟨hheads', heach'⟩ := ih hkept.2.1 hbelow
    have hpfx := hinner.pfx_eq
    rw [Node.heads, map_head_setChild hnext (hpfx ▸ (next_some hnext).2)]
    exact ⟨hheads, heach.setChild ⟨hpfx ▸ hkept.1, hheads', fun hnil => absurd hnil hinner.children_ne_nil⟩ heach'⟩
  | @cut curr front rest k hnext hpre hlt =>
    obtain ⟨hkept, hbelow⟩ := heach.of_mem (child_mem hnext)
    obtain ⟨hheads', heach'⟩ := kept_split hkept hbelow hlt
    have hpos : 0 < (front :: rest).length := by simp
    have hhead : (((curr.child k).split (front :: rest).length).addCount count).pfx.head? = some front :=
      split_head hnext hpos
    rw [Node.heads, map_head_setChild hnext hhead]
    refine ⟨hheads, heach.setChild ⟨take_ne_nil hpos hlt, hheads', fun _ => ?_⟩ (heach'.congr rfl)⟩
    simp [Node.addCount]
  | @same curr front rest k hnext _ =>
    obtain ⟨hkept, hbelow⟩ := heach.of_mem (child_mem hnext)
    have hhead : ((curr.child k).addCount count).pfx.head? = some front := (next_some hnext).2
    rw [Node.heads, map_head_setChild hnext hhead]
    refine ⟨hheads, heach.setChild ⟨hkept.1, hkept.2.1, fun _ => ?_⟩ (hbelow.congr rfl)⟩
    simp [Node.addCount]
  | @parts curr next front rest k j hnext hdiff hinner ih =>
    obtain ⟨hkept, hbelow⟩ := heach.of_mem (child_mem hnext)
    obtain ⟨tail, htail⟩ := next_some_cons hnext
    obtain ⟨hj, hlt, -, -, -⟩ := diff_some (by simp [htail]) hdiff
    obtain ⟨hheads', heach'⟩ := kept_split hkept hbelow hlt
    obtain ⟨hheads'', heach''⟩ := ih hheads' heach'
    have hpfx := hinner.pfx_eq
    rw [Node.heads, map_head_setChild hnext (hpfx ▸ split_head hnext hj)]
    have hne : next.pfx ≠ [] := hpfx ▸ take_ne_nil hj hlt
    exact ⟨hheads, heach.setChild ⟨hne, hheads'', fun hnil => absurd hnil hinner.children_ne_nil⟩ heach''⟩

/-- The rest of a word rejoins no prefix under a node where `Next` finds no child for it. -/
private theorem not_rejoins {front : Char} {rest : List Char} (hnext : curr.next front = none) :
    ¬ curr.Rejoins (front :: rest) := by
  intro h
  cases h with
  | here hnext' _ _ => exact absurd (hnext.symm.trans hnext') (by simp)
  | deeper hnext' _ _ => exact absurd (hnext.symm.trans hnext') (by simp)

/-- An insertion that does not rejoin a prefix gives every node that it cuts counts or a second child. -/
theorem Inserted.forked (h : Inserted count curr sub after) (hrejoins : ¬ curr.Rejoins sub)
    (heach : curr.Each Node.Forked) : after.Each Node.Forked := by
  induction h with
  | new hnext =>
    refine heach.addChild (fun hnil => ?_) (.of_children fun child hchild => absurd hchild List.not_mem_nil)
    simp [Node.addCount] at hnil
  | @deeper curr next front rest q k hnext hsub hinner ih =>
    obtain ⟨hforked, hbelow⟩ := heach.of_mem (child_mem hnext)
    refine heach.setChild (fun hnil => ?_) (ih (fun h' => hrejoins (.deeper hnext hsub h')) hbelow)
    have htwo := hforked (hinner.counts_eq ▸ hnil)
    cases q with
    | nil => cases hinner
    | cons front' rest' =>
      have hlen := hinner.length_eq
      omega
  | cut hnext _ _ =>
    obtain ⟨hforked, hbelow⟩ := heach.of_mem (child_mem hnext)
    refine heach.setChild (fun hnil => ?_) ((hbelow.split hforked).congr rfl)
    simp [Node.addCount] at hnil
  | same hnext _ =>
    refine heach.setChild (fun hnil => ?_) ((heach.of_mem (child_mem hnext)).2.congr rfl)
    simp [Node.addCount] at hnil
  | @parts curr next front rest k j hnext hdiff hinner ih =>
    obtain ⟨hforked, hbelow⟩ := heach.of_mem (child_mem hnext)
    obtain ⟨tail, htail⟩ := next_some_cons hnext
    obtain ⟨-, hlt, -, -, -⟩ := diff_some (by simp [htail]) hdiff
    cases rest with
    | nil => cases hinner
    | cons front' rest' =>
      have hparted : ((curr.child k).split j).next front' = none := by
        rw [split_next, if_neg]
        intro hmeets
        exact hrejoins (.here hnext hdiff hmeets.symm)
      have hlen := hinner.length_eq
      rw [hparted] at hlen
      refine heach.setChild (fun _ => ?_) (ih (not_rejoins hparted) (hbelow.split hforked))
      simp [Node.split] at hlen
      omega

/-- An insertion that rejoins a prefix leaves a node without counts and with a single child. -/
theorem Inserted.single (hrejoins : curr.Rejoins sub) (h : Inserted count curr sub after) :
    ∃ node, after.Under node ∧ node.counts = [] ∧ node.children.length = 1 := by
  induction hrejoins generalizing after with
  | @here curr front rest k j hnext hdiff hmeets =>
    obtain ⟨tail, htail⟩ := next_some_cons hnext
    have h0 : (curr.child k).pfx[0]? = (front :: rest)[0]? := by simp [htail]
    obtain ⟨hj, hlt, hlt', -, hdiffers⟩ := diff_some h0 hdiff
    have hlong : ¬ (curr.child k).pfx <+: front :: rest := not_prefix_of_ne hlt hdiffers
    have hshort : ¬ front :: rest <+: (curr.child k).pfx := not_prefix_of_ne hlt' hdiffers.symm
    cases h with
    | new hnext' => exact absurd (hnext.symm.trans hnext') (by simp)
    | deeper hnext' hsub _ =>
      obtain rfl := Option.some.inj (hnext.symm.trans hnext')
      exact absurd ⟨_, hsub.symm⟩ hlong
    | cut hnext' hpre _ =>
      obtain rfl := Option.some.inj (hnext.symm.trans hnext')
      exact absurd hpre hshort
    | same hnext' heq =>
      obtain rfl := Option.some.inj (hnext.symm.trans hnext')
      exact absurd (heq ▸ List.prefix_rfl) hlong
    | @parts _ next _ _ k' j' hnext' hdiff' hinner =>
      obtain rfl := Option.some.inj (hnext.symm.trans hnext')
      obtain rfl := Option.some.inj (hdiff.symm.trans hdiff')
      refine ⟨next, .child ?_, hinner.counts_eq, ?_⟩
      · exact List.mem_set (next_some hnext).1 _
      · cases rest with
        | nil => cases hinner
        | cons front' rest' =>
          have hlen := hinner.length_eq
          rw [split_next, ← hmeets, List.head?_cons, if_pos rfl] at hlen
          exact hlen
  | @deeper curr front rest q k hnext hsub _ ih =>
    obtain ⟨tail, htail⟩ := next_some_cons hnext
    have hcut : diff (curr.child k).pfx (front :: rest) = none := by
      cases hdiff : diff (curr.child k).pfx (front :: rest) with
      | none => rfl
      | some j =>
        obtain ⟨-, hlt, -, -, hdiffers⟩ := diff_some (by simp [htail]) hdiff
        exact absurd ⟨q, hsub.symm⟩ (not_prefix_of_ne hlt hdiffers)
    have hq : q ≠ [] := by
      rintro rfl
      rename_i hbelow
      cases hbelow
    have hlen := congrArg List.length hsub
    rw [List.length_append] at hlen
    have hpos := List.length_pos_of_ne_nil hq
    cases h with
    | new hnext' => exact absurd (hnext.symm.trans hnext') (by simp)
    | @deeper _ next _ _ q' _ hnext' hsub' hinner =>
      obtain rfl := Option.some.inj (hnext.symm.trans hnext')
      obtain rfl : q = q' := List.append_cancel_left (hsub.symm.trans hsub')
      obtain ⟨node, hnode, hnil, hone⟩ := ih hinner
      exact ⟨node, .deeper (List.mem_set (next_some hnext).1 _) hnode, hnil, hone⟩
    | cut hnext' _ hlt =>
      obtain rfl := Option.some.inj (hnext.symm.trans hnext')
      omega
    | same hnext' heq =>
      obtain rfl := Option.some.inj (hnext.symm.trans hnext')
      rw [heq] at hlen
      omega
    | parts hnext' hdiff' _ =>
      obtain rfl := Option.some.inj (hnext.symm.trans hnext')
      exact absurd (hcut.symm.trans hdiff') (by simp)

end Insertion

/-! ### Runs of insertions -/

/-- The tree after a sequence of `Insert` calls. -/
def Node.insertAll (root : Node) (calls : List (List Char × Nat)) : Node :=
  calls.foldl (fun root call => root.insert call.1 call.2) root

/-- One node has got the count behind its earlier counts.  All other nodes have the counts that stood at their path
before, and none is lost. -/
def Appended (before after : Node) (count : Nat) : Prop :=
  ∃ path, (∃ node, after.Leads path node ∧ node.counts = (place before path).counts ++ [count]) ∧
    (∀ path' node, after.Leads path' node → path' ≠ path → node.counts = (place before path').counts) ∧
    ∀ path' node, before.Leads path' node → ∃ node', after.Leads path' node'

/-- The call ends within one round for every character of its word and appends its count to one node. -/
def EndsOnce (root : Node) (call : List Char × Nat) : Prop :=
  insertFrom? call.1.length root call.1 0 call.2 = some (root.insert call.1 call.2) ∧
    Appended root (root.insert call.1 call.2) call.2

section Runs

variable {root : Node} {calls : List (List Char × Nat)}

theorem Node.Radix.of_kept (hheads : root.heads.Nodup) (heach : root.Each Node.Kept) : root.Radix where
  pfx_ne_nil := fun node hnode => (heach node hnode).1
  heads_nodup := by
    rintro node (rfl | hnode)
    · exact hheads
    · exact (heach node hnode).2.1

theorem insertAll_concat (root : Node) (calls : List (List Char × Nat)) (call : List Char × Nat) :
    root.insertAll (calls ++ [call]) = (root.insertAll calls).insert call.1 call.2 := by
  simp [Node.insertAll]

/-- Whatever the words are, prefixes stay apart and no leaf is without counts. -/
theorem insertAll_kept (hwords : ∀ call ∈ calls, call.1 ≠ []) :
    ((Node.new []).insertAll calls).heads.Nodup ∧ ((Node.new []).insertAll calls).Each Node.Kept := by
  induction calls using List.reverseRecOn with
  | nil => exact ⟨List.nodup_nil, .of_children fun child hchild => absurd hchild List.not_mem_nil⟩
  | append_singleton calls call ih =>
    obtain ⟨hheads, heach⟩ := ih fun c hc => hwords c (by simp [hc])
    rw [insertAll_concat]
    exact (insert_inserted _ (hwords call (by simp)) call.2).kept hheads heach

theorem insertAll_radix (hwords : ∀ call ∈ calls, call.1 ≠ []) : ((Node.new []).insertAll calls).Radix :=
  .of_kept (insertAll_kept hwords).1 (insertAll_kept hwords).2

/-- As long as no word rejoins a prefix, every node has counts or a fork. -/
theorem insertAll_forked (hwords : ∀ call ∈ calls, call.1 ≠ [])
    (hrejoins : ∀ before call behind, calls = before ++ call :: behind →
      ¬ ((Node.new []).insertAll before).Rejoins call.1) : ((Node.new []).insertAll calls).Each Node.Forked := by
  induction calls using List.reverseRecOn with
  | nil => exact .of_children fun child hchild => absurd hchild List.not_mem_nil
  | append_singleton calls call ih =>
    rw [insertAll_concat]
    refine (insert_inserted _ (hwords call (by simp)) call.2).forked (hrejoins calls call [] rfl) (ih ?_ ?_)
    · exact fun c hc => hwords c (by simp [hc])
    · rintro before call' behind rfl
      exact hrejoins before call' (behind ++ [call]) (by simp)

theorem insert_ends {word : List Char} (hword : word ≠ []) (count : Nat) (hroot : root.Radix)
    (hafter : (root.insert word count).Radix) : EndsOnce root (word, count) := by
  refine ⟨insertFrom?_eq word.length root word 0 count (by omega), ?_⟩
  obtain ⟨d, forks, hplace, -⟩ := insert_lands root hword count
  refine ⟨d, ?_, ?_, ?_⟩
  · have hd := hplace d
    rw [landed, if_pos rfl] at hd
    exact exists_leads hd
  · intro path node hnode hne
    have hpath := hnode.place_eq hafter
    rw [hplace, landed, if_neg hne] at hpath
    split at hpath
    · exact (Place.node.inj hpath).symm
    · split at hpath
      · simp at hpath
      · rw [hpath, Place.counts_node]
  · intro path node hnode
    have hpath := hnode.place_eq hroot
    obtain ⟨counts, hcounts⟩ : ∃ counts, place (root.insert word count) path = .node counts := by
      rw [hplace, landed, hpath]
      split
      · exact ⟨_, rfl⟩
      · split
        · exact ⟨_, rfl⟩
        · exact ⟨node.counts, by simp⟩
    obtain ⟨node', hnode', -⟩ := exists_leads hcounts
    exact ⟨node', hnode'⟩

/-- The tree stays compact, and every call ends and appends its count to one node, exactly if no word of the run
rejoins a prefix that it has parted from. -/
theorem compact_iff (calls : List (List Char × Nat)) (hwords : ∀ call ∈ calls, call.1 ≠ []) :
    ((∀ done rest, calls = done ++ rest → ((Node.new []).insertAll done).Compact) ∧
        ∀ done call rest, calls = done ++ call :: rest → EndsOnce ((Node.new []).insertAll done) call) ↔
      ∀ done call rest, calls = done ++ call :: rest → ¬ ((Node.new []).insertAll done).Rejoins call.1 := by
  constructor
  · rintro ⟨hcompact, -⟩ done call rest rfl hrejoins
    obtain ⟨node, hnode, hnil, hone⟩ :=
      (insert_inserted _ (hwords call (by simp)) call.2).single hrejoins
    rw [← insertAll_concat] at hnode
    have htwo := (hcompact (done ++ [call]) rest (by simp)).forks node hnode hnil
    omega
  · intro hrejoins
    constructor
    · rintro done rest rfl
      have hdone : ∀ call ∈ done, call.1 ≠ [] := fun call hcall => hwords call (by simp [hcall])
      refine ⟨insertAll_radix hdone, fun node hnode => ((insertAll_kept hdone).2 node hnode).2.2, ?_⟩
      apply insertAll_forked hdone
      rintro before call behind rfl
      exact hrejoins before call (behind ++ rest) (by simp)
    · rintro done call rest rfl
      apply insert_ends (hwords call (by simp))
      · exact insertAll_radix fun c hc => hwords c (by simp [hc])
      · rw [← insertAll_concat]
        apply insertAll_radix
        intro c hc
        exact hwords c (by simp at hc ⊢; tauto)

theorem compact_iff_so_song :
    ((∀ done rest, [(['s', 'o', 'n', 'g'], 1), (['s', 'o'], 2)] = done ++ rest →
          ((Node.new []).insertAll done).Compact) ∧
        ∀ done call rest, [(['s', 'o', 'n', 'g'], 1), (['s', 'o'], 2)] = done ++ call :: rest →
          EndsOnce ((Node.new []).insertAll done) call) ↔
      ∀ done call rest, [(['s', 'o', 'n', 'g'], 1), (['s', 'o'], 2)] = done ++ call :: rest →
        ¬ ((Node.new []).insertAll done).Rejoins call.1 :=
  compact_iff [(['s', 'o', 'n', 'g'], 1), (['s', 'o'], 2)] (by simp)

/-- "abc" parts from "abb" behind "ab", and its "b" goes back to the "b" that was cut off. -/
theorem compact_abb_abc : ¬ ∀ calls : List (List Char × Nat), (∀ call ∈ calls, call.1 ≠ []) →
    (∀ done rest, calls = done ++ rest → ((Node.new []).insertAll done).Compact) ∧
      ∀ done call rest, calls = done ++ call :: rest → EndsOnce ((Node.new []).insertAll done) call := by
  intro h
  obtain ⟨hcompact, -⟩ := h [(['a', 'b', 'b'], 1), (['a', 'b', 'c'], 2)] (by simp)
  have hforks := (hcompact _ [] (List.append_nil _).symm).forks
  have hnext : ((Node.new []).insertAll [(['a', 'b', 'b'], 1), (['a', 'b', 'c'], 2)]).next 'a' = some 0 := by decide
  have htwo := hforks _ (.child (child_mem hnext)) (by decide)
  revert htwo
  decide

end Runs

end Cs564.WordLocator
