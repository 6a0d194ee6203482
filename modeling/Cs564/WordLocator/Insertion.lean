import Cs564.WordLocator.Places
/-!
# Where an insertion puts its count

`Inserted` lists what the rounds of `Insert` can do.  `insert_lands` says what that does to the place of every path: the
count lands at one path `d`, some points inside prefixes become nodes, and the way to `d` is filled up.  How `d` relates to
the word is the content of `Landing`.
-/

namespace Cs564.WordLocator

/-- The places after a count has landed at `d` and splits have made nodes at `forks`. -/
def landed (before : List Char → Place) (d : List Char) (count : Nat) (forks : List (List Char))
    (path : List Char) : Place :=
  if path = d then .node ((before d).counts ++ [count])
  else if path ∈ forks then .node (before path).counts
  else if path <+: d ∧ before path = .off then .edge
  else before path

/-- The word `r` follows the tree for `l` characters and leaves it there. -/
def Leaves (before : List Char → Place) (r : List Char) (l : Nat) : Prop :=
  l < r.length ∧ before (r.take l) ≠ .off ∧ before (r.take (l + 1)) = .off

/-- The word leaves the tree inside a prefix, at least two characters behind the node above. -/
def Late (before : List Char → Place) (r : List Char) : Prop :=
  ∃ l, Leaves before r l ∧ before (r.take l) = .edge ∧ before (r.take (l - 1)) = .edge

/-- Where the count of the word `r` lands. -/
structure Landing (before : List Char → Place) (r d : List Char) (forks : List (List Char)) : Prop where
  length_le : r.length ≤ d.length
  late : Late before r → r.length < d.length
  straight : ¬ Late before r → d = r ∧
    ∀ path, path ∈ forks ↔ ∃ l, Leaves before r l ∧ path = r.take l ∧ before path = .edge

/-- A word that does not leave the tree, or leaves it at a node, lands at its own place. -/
theorem Landing.of_node {before : List Char → Place} {r : List Char}
    (h : ∀ l, Leaves before r l → before (r.take l) ≠ .edge) : Landing before r r [] where
  length_le := Nat.le_refl _
  late := by
    rintro ⟨l, hleaves, hedge, -⟩
    exact absurd hedge (h l hleaves)
  straight := by
    intro _
    refine ⟨rfl, fun path => ?_⟩
    constructor
    · intro hmem
      simp at hmem
    · rintro ⟨l, hleaves, rfl, hedge⟩
      exact absurd hedge (h l hleaves)

/-! ### `Diff` -/

section Diff

variable {str1 str2 : List Char}

private theorem diff_none_getElem? (h0 : str1[0]? = str2[0]?) (h : diff str1 str2 = none) (j : Nat)
    (hj : j < min str1.length str2.length) : str1[j]? = str2[j]? := by
  by_cases hj0 : j = 0
  · rw [hj0, h0]
  · unfold diff at h
    rw [List.find?_range'_eq_none] at h
    have hsame := h j (by omega) (by omega)
    simpa using hsame

/-- Without a difference, one of the strings continues the other. -/
theorem diff_none (h0 : str1[0]? = str2[0]?) (h : diff str1 str2 = none) : str1 <+: str2 ∨ str2 <+: str1 := by
  by_cases hle : str1.length ≤ str2.length
  · left
    rw [List.prefix_iff_getElem?]
    intro j hj
    rw [← diff_none_getElem? h0 h j (by omega), List.getElem?_eq_getElem hj]
  · right
    rw [List.prefix_iff_getElem?]
    intro j hj
    rw [diff_none_getElem? h0 h j (by omega), List.getElem?_eq_getElem hj]

/-- A string that differs from another within its length is no prefix of it. -/
theorem not_prefix_of_ne {j : Nat} (hlt : j < str1.length) (hne : str1[j]? ≠ str2[j]?) : ¬ str1 <+: str2 := by
  intro hpre
  have hget := List.prefix_iff_getElem?.mp hpre j hlt
  rw [← List.getElem?_eq_getElem hlt] at hget
  exact hne hget.symm

/-- The strings agree up to the difference. -/
theorem diff_some {j : Nat} (h0 : str1[0]? = str2[0]?) (h : diff str1 str2 = some j) :
    1 ≤ j ∧ j < str1.length ∧ j < str2.length ∧ str1.take j = str2.take j ∧ str1[j]? ≠ str2[j]? := by
  unfold diff at h
  rw [List.find?_range'_eq_some] at h
  obtain ⟨hdiff, hmem, hbefore⟩ := h
  rw [List.mem_range'_1] at hmem
  refine ⟨hmem.1, by omega, by omega, ?_, by simpa using hdiff⟩
  apply List.ext_getElem?
  intro i
  rw [List.getElem?_take, List.getElem?_take]
  by_cases hi : i < j
  · rw [if_pos hi, if_pos hi]
    by_cases hi0 : i = 0
    · rw [hi0, h0]
    · have hsame := hbefore i (by omega) hi
      simpa using hsame
  · rw [if_neg hi, if_neg hi]

end Diff

/-! ### Nodes that a round of the loop leaves -/

section Rounds

variable {curr next : Node} {ch : Char} {k : Nat}

@[simp] theorem place_addCount (next : Node) (count : Nat) (path : List Char) :
    place (next.addCount count) path = if path = [] then .node (next.counts ++ [count]) else place next path := by
  cases path with
  | nil => simp [Node.addCount]
  | cons front rest =>
    have hnext : (next.addCount count).next front = next.next front := rfl
    rw [if_neg (by simp)]
    cases hk : next.next front with
    | none => rw [place_none hk, place_none (hnext.trans hk)]
    | some k =>
      rw [place_cons hk, place_cons (hnext.trans hk)]
      rfl

theorem placeIn_addCount (next : Node) (count : Nat) (path : List Char) :
    placeIn (next.addCount count) path = if path = next.pfx then .node (next.counts ++ [count])
      else placeIn next path := by
  unfold placeIn
  have hpfx : (next.addCount count).pfx = next.pfx := rfl
  rw [hpfx, place_addCount]
  by_cases hpath : next.pfx <+: path
  · obtain ⟨q, rfl⟩ := hpath
    by_cases hq : q = []
    · simp [hq]
    · simp [hq]
  · have hne : path ≠ next.pfx := by
      rintro rfl
      exact hpath List.prefix_rfl
    rw [if_neg hpath, if_neg hpath, if_neg hne]

/-- A place depends on the children and counts of the node, not on its prefix. -/
private theorem place_withPfx (next : Node) (pfx path : List Char) :
    place { next with pfx := pfx } path = place next path := by
  cases path with
  | nil => simp
  | cons front rest =>
    have hnext : ({ next with pfx := pfx } : Node).next front = next.next front := rfl
    cases hk : next.next front with
    | none => rw [place_none hk, place_none (hnext.trans hk)]
    | some k =>
      rw [place_cons hk, place_cons (hnext.trans hk)]
      rfl

/-- A node with a shorter prefix, under the rest of it. -/
private theorem placeIn_suffix {upper lower : List Char} (hpfx : next.pfx = upper ++ lower) (path : List Char) :
    placeIn { next with pfx := lower } path = placeIn next (upper ++ path) := by
  unfold placeIn
  simp only [hpfx, List.prefix_append_right_inj, place_withPfx]
  rw [List.length_append, ← List.drop_drop, List.drop_left]

/-- `Split` makes a node without counts at the cut and leaves every other place as it is. -/
theorem placeIn_split (next : Node) {j : Nat} (hlt : j < next.pfx.length) (path : List Char) :
    placeIn (next.split j) path = if path = next.pfx.take j then .node [] else placeIn next path := by
  have hsplit : next.pfx = next.pfx.take j ++ next.pfx.drop j := (List.take_append_drop _ _).symm
  have hpfx : (next.split j).pfx = next.pfx.take j := rfl
  by_cases hpath : next.pfx.take j <+: path
  · obtain ⟨q, rfl⟩ := hpath
    rw [← hpfx, placeIn_append, hpfx]
    cases q with
    | nil => simp [Node.split]
    | cons front rest =>
      rw [if_neg (by simp), ← placeIn_suffix hsplit]
      -- below the cut there is one child, with the rest of the prefix
      obtain ⟨c, tail, htail⟩ := List.exists_cons_of_ne_nil (mt List.drop_eq_nil_iff.mp (Nat.not_le.mpr hlt))
      by_cases hc : front = c
      · have hnext : (next.split j).next front = some 0 := by simp [Node.split, Node.next, htail, hc]
        rw [place_cons hnext]
        rfl
      · have hnext : (next.split j).next front = none := by simp [Node.split, Node.next, htail, Ne.symm hc]
        rw [place_none hnext, placeIn, htail]
        simp [List.cons_prefix_cons, hc, Ne.symm hc]
  · have hne : path ≠ next.pfx.take j := by
      rintro rfl
      exact hpath List.prefix_rfl
    have hnot : ¬ next.pfx <+: path := fun h => hpath ((List.take_prefix _ _).trans h)
    have hiff : path <+: next.pfx.take j ↔ path <+: next.pfx := by
      constructor
      · intro h
        exact h.trans (List.take_prefix _ _)
      · intro h
        rcases List.prefix_or_prefix_of_prefix h (List.take_prefix j next.pfx) with h' | h'
        · exact h'
        · exact absurd h' hpath
    rw [if_neg hne, placeIn, placeIn, hpfx, if_neg hpath, if_neg hnot]
    simp only [hiff]

theorem split_head (h : curr.next ch = some k) {j : Nat} (hj : 0 < j) :
    ((curr.child k).split j).pfx.head? = some ch := by
  rw [← (next_some h).2]
  unfold Node.split
  rw [List.head?_take, if_neg (Nat.pos_iff_ne_zero.mp hj)]

theorem place_setChild_split (h : curr.next ch = some k) {j : Nat} (hj : 0 < j)
    (hlt : j < (curr.child k).pfx.length) (path : List Char) :
    place (curr.setChild k ((curr.child k).split j)) path =
      if path = (curr.child k).pfx.take j then .node [] else place curr path := by
  have hhead := split_head h hj
  rw [place_setChild h hhead, placeIn_split _ hlt]
  by_cases hpath : path.head? = some ch
  · rw [if_pos hpath, place_ne_nil h hpath]
  · have hne : path ≠ (curr.child k).pfx.take j := by
      rintro rfl
      exact hpath hhead
    rw [if_neg hpath, if_neg hne]

theorem place_setChild_addCount (h : curr.next ch = some k) (hhead : next.pfx.head? = some ch) (count : Nat)
    (path : List Char) :
    place (curr.setChild k (next.addCount count)) path =
      if path = next.pfx then .node (next.counts ++ [count]) else place (curr.setChild k next) path := by
  have hcount : (next.addCount count).pfx.head? = some ch := hhead
  rw [place_setChild h hhead, place_setChild h hcount, placeIn_addCount]
  by_cases hpath : path.head? = some ch
  · rw [if_pos hpath, if_pos hpath]
  · have hne : path ≠ next.pfx := by
      rintro rfl
      exact hpath hhead
    rw [if_neg hpath, if_neg hpath, if_neg hne]

/-! ### The rounds of `Insert` -/

/-- On the way to a place in the tree there is no hole. -/
private theorem place_ne_off (h : curr.next ch = some k) {path : List Char} (hpath : path <+: (curr.child k).pfx) :
    place curr path ≠ .off := by
  by_cases hne : path = []
  · simp [hne]
  · by_cases hlt : path.length < (curr.child k).pfx.length
    · rw [place_edge h hne hpath hlt]
      simp
    · have heq : path = (curr.child k).pfx := hpath.eq_of_length_le (by omega)
      have hself := place_append h []
      rw [List.append_nil, place_nil] at hself
      rw [heq, hself]
      simp

/-- The count goes to a new child. -/
private theorem lands_new (h : curr.next ch = none) (rest : List Char) (count : Nat) (path : List Char) :
    place (curr.addChild ((Node.new (ch :: rest)).addCount count)) path =
      landed (place curr) (ch :: rest) count [] path := by
  have hleaf : ∀ front, (Node.new (ch :: rest)).next front = none := fun front => rfl
  have hpfx : (Node.new (ch :: rest)).pfx = ch :: rest := rfl
  rw [place_addChild h rfl, placeIn_addCount, landed, hpfx]
  simp only [List.not_mem_nil, if_false]
  by_cases hpath : path.head? = some ch
  · obtain ⟨tail, rfl⟩ := List.head?_eq_some_iff.mp hpath
    have hoff := place_none h
    rw [if_pos hpath, hoff, hoff]
    by_cases heq : ch :: tail = ch :: rest
    · rw [if_pos heq, if_pos heq]
      rfl
    · rw [if_neg heq, if_neg heq, placeIn, hpfx]
      by_cases hpre : ch :: rest <+: ch :: tail
      · obtain ⟨q, hq⟩ := hpre
        have hnot : ¬ ch :: tail <+: ch :: rest := by
          intro hpre'
          exact heq (hpre'.eq_of_length_le (by rw [← hq, List.length_append]; omega))
        have hqne : q ≠ [] := by
          rintro rfl
          rw [List.append_nil] at hq
          exact heq hq.symm
        obtain ⟨front, q, rfl⟩ := List.exists_cons_of_ne_nil hqne
        rw [if_pos ⟨_, hq⟩, ← hq, List.drop_left, place_none (hleaf front), hq, if_neg (by simp [hnot])]
      · rw [if_neg hpre]
        simp
  · have hne : path ≠ ch :: rest := by
      rintro rfl
      exact hpath rfl
    have hnot : ¬ (path <+: ch :: rest ∧ place curr path = .off) := by
      rintro ⟨hpre, hoff⟩
      cases path with
      | nil => simp at hoff
      | cons front tail =>
        rw [List.cons_prefix_cons] at hpre
        exact hpath (by rw [hpre.1, List.head?_cons])
    rw [if_neg hpath, if_neg hne, if_neg hnot]

/-- The count goes to a child with this prefix, or to the upper half of a child that has more. -/
private theorem lands_stop (h : curr.next ch = some k) {sub : List Char} (hsub : sub.head? = some ch)
    (hpre : sub <+: (curr.child k).pfx) (count : Nat) (path : List Char) :
    place (curr.setChild k ((if sub.length < (curr.child k).pfx.length then (curr.child k).split sub.length
      else curr.child k).addCount count)) path = landed (place curr) sub count [] path := by
  have hnot : ¬ (path <+: sub ∧ place curr path = .off) := fun ⟨hpath, hoff⟩ =>
    place_ne_off h (hpath.trans hpre) hoff
  have hpos : 0 < sub.length := by
    obtain ⟨rest, rfl⟩ := List.head?_eq_some_iff.mp hsub
    simp
  unfold landed
  simp only [List.not_mem_nil, if_false, if_neg hnot]
  by_cases hlt : sub.length < (curr.child k).pfx.length
  · have hupper : ((curr.child k).split sub.length).pfx = sub := (List.prefix_iff_eq_take.mp hpre).symm
    have hedge : place curr sub = .edge := by
      apply place_edge h _ hpre hlt
      rintro rfl
      simp at hsub
    rw [if_pos hlt, place_setChild_addCount h (split_head h hpos), place_setChild_split h hpos hlt, hupper, hedge]
    by_cases hpath : path = sub
    · rw [if_pos hpath, if_pos hpath]
      rfl
    · have hne : path ≠ (curr.child k).pfx.take sub.length := by
        rw [← List.prefix_iff_eq_take.mp hpre]
        exact hpath
      rw [if_neg hpath, if_neg hpath, if_neg hne]
  · have heq : sub = (curr.child k).pfx := hpre.eq_of_length_le (by omega)
    have hself := place_append h []
    rw [List.append_nil, place_nil] at hself
    rw [if_neg hlt, place_setChild_addCount h (next_some h).2, ← heq]
    by_cases hpath : path = sub
    · rw [if_pos hpath, if_pos hpath, heq, hself]
      rfl
    · rw [if_neg hpath, if_neg hpath, place_setChild h (next_some h).2]
      by_cases hhead : path.head? = some ch
      · rw [if_pos hhead, place_ne_nil h hhead]
      · rw [if_neg hhead]

/-- The count lands below a child. -/
private theorem lands_below (h : curr.next ch = some k) (hpfx : next.pfx = (curr.child k).pfx) {d : List Char}
    {count : Nat} {forks : List (List Char)}
    (hnext : ∀ path, place next path = landed (place (curr.child k)) d count forks path) (path : List Char) :
    place (curr.setChild k next) path =
      landed (place curr) ((curr.child k).pfx ++ d) count (forks.map ((curr.child k).pfx ++ ·)) path := by
  have hhead := (next_some h).2
  obtain ⟨tail, htail⟩ := next_some_cons h
  rw [place_setChild h (by rw [hpfx, hhead])]
  by_cases hpath : (curr.child k).pfx <+: path
  · obtain ⟨q, rfl⟩ := hpath
    have hq : ((curr.child k).pfx ++ q).head? = some ch := by simp [htail]
    rw [if_pos hq, ← hpfx, placeIn_append, hnext, hpfx]
    unfold landed
    simp only [List.append_cancel_left_eq, List.mem_map, exists_eq_right, List.prefix_append_right_inj,
      place_append h]
  · have hne : path ≠ (curr.child k).pfx ++ d := by
      rintro rfl
      exact hpath (List.prefix_append _ _)
    have hmem : path ∉ forks.map ((curr.child k).pfx ++ ·) := by
      intro hmem
      obtain ⟨q, -, rfl⟩ := List.mem_map.mp hmem
      exact hpath (List.prefix_append _ _)
    have hiff : path <+: (curr.child k).pfx ++ d ↔ path <+: (curr.child k).pfx := by
      constructor
      · intro hpre
        rcases List.prefix_or_prefix_of_prefix hpre (List.prefix_append _ d) with h' | h'
        · exact h'
        · exact absurd h' hpath
      · intro hpre
        exact hpre.trans (List.prefix_append _ _)
    have hnot : ¬ (path <+: (curr.child k).pfx ++ d ∧ place curr path = .off) := by
      rintro ⟨hpre, hoff⟩
      exact place_ne_off h (hiff.mp hpre) hoff
    rw [landed, if_neg hne, if_neg hmem, if_neg hnot]
    by_cases hq : path.head? = some ch
    · rw [if_pos hq, place_ne_nil h hq, placeIn, placeIn, hpfx, if_neg hpath, if_neg hpath]
    · rw [if_neg hq]

/-- The count lands after a child was split at `j`. -/
private theorem landed_split {before : List Char → Place} {upper d : List Char} {count : Nat}
    {forks : List (List Char)} (hedge : before upper = .edge) (path : List Char) :
    landed (fun path => if path = upper then .node [] else before path) d count forks path =
      landed before d count (upper :: forks) path := by
  unfold landed
  by_cases hpath : path = upper
  · subst hpath
    simp only [if_true, List.mem_cons, true_or, hedge, Place.counts_node, Place.counts_edge]
    by_cases hd : path = d
    · subst hd
      simp [hedge]
    · simp [hd]
  · by_cases hd : path = d
    · have hdu : d ≠ upper := hd ▸ hpath
      simp [hd, hdu]
    · simp [hd, hpath]

/-! ### Where the count lands -/

private theorem landing_new (h : curr.next ch = none) (rest : List Char) :
    Landing (place curr) (ch :: rest) (ch :: rest) [] := by
  apply Landing.of_node
  rintro l ⟨-, hon, -⟩
  cases l with
  | zero => simp
  | succ l =>
    rw [List.take_succ_cons, place_none h] at hon
    exact absurd rfl hon

private theorem landing_stop (h : curr.next ch = some k) {sub : List Char} (hpre : sub <+: (curr.child k).pfx) :
    Landing (place curr) sub sub [] := by
  apply Landing.of_node
  rintro l ⟨-, -, hoff⟩
  exact absurd hoff (place_ne_off h ((List.take_prefix _ _).trans hpre))

private theorem leaves_below (h : curr.next ch = some k) (q : List Char) (l : Nat) :
    Leaves (place curr) ((curr.child k).pfx ++ q) l ↔
      ∃ m, l = (curr.child k).pfx.length + m ∧ Leaves (place (curr.child k)) q m := by
  have htake : ∀ m, ((curr.child k).pfx ++ q).take ((curr.child k).pfx.length + m) =
      (curr.child k).pfx ++ q.take m := fun m => List.take_length_add_append m
  unfold Leaves
  constructor
  · rintro ⟨hlt, hon, hoff⟩
    by_cases hl : l < (curr.child k).pfx.length
    · have hpre : ((curr.child k).pfx ++ q).take (l + 1) <+: (curr.child k).pfx := by
        rw [List.take_append_of_le_length hl]
        exact List.take_prefix _ _
      exact absurd hoff (place_ne_off h hpre)
    · obtain ⟨m, rfl⟩ := Nat.exists_eq_add_of_le (Nat.not_lt.mp hl)
      rw [htake, place_append h] at hon
      rw [Nat.add_assoc, htake, place_append h] at hoff
      rw [List.length_append] at hlt
      exact ⟨m, rfl, by omega, hon, hoff⟩
  · rintro ⟨m, rfl, hlt, hon, hoff⟩
    rw [Nat.add_assoc, htake, htake, place_append h, place_append h, List.length_append]
    exact ⟨by omega, hon, hoff⟩

private theorem late_below (h : curr.next ch = some k) (q : List Char) :
    Late (place curr) ((curr.child k).pfx ++ q) ↔ Late (place (curr.child k)) q := by
  have htake : ∀ m, ((curr.child k).pfx ++ q).take ((curr.child k).pfx.length + m) =
      (curr.child k).pfx ++ q.take m := fun m => List.take_length_add_append m
  constructor
  · rintro ⟨l, hleaves, hedge, hedge'⟩
    obtain ⟨m, rfl, hm⟩ := (leaves_below h q l).mp hleaves
    rw [htake, place_append h] at hedge
    have hpos : 0 < m := by
      rw [Nat.pos_iff_ne_zero]
      rintro rfl
      simp at hedge
    rw [Nat.add_sub_assoc hpos, htake, place_append h] at hedge'
    exact ⟨m, hm, hedge, hedge'⟩
  · rintro ⟨m, hm, hedge, hedge'⟩
    have hpos : 0 < m := by
      rw [Nat.pos_iff_ne_zero]
      rintro rfl
      simp at hedge
    refine ⟨(curr.child k).pfx.length + m, (leaves_below h q _).mpr ⟨m, rfl, hm⟩, ?_, ?_⟩
    · rw [htake, place_append h, hedge]
    · rw [Nat.add_sub_assoc hpos, htake, place_append h, hedge']

private theorem landing_below (h : curr.next ch = some k) {q d : List Char} {forks : List (List Char)}
    (hnext : Landing (place (curr.child k)) q d forks) :
    Landing (place curr) ((curr.child k).pfx ++ q) ((curr.child k).pfx ++ d)
      (forks.map ((curr.child k).pfx ++ ·)) where
  length_le := by
    rw [List.length_append, List.length_append]
    exact Nat.add_le_add_left hnext.length_le _
  late := by
    intro hlate
    rw [List.length_append, List.length_append]
    exact Nat.add_lt_add_left (hnext.late ((late_below h q).mp hlate)) _
  straight := by
    intro hlate
    obtain ⟨rfl, hforks⟩ := hnext.straight fun h' => hlate ((late_below h q).mpr h')
    refine ⟨rfl, fun path => ?_⟩
    rw [List.mem_map]
    constructor
    · rintro ⟨p, hp, rfl⟩
      obtain ⟨m, hm, rfl, hedge⟩ := (hforks p).mp hp
      refine ⟨(curr.child k).pfx.length + m, (leaves_below h d _).mpr ⟨m, rfl, hm⟩, ?_, ?_⟩
      · rw [List.take_length_add_append]
      · rw [place_append h, hedge]
    · rintro ⟨l, hleaves, rfl, hedge⟩
      obtain ⟨m, rfl, hm⟩ := (leaves_below h d l).mp hleaves
      rw [List.take_length_add_append, place_append h] at hedge
      refine ⟨d.take m, (hforks _).mpr ⟨m, hm, rfl, hedge⟩, ?_⟩
      rw [List.take_length_add_append]

section Split

variable {sub : List Char} {j : Nat}

/-- The word and the prefix part behind `j` characters. -/
private theorem place_parted (h : curr.next ch = some k) (hsub : sub.head? = some ch) (hlt : j < sub.length)
    (hlt' : j < (curr.child k).pfx.length) (hdiff : (curr.child k).pfx[j]? ≠ sub[j]?) {l : Nat} (hl : j < l) :
    place curr (sub.take l) = .off := by
  apply place_off h
  · rw [List.head?_take, if_neg (by omega), hsub]
  · intro hpre
    exact not_prefix_of_ne hlt' hdiff (hpre.trans (List.take_prefix _ _))
  · apply not_prefix_of_ne (j := j)
    · rw [List.length_take]
      omega
    · rw [List.getElem?_take_of_lt hl]
      exact hdiff.symm

private theorem take_agree (hagree : (curr.child k).pfx.take j = sub.take j) {l : Nat} (hl : l ≤ j) :
    sub.take l = (curr.child k).pfx.take l := by
  have hcut := congrArg (List.take l) hagree
  rw [List.take_take, List.take_take, Nat.min_eq_left hl] at hcut
  exact hcut.symm

/-- A part of the child's prefix ends inside the edge to the child. -/
private theorem place_take (h : curr.next ch = some k) {l : Nat} (hl : 1 ≤ l) (hlt : l < (curr.child k).pfx.length) :
    place curr ((curr.child k).pfx.take l) = .edge := by
  have hlen : ((curr.child k).pfx.take l).length = l := by
    rw [List.length_take]
    omega
  apply place_edge h _ (List.take_prefix _ _) (by omega)
  intro hnil
  rw [hnil, List.length_nil] at hlen
  omega

private theorem leaves_parted (h : curr.next ch = some k) (hsub : sub.head? = some ch) (hlt : j < sub.length)
    (hlt' : j < (curr.child k).pfx.length) (hagree : (curr.child k).pfx.take j = sub.take j)
    (hdiff : (curr.child k).pfx[j]? ≠ sub[j]?) (l : Nat) : Leaves (place curr) sub l ↔ l = j := by
  have hon : ∀ l, l ≤ j → place curr (sub.take l) ≠ .off := by
    intro l hl
    rw [take_agree hagree hl]
    exact place_ne_off h (List.take_prefix _ _)
  constructor
  · rintro ⟨-, hon', hoff⟩
    have hle : ¬ j < l := fun hl => hon' (place_parted h hsub hlt hlt' hdiff hl)
    have hge : ¬ l + 1 ≤ j := fun hl => hon (l + 1) hl hoff
    omega
  · rintro rfl
    exact ⟨hlt, hon l (Nat.le_refl l), place_parted h hsub hlt hlt' hdiff (Nat.lt_succ_self l)⟩

/-- The word goes on in the edge to the child exactly when the cut is not at its first character. -/
private theorem late_parted (h : curr.next ch = some k) (hsub : sub.head? = some ch) (hj : 1 ≤ j)
    (hlt : j < sub.length) (hlt' : j < (curr.child k).pfx.length)
    (hagree : (curr.child k).pfx.take j = sub.take j) (hdiff : (curr.child k).pfx[j]? ≠ sub[j]?) :
    Late (place curr) sub ↔ 2 ≤ j := by
  have hleaves := leaves_parted h hsub hlt hlt' hagree hdiff
  have hedge : ∀ l, 1 ≤ l → l ≤ j → place curr (sub.take l) = .edge := by
    intro l hl hlj
    rw [take_agree hagree hlj]
    exact place_take h hl (by omega)
  constructor
  · rintro ⟨l, hl, -, hbefore⟩
    rw [hleaves] at hl
    subst hl
    by_contra hone
    have hl : l - 1 = 0 := by omega
    rw [hl, List.take_zero, place_nil] at hbefore
    simp at hbefore
  · intro htwo
    exact ⟨j, (hleaves j).mpr rfl, hedge j hj (Nat.le_refl j), hedge (j - 1) (by omega) (by omega)⟩

/-- The only child of the split node begins with another character than the word behind the cut, which leaves the tree
there. -/
private theorem split_stops (hlt : j < sub.length) (hlt' : j < (curr.child k).pfx.length)
    (hdiff : (curr.child k).pfx[j]? ≠ sub[j]?) {l : Nat}
    (hl : Leaves (place ((curr.child k).split j)) (sub.drop j) l) :
    place ((curr.child k).split j) ((sub.drop j).take l) ≠ .edge := by
  obtain ⟨c, rest, hrest⟩ := List.exists_cons_of_ne_nil (mt List.drop_eq_nil_iff.mp (Nat.not_le.mpr hlt))
  obtain ⟨c', tail, htail⟩ := List.exists_cons_of_ne_nil (mt List.drop_eq_nil_iff.mp (Nat.not_le.mpr hlt'))
  have hc : sub[j]? = some c := by
    have hget := congrArg (fun l => l[0]?) hrest
    simpa [List.getElem?_drop] using hget
  have hc' : (curr.child k).pfx[j]? = some c' := by
    have hget := congrArg (fun l => l[0]?) htail
    simpa [List.getElem?_drop] using hget
  have hcc : c' ≠ c := by
    rintro rfl
    exact hdiff (hc'.trans hc.symm)
  have hnone : ((curr.child k).split j).next c = none := by
    simp [Node.split, Node.next, htail, hcc]
  obtain ⟨-, hon, -⟩ := hl
  rw [hrest] at hon ⊢
  cases l with
  | zero => simp
  | succ l =>
    rw [List.take_succ_cons, place_none hnone] at hon
    exact absurd rfl hon

/-- Behind a cut at the first character the word finds no child and lands at its own place; behind a later cut the
loop has gone back in the word, and the count lands too deep. -/
private theorem landing_split (h : curr.next ch = some k) (hsub : sub.head? = some ch) (hj : 1 ≤ j)
    (hlt : j < sub.length) (hlt' : j < (curr.child k).pfx.length)
    (hagree : (curr.child k).pfx.take j = sub.take j) (hdiff : (curr.child k).pfx[j]? ≠ sub[j]?) {d : List Char}
    {forks : List (List Char)} (hnext : Landing (place ((curr.child k).split j)) (sub.drop 1) d forks) :
    Landing (place curr) sub ((curr.child k).pfx.take j ++ d)
      ((curr.child k).pfx.take j :: forks.map ((curr.child k).pfx.take j ++ ·)) := by
  have hleaves := leaves_parted h hsub hlt hlt' hagree hdiff
  have hlate := late_parted h hsub hj hlt hlt' hagree hdiff
  have hlen : ((curr.child k).pfx.take j).length = j := by
    rw [List.length_take]
    omega
  have hle := hnext.length_le
  rw [List.length_drop] at hle
  constructor
  · rw [List.length_append, hlen]
    omega
  · intro hl
    have htwo := hlate.mp hl
    rw [List.length_append, hlen]
    omega
  · intro hl
    have hone : j = 1 := by
      rw [hlate] at hl
      omega
    subst hone
    have hstraight : ¬ Late (place ((curr.child k).split 1)) (sub.drop 1) := by
      rintro ⟨l, hl, hedge, -⟩
      exact split_stops hlt hlt' hdiff hl hedge
    obtain ⟨rfl, hforks⟩ := hnext.straight hstraight
    have hnil : forks = [] := by
      rw [List.eq_nil_iff_forall_not_mem]
      intro path hpath
      obtain ⟨l, hl, rfl, hedge⟩ := (hforks path).mp hpath
      exact split_stops hlt hlt' hdiff hl hedge
    refine ⟨by rw [hagree, List.take_append_drop], fun path => ?_⟩
    rw [hnil, List.map_nil, List.mem_singleton, hagree]
    constructor
    · rintro rfl
      refine ⟨1, (hleaves 1).mpr rfl, rfl, ?_⟩
      rw [← hagree]
      exact place_take h hj hlt'
    · rintro ⟨l, hl, rfl, -⟩
      rw [(hleaves l).mp hl]

end Split

end Rounds

/-! ### The loop -/

/-- What the rounds do that insert what is left of the word under `curr`. -/
inductive Inserted (count : Nat) : Node → List Char → Node → Prop
  | new {curr : Node} {front : Char} {rest : List Char} : curr.next front = none →
      Inserted count curr (front :: rest) (curr.addChild ((Node.new (front :: rest)).addCount count))
  | deeper {curr next : Node} {front : Char} {rest q : List Char} {k : Nat} : curr.next front = some k →
      front :: rest = (curr.child k).pfx ++ q → Inserted count (curr.child k) q next →
      Inserted count curr (front :: rest) (curr.setChild k next)
  | cut {curr : Node} {front : Char} {rest : List Char} {k : Nat} : curr.next front = some k →
      front :: rest <+: (curr.child k).pfx → (front :: rest).length < (curr.child k).pfx.length →
      Inserted count curr (front :: rest)
        (curr.setChild k (((curr.child k).split (front :: rest).length).addCount count))
  | same {curr : Node} {front : Char} {rest : List Char} {k : Nat} : curr.next front = some k →
      (curr.child k).pfx = front :: rest →
      Inserted count curr (front :: rest) (curr.setChild k ((curr.child k).addCount count))
  | parts {curr next : Node} {front : Char} {rest : List Char} {k j : Nat} : curr.next front = some k →
      diff (curr.child k).pfx (front :: rest) = some j → Inserted count ((curr.child k).split j) rest next →
      Inserted count curr (front :: rest) (curr.setChild k next)

private theorem insertFrom_inserted (fuel : Nat) (curr : Node) (word : List Char) (i count : Nat)
    (hne : word.drop i ≠ []) (hfuel : (word.drop i).length ≤ fuel) :
    Inserted count curr (word.drop i) (insertFrom fuel curr word i count) := by
  induction fuel generalizing curr i with
  | zero =>
    have hpos := List.length_pos_of_ne_nil hne
    omega
  | succ fuel ih =>
    obtain ⟨front, rest, hsub⟩ := List.exists_cons_of_ne_nil hne
    rw [hsub] at hfuel ⊢
    rw [insertFrom, hsub]
    simp only
    cases hnext : curr.next front with
    | none => exact .new hnext
    | some k =>
      obtain ⟨tail, htail⟩ := next_some_cons hnext
      have h0 : (curr.child k).pfx[0]? = (front :: rest)[0]? := by simp [htail]
      have hpos : 0 < (curr.child k).pfx.length := by simp [htail]
      simp only
      cases hdiff : diff (curr.child k).pfx (front :: rest) with
      | none =>
        simp only
        by_cases hpartial : (curr.child k).pfx.length < (front :: rest).length
        · obtain ⟨q, hq⟩ : (curr.child k).pfx <+: front :: rest := by
            rcases diff_none h0 hdiff with h' | h'
            · exact h'
            · exact absurd h'.length_le (by omega)
          have hrest : word.drop (i + ((curr.child k).pfx.length - 1) + 1) = q := by
            rw [drop_drop_pfx hsub hpos, ← hq, List.drop_left]
          have hlen := congrArg List.length hq
          rw [List.length_append] at hlen
          have hround := ih (curr.child k) (i + ((curr.child k).pfx.length - 1) + 1)
          rw [hrest] at hround
          rw [if_pos hpartial]
          exact .deeper hnext hq.symm (hround (List.ne_nil_of_length_pos (by omega)) (by omega))
        · have hpre : front :: rest <+: (curr.child k).pfx := by
            rcases diff_none h0 hdiff with h' | h'
            · have heq := h'.eq_of_length_le (by omega)
              exact ⟨[], by rw [List.append_nil, heq]⟩
            · exact h'
          rw [if_neg hpartial]
          by_cases hlt : (front :: rest).length < (curr.child k).pfx.length
          · rw [if_pos hlt]
            exact .cut hnext hpre hlt
          · rw [if_neg hlt]
            exact .same hnext (hpre.eq_of_length_le (by omega)).symm
      | some j =>
        obtain ⟨hj, -, hlt, -, -⟩ := diff_some h0 hdiff
        have hrest : word.drop (i + 1) = rest := by rw [← List.drop_drop, hsub, List.drop_one, List.tail_cons]
        have hround := ih ((curr.child k).split j) (i + 1)
        rw [hrest] at hround
        rw [List.length_cons] at hlt hfuel
        exact .parts hnext hdiff (hround (List.ne_nil_of_length_pos (by omega)) (by omega))

theorem insert_inserted (root : Node) {word : List Char} (hne : word ≠ []) (count : Nat) :
    Inserted count root word (root.insert word count) := by
  have hloop := insertFrom_inserted (word.length + 1) root word 0 count (by rwa [List.drop_zero]) (by simp)
  rwa [List.drop_zero] at hloop

/-- An insertion keeps the prefix of the node and lands its count; by induction on the rounds. -/
private theorem Inserted.lands {curr next : Node} {word : List Char} {count : Nat} (h : Inserted count curr word next) :
    next.pfx = curr.pfx ∧ ∃ d forks, (∀ path, place next path = landed (place curr) d count forks path) ∧
      Landing (place curr) word d forks := by
  induction h with
  | @new curr front rest hnext => exact ⟨rfl, front :: rest, [], lands_new hnext rest count, landing_new hnext rest⟩
  | deeper hnext hword _ ih =>
    obtain ⟨hpfx, d, forks, hlands, hlanding⟩ := ih
    rw [hword]
    exact ⟨rfl, _, _, lands_below hnext hpfx hlands, landing_below hnext hlanding⟩
  | cut hnext hpre hlt =>
    have hlands := lands_stop hnext rfl hpre count
    rw [if_pos hlt] at hlands
    exact ⟨rfl, _, [], hlands, landing_stop hnext hpre⟩
  | @same curr front rest k hnext hpfx =>
    have hpre : front :: rest <+: (curr.child k).pfx := hpfx ▸ List.prefix_rfl
    have hlands := lands_stop hnext rfl hpre count
    rw [if_neg (by rw [hpfx]; exact Nat.lt_irrefl _)] at hlands
    exact ⟨rfl, _, [], hlands, landing_stop hnext hpre⟩
  | @parts curr next front rest k j hnext hdiff _ ih =>
    obtain ⟨hpfx, d, forks, hlands, hlanding⟩ := ih
    obtain ⟨tail, htail⟩ := next_some_cons hnext
    obtain ⟨hj, hlt', hlt, hagree, hne⟩ := diff_some (by simp [htail]) hdiff
    refine ⟨rfl, _, _, fun path => ?_, landing_split hnext rfl hj hlt hlt' hagree hne hlanding⟩
    -- the rounds go on in the tree with the split child
    have hsplit := place_setChild_split hnext hj hlt'
    have hnext' : (curr.setChild k ((curr.child k).split j)).next front = some k := by
      rw [next_setChild hnext (split_head hnext hj), hnext]
    have hchild : (curr.setChild k ((curr.child k).split j)).child k = (curr.child k).split j :=
      child_setChild_self (next_some hnext).1
    rw [← hchild] at hpfx hlands
    have hpath := lands_below hnext' hpfx hlands path
    rw [← landed_split (place_take hnext hj hlt'), ← funext hsplit]
    rw [setChild_setChild, hchild] at hpath
    exact hpath

/-- `Insert` lands its count. -/
theorem insert_lands (root : Node) {word : List Char} (hne : word ≠ []) (count : Nat) :
    ∃ d forks, (∀ path, place (root.insert word count) path = landed (place root) d count forks path) ∧
      Landing (place root) word d forks := (insert_inserted root hne count).lands.2

end Cs564.WordLocator
