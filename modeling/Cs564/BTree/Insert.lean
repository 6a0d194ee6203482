import Cs564.BTree.Run
import Cs564.BTree.Tree

/-!
# Insertion keeps the tree

`insertUnderNode_spec` follows the recursion of the source: called for a subtree with `h` levels above its leaves, it
leaves one subtree with the new entry behind all entries whose key is not larger, or two subtrees that share them and
the key between them.  `Grows` collects what the caller has to know about the rest of the store.  `Tree.insertEntry`
is the same for the whole index, where a second subtree becomes a new level.
-/

namespace Cs564.BTree

open PageStore

/-- The subtree of the given pages under a non-leaf. -/
def Branch.node (p : Nat) (subs : List Branch) : Branch :=
  ⟨p, p :: subs.flatMap (·.pages), subs.flatMap (·.leaves)⟩

theorem Branch.node_entries (p : Nat) (subs : List Branch) :
    (Branch.node p subs).entries = subs.flatMap Branch.entries := List.flatMap_assoc

theorem Branch.node_leafPages (p : Nat) (subs : List Branch) :
    (Branch.node p subs).leafPages = subs.flatMap Branch.leafPages := List.map_flatMap

/-- From the store `s` to the store `s'` the subtree `t` was replaced by the subtrees `ts`, which have the entry `e`
in addition. -/
structure Grows (s s' : PageStore) (t : Branch) (e : RIDKeyPair) (ts : List Branch) : Prop where
  mono : s.numPages ≤ s'.numPages
  frame : ∀ p < s.numPages, p ∉ t.pages → s'.pages p = s.pages p
  pages : ∀ p ∈ ts.flatMap (·.pages), p ∈ t.pages ∨ s.numPages ≤ p ∧ p < s'.numPages
  nodup : (ts.flatMap (·.pages)).Nodup
  entries : ts.flatMap Branch.entries = insertEntryList t.entries e
  chain : ∀ a z, Chain s.next a t.leafPages z → Chain s'.next a (ts.flatMap Branch.leafPages) z

/-- What a call of `insertUnderNode` for the subtree `t` leaves behind when it returns `c`. -/
def Inserted (s s' : PageStore) (h : Nat) (root : Bool) (t : Branch) (e : RIDKeyPair) (c : PageKeyPair) : Prop :=
  (c.pageNo = INVALID_NUMBER ∧ ∃ t', t'.page = t.page ∧ Subtree s' h root t' ∧ Grows s s' t e [t']) ∨
  (c.pageNo ≠ INVALID_NUMBER ∧ ∃ t₁ t₂, t₁.page = t.page ∧ t₂.page = c.pageNo ∧ t₂.firstKey = some c.key ∧
    Subtree s' h false t₁ ∧ Subtree s' h false t₂ ∧ Grows s s' t e [t₁, t₂])

theorem Inserted.grows {s s' : PageStore} {h : Nat} {root : Bool} {t : Branch} {e : RIDKeyPair} {c : PageKeyPair}
    (hins : Inserted s s' h root t e c) : ∃ ts, Grows s s' t e ts := by
  rcases hins with ⟨-, t', -, -, hg⟩ | ⟨-, t₁, t₂, -, -, -, -, -, hg⟩
  · exact ⟨_, hg⟩
  · exact ⟨_, hg⟩

/-! ### Lists with one part replaced -/

private theorem nodup_replace {α : Type} {A U V B : List α} (h : (A ++ U ++ B).Nodup) (hV : V.Nodup)
    (hd : ∀ x ∈ V, x ∈ U ∨ x ∉ A ∧ x ∉ B) : (A ++ V ++ B).Nodup := by
  simp only [List.nodup_append, List.mem_append] at h ⊢
  obtain ⟨⟨hA, hU, hAU⟩, hB, hAB⟩ := h
  refine ⟨⟨hA, hV, fun a ha x hx hax => ?_⟩, hB, fun x hx b hb hxb => ?_⟩
  · subst hax
    rcases hd a hx with hxU | hxA
    · exact hAU a ha a hxU rfl
    · exact hxA.1 ha
  · subst hxb
    rcases hx with hx | hx
    · exact hAB x (Or.inl hx) x hb rfl
    · rcases hd x hx with hxU | hxB
      · exact hAB x (Or.inr hxU) x hb rfl
      · exact hxB.2 hb

private theorem insertIdx_append_cons {α : Type} (A B : List α) (u x : α) :
    (A ++ u :: B).insertIdx (A.length + 1) x = A ++ u :: x :: B := by
  induction A with
  | nil => rfl
  | cons a A ih => simpa using ih

private theorem insertIdx_tail {α β : Type} (f : α → β) (A B : List α) {u u' x : α} (hu : A ≠ [] → f u' = f u) :
    (A ++ u' :: x :: B).tail.map f = ((A ++ u :: B).tail.map f).insertIdx A.length (f x) := by
  cases A with
  | nil => simp
  | cons a A =>
    have := insertIdx_append_cons (A.map f) (B.map f) (f u) (f x)
    simpa [hu (by simp)] using this.symm

/-! ### Splicing subtrees into a node -/

section Splice

variable {s s₁ s₂ : PageStore} {h : Nat} {root aboveLeaves : Bool} {t u : Branch} {n : NonLeafNodeInt}
  {keys : List Int} {A B ts : List Branch} {e : RIDKeyPair}

/-- The pages of the neighbours of `u` were not touched. -/
private theorem neighbour_pages (hn : IsNode s root aboveLeaves t n keys (A ++ u :: B)) (hnd : t.pages.Nodup)
    (hlt : ∀ p ∈ t.pages, p < s.numPages) (hg : Grows s s₁ u e ts)
    (h₂ : ∀ p < s₁.numPages, p ≠ t.page → s₂.pages p = s₁.pages p) {v : Branch} (hv : v ∈ A ++ B) :
    ∀ p ∈ v.pages, s₂.pages p = s.pages p := by
  intro p hp
  have hsub : v ∈ A ++ u :: B := by
    simp only [List.mem_append, List.mem_cons] at hv ⊢
    exact hv.imp id Or.inr
  have hps := hlt p (hn.sub_pages hsub p hp)
  have hne : p ≠ t.page := fun heq => hn.sub_page_ne hnd hsub (heq ▸ hp)
  have hnotin : p ∉ u.pages := by
    intro hpu
    have hall := (hn.pages_nodup hnd).2
    rw [List.flatMap_append, List.flatMap_cons, List.nodup_append] at hall
    obtain ⟨-, hB, hA⟩ := hall
    rw [List.nodup_append] at hB
    rcases List.mem_append.1 hv with hv | hv
    · exact hA p (List.mem_flatMap.2 ⟨v, hv, hp⟩) p (List.mem_append_left _ hpu) rfl
    · exact hB.2.2 p hpu p (List.mem_flatMap.2 ⟨v, hv, hp⟩) rfl
  rw [h₂ p (Nat.lt_of_lt_of_le hps hg.mono) hne, hg.frame p hps hnotin]

/-- Replacing the subtree `u` by the subtrees `ts` gives the subtrees of the new node. -/
private theorem spliced_subtrees (hn : IsNode s root aboveLeaves t n keys (A ++ u :: B))
    (hsubs : ∀ v ∈ A ++ u :: B, Subtree s h false v) (hnd : t.pages.Nodup) (hlt : ∀ p ∈ t.pages, p < s.numPages)
    (hg : Grows s s₁ u e ts) (hts : ∀ v ∈ ts, Subtree s₁ h false v)
    (h₂ : ∀ p < s₁.numPages, p ≠ t.page → s₂.pages p = s₁.pages p) : ∀ v ∈ A ++ ts ++ B, Subtree s₂ h false v := by
  intro v hv
  have hu : u ∈ A ++ u :: B := by simp
  by_cases hvt : v ∈ ts
  · refine (hts v hvt).frame fun p hp => ?_
    rcases hg.pages p (List.mem_flatMap.2 ⟨v, hvt, hp⟩) with hpu | hnew
    · have hps := hlt p (hn.sub_pages hu p hpu)
      exact h₂ p (Nat.lt_of_lt_of_le hps hg.mono) fun heq => hn.sub_page_ne hnd hu (heq ▸ hpu)
    · have := hlt _ hn.page_mem
      exact h₂ p hnew.2 (by omega)
  · have hvAB : v ∈ A ++ B := by
      simp only [List.mem_append] at hv ⊢
      tauto
    refine (hsubs v ?_).frame (neighbour_pages hn hnd hlt hg h₂ hvAB)
    simp only [List.mem_append, List.mem_cons] at hvAB ⊢
    tauto

/-- The node over the spliced subtrees has grown as the subtree has. -/
private theorem Grows.node (hn : IsNode s root aboveLeaves t n keys (A ++ u :: B))
    (hsubs : ∀ v ∈ A ++ u :: B, Subtree s h false v) (hts : ∀ v ∈ ts, Subtree s₁ h false v) (hnd : t.pages.Nodup)
    (hlt : ∀ p ∈ t.pages, p < s.numPages) (hg : Grows s s₁ u e ts) (hle : s₁.numPages ≤ s₂.numPages)
    (h₂ : ∀ p < s₁.numPages, p ≠ t.page → s₂.pages p = s₁.pages p)
    (hA : ∀ x ∈ A.flatMap Branch.entries, x.key ≤ e.key) (hB : ∀ x ∈ B.flatMap Branch.entries, e.key < x.key) :
    Grows s s₂ t e [Branch.node t.page (A ++ ts ++ B)] := by
  have hu : u ∈ A ++ u :: B := by simp
  have hmono := hg.mono
  have htlt := hlt _ hn.page_mem
  have hspl := spliced_subtrees hn hsubs hnd hlt hg hts h₂
  have hpages : ∀ p ∈ ts.flatMap (·.pages), p ∈ u.pages ∨ s.numPages ≤ p ∧ p < s₂.numPages := fun p hp =>
    (hg.pages p hp).imp id fun hnew => ⟨hnew.1, by omega⟩
  have hnew : ∀ p ∈ t.pages, ¬s.numPages ≤ p := fun p hp => by have := hlt p hp; omega
  refine ⟨by omega, fun p hp hpt => ?_, fun p hp => ?_, ?_, ?_, fun a z hc => ?_⟩
  · have hpu : p ∉ u.pages := fun hpu => hpt (hn.sub_pages hu p hpu)
    rw [h₂ p (by omega) fun heq => hpt (heq ▸ hn.page_mem), hg.frame p hp hpu]
  · simp only [List.flatMap_cons, List.flatMap_nil, List.append_nil, Branch.node, List.mem_cons,
      List.flatMap_append, List.mem_append] at hp
    rcases hp with rfl | (hp | hp) | hp
    · exact Or.inl hn.page_mem
    · obtain ⟨v, hv, hpv⟩ := List.mem_flatMap.1 hp
      exact Or.inl (hn.sub_pages (by simp [hv]) p hpv)
    · exact (hpages p hp).imp (hn.sub_pages hu p) id
    · obtain ⟨v, hv, hpv⟩ := List.mem_flatMap.1 hp
      exact Or.inl (hn.sub_pages (by simp [hv]) p hpv)
  · obtain ⟨hp, hall⟩ := hn.pages_nodup hnd
    rw [List.flatMap_append, List.flatMap_cons, ← List.append_assoc] at hall hp
    simp only [List.flatMap_cons, List.flatMap_nil, List.append_nil, Branch.node, List.nodup_cons,
      List.flatMap_append]
    refine ⟨?_, nodup_replace hall hg.nodup fun p hp => (hpages p hp).imp id fun hge => ?_⟩
    · simp only [List.mem_append, not_or] at hp ⊢
      refine ⟨⟨hp.1.1, fun hpt => ?_⟩, hp.2⟩
      rcases hpages _ hpt with hpu | hge
      · exact hp.1.2 hpu
      · exact hnew _ hn.page_mem hge.1
    · constructor <;> intro hpv <;> obtain ⟨v, hv, hpv⟩ := List.mem_flatMap.1 hpv <;>
        exact hnew p (hn.sub_pages (by simp [hv]) p hpv) hge.1
  · have hent : t.entries = A.flatMap Branch.entries ++ u.entries ++ B.flatMap Branch.entries := by
      rw [hn.entries_eq, ← List.flatMap_def, List.flatMap_append, List.flatMap_cons, List.append_assoc]
    rw [hent, insertEntryList, insertBehind_append _ hA hB, ← insertEntryList, ← hg.entries]
    simp only [List.flatMap_cons, List.flatMap_nil, List.append_nil, Branch.node_entries, List.flatMap_append]
  · rw [hn.leafPages_eq, List.flatMap_append, List.flatMap_cons] at hc
    obtain ⟨m₁, hc₁, hc⟩ := chain_append.1 hc
    obtain ⟨m₂, hc₂, hc₃⟩ := chain_append.1 hc
    have hcongr : ∀ C : List Branch, (∀ v ∈ C, v ∈ A ++ B) →
        ∀ p ∈ C.flatMap Branch.leafPages, s₂.next p = s.next p := by
      intro C hC p hp
      obtain ⟨v, hv, hpv⟩ := List.mem_flatMap.1 hp
      have hvsub : v ∈ A ++ u :: B := by
        have := hC v hv
        simp only [List.mem_append, List.mem_cons] at this ⊢
        tauto
      rw [next, next, neighbour_pages hn hnd hlt hg h₂ (hC v hv) p ((hsubs v hvsub).leafPages_subset p hpv)]
    have hts₂ : ∀ p ∈ ts.flatMap Branch.leafPages, s₂.next p = s₁.next p := by
      intro p hp
      obtain ⟨v, hv, hpv⟩ := List.mem_flatMap.1 hp
      have hpp := (hts v hv).leafPages_subset p hpv
      rw [next, next]
      congr 2
      rcases hg.pages p (List.mem_flatMap.2 ⟨v, hv, hpp⟩) with hpu | hge
      · have hps := hlt p (hn.sub_pages hu p hpu)
        exact h₂ p (by omega) fun heq => hn.sub_page_ne hnd hu (heq ▸ hpu)
      · exact h₂ p hge.2 (by omega)
    have hgoal : ([Branch.node t.page (A ++ ts ++ B)].flatMap Branch.leafPages) =
        A.flatMap Branch.leafPages ++ (ts.flatMap Branch.leafPages ++ B.flatMap Branch.leafPages) := by
      simp only [List.flatMap_cons, List.flatMap_nil, List.append_nil, Branch.node_leafPages, List.flatMap_append,
        List.append_assoc]
    rw [hgoal]
    exact chain_append.2 ⟨m₁, hc₁.congr (hcongr A fun v hv => by simp [hv]),
      chain_append.2 ⟨m₂, (hg.chain _ _ hc₂).congr hts₂, hc₃.congr (hcongr B fun v hv => by simp [hv])⟩⟩

/-- Dividing the subtrees of a node between it and a new page. -/
private theorem Grows.split {p q : Nat} {X Y : List Branch} (hg : Grows s s₂ t e [Branch.node p (X ++ Y)])
    (hq : s.numPages ≤ q) (hq₂ : q < s₂.numPages) (hpq : p ≠ q)
    (hnew : ∀ v ∈ X ++ Y, q ∉ v.pages) : Grows s s₂ t e [Branch.node p X, Branch.node q Y] := by
  have hqX : q ∉ (X ++ Y).flatMap (·.pages) := by
    rintro hmem
    obtain ⟨v, hv, hqv⟩ := List.mem_flatMap.1 hmem
    exact hnew v hv hqv
  obtain ⟨mono, frame, pages, nodup, entries, chain⟩ := hg
  refine ⟨mono, frame, fun r hr => ?_, ?_, ?_, ?_⟩
  · by_cases hrq : r = q
    · exact Or.inr ⟨hrq ▸ hq, hrq ▸ hq₂⟩
    · apply pages r
      simp only [List.flatMap_cons, List.flatMap_nil, List.append_nil, Branch.node, List.mem_append, List.mem_cons,
        List.flatMap_append] at hr ⊢
      tauto
  · simp only [List.flatMap_cons, List.flatMap_nil, List.append_nil, Branch.node, List.flatMap_append] at nodup hqX ⊢
    have hperm : (p :: X.flatMap (·.pages) ++ q :: Y.flatMap (·.pages)).Perm
        (q :: (p :: (X.flatMap (·.pages) ++ Y.flatMap (·.pages)))) := List.perm_middle
    rw [hperm.nodup_iff, List.nodup_cons]
    refine ⟨?_, nodup⟩
    rw [List.mem_cons, not_or]
    exact ⟨Ne.symm hpq, hqX⟩
  · rw [← entries]
    simp [Branch.node_entries]
  · intro a z hc
    have := chain a z hc
    simpa [Branch.node_leafPages] using this

/-- The subtree in front keeps the first key, if the new entry belongs behind it. -/
private theorem Grows.firstKey {us : List Branch} (hg : Grows s s₁ u e (t :: us)) (hne : t.entries ≠ [])
    {x : RIDKeyPair} (hx : u.entries.head? = some x) (hle : x.key ≤ e.key) : t.firstKey = u.firstKey := by
  have hhead : (t.entries ++ us.flatMap Branch.entries).head? = some x := by
    rw [← List.flatMap_cons, hg.entries]
    exact head?_insertBehind RIDKeyPair.key hx hle
  rw [List.head?_append_of_ne_nil _ hne] at hhead
  rw [Branch.firstKey, Branch.firstKey, hhead, hx]

/-- The pages under the spliced subtrees are old. -/
private theorem spliced_lt (hn : IsNode s root aboveLeaves t n keys (A ++ u :: B))
    (hlt : ∀ p ∈ t.pages, p < s.numPages) (hg : Grows s s₁ u e ts) {v : Branch} (hv : v ∈ A ++ ts ++ B) :
    ∀ p ∈ v.pages, p < s₁.numPages := by
  intro p hp
  have hmono := hg.mono
  have hold : v ∈ A ++ u :: B → p < s₁.numPages := fun hsub => by
    have := hlt p (hn.sub_pages hsub p hp)
    omega
  simp only [List.mem_append] at hv
  rcases hv with (hv | hv) | hv
  · exact hold (by simp [hv])
  · rcases hg.pages p (List.mem_flatMap.2 ⟨v, hv, hp⟩) with hpu | hnew
    · have := hlt p (hn.sub_pages (by simp) p hpu)
      omega
    · exact hnew.2
  · exact hold (by simp [hv])

end Splice

/-! ### The recursion -/

section Recursion

variable {s s₁ : PageStore} {h : Nat} {root : Bool} {t u : Branch} {e : RIDKeyPair}

/-- A leaf, as a subtree. -/
def Branch.leaf (p : Nat) (es : List RIDKeyPair) : Branch := ⟨p, [p], [(p, es)]⟩

theorem IsLeaf.entries_eq {n : LeafNodeInt} {es : List RIDKeyPair} (hl : IsLeaf s root t n es) : t.entries = es := by
  rw [Branch.entries, hl.leaves]
  simp

theorem IsLeaf.leafPages_eq {n : LeafNodeInt} {es : List RIDKeyPair} (hl : IsLeaf s root t n es) :
    t.leafPages = [t.page] := by
  rw [Branch.leafPages, hl.leaves]
  rfl

/-- What a call of `insertUnderNode` needs. -/
structure Ready (s : PageStore) (h : Nat) (root : Bool) (t : Branch) (e : RIDKeyPair) : Prop where
  subtree : Subtree s h root t
  nodup : t.pages.Nodup
  lt : ∀ p ∈ t.pages, p < s.numPages
  sorted : KeySorted RIDKeyPair.key t.entries
  valid : e.rid.page_number ≠ INVALID_NUMBER

theorem Ready.page_lt (hr : Ready s h root t e) : t.page < s.numPages := hr.lt _ hr.subtree.page_mem

/-- Insertion into a leaf with a free slot. -/
private theorem inserted_leaf (hr : Ready s 0 root t e) {n : LeafNodeInt} {es : List RIDKeyPair}
    (hl : IsLeaf s root t n es) (hs : es.length < leafOccupancy) :
    Inserted s (s.write t.page (.leaf ((n.withEntry e).setBound (es.length + 1)))) 0 root t e
      ⟨INVALID_NUMBER, e.key⟩ := by
  have hlen : (insertEntryList es e).length = es.length + 1 := length_insertBehind _ _ _
  have hpage : (s.write t.page (.leaf ((n.withEntry e).setBound (es.length + 1)))).pages t.page =
      .leaf ((n.withEntry e).setBound (es.length + 1)) := Function.update_self ..
  refine Or.inl ⟨rfl, Branch.leaf t.page (insertEntryList es e), rfl, ⟨_, _, hpage, hl.holds.insert hr.valid hs, ?_,
    rfl, rfl⟩, ?_⟩
  · intro hroot
    have := hl.half hroot
    omega
  · refine ⟨Nat.le_refl _, fun p hp hpt => ?_, ?_, ?_, ?_, fun a z hc => ?_⟩
    · rw [write_pages, Function.update_of_ne fun heq => hpt (by rw [heq, hl.pages]; simp)]
    · simp [Branch.leaf, hl.pages]
    · simp [Branch.leaf]
    · rw [hl.entries_eq]
      simp [Branch.leaf, Branch.entries]
    · rw [hl.leafPages_eq] at hc
      obtain ⟨ha, hz⟩ := hc
      refine ⟨ha, Eq.trans ?_ hz⟩
      rw [next, next, hpage, hl.page]
      simp [LeafNodeInt.setBound]

/-- Insertion into a full leaf. -/
private theorem inserted_leaf_split (hr : Ready s 0 root t e) {n : LeafNodeInt} {es : List RIDKeyPair}
    (hl : IsLeaf s root t n es) (hs : es.length = leafOccupancy) {s' : PageStore} (hnum : s'.numPages = s.numPages + 1)
    (hframe : ∀ p, p ≠ t.page → p ≠ s.numPages → s'.pages p = s.pages p)
    (hleft : s'.pages t.page = .leaf ((n.withEntry e).leftHalf s.numPages))
    (hright : s'.pages s.numPages = .leaf ((n.withEntry e).rightHalf Page.fresh.asLeaf)) :
    Inserted s s' 0 root t e ⟨s.numPages, ((n.withEntry e).rightHalf Page.fresh.asLeaf).keyArray 0⟩ := by
  have hlen : (insertEntryList es e).length = es.length + 1 := length_insertBehind _ _ _
  have hlt := hr.page_lt
  have hL := hl.holds.left hr.valid hs s.numPages
  have hR := hl.holds.right hr.valid hs Page.fresh.asLeaf
  simp only [leafOccupancy_eq] at hs
  refine Or.inr ⟨?_, Branch.leaf t.page ((insertEntryList es e).take 341),
    Branch.leaf s.numPages ((insertEntryList es e).drop 341), rfl, rfl, ?_, ⟨_, _, hleft, hL, ?_, rfl, rfl⟩,
    ⟨_, _, hright, hR, ?_, rfl, rfl⟩, ?_⟩
  · show s.numPages ≠ 0
    omega
  · have hpos : 0 < ((insertEntryList es e).drop 341).length := by rw [List.length_drop]; omega
    rw [hR.key_eq hpos, Branch.firstKey]
    simp only [Branch.leaf, Branch.entries, List.flatMap_cons, List.flatMap_nil, List.append_nil]
    rw [List.head?_eq_getElem?, List.getElem?_eq_getElem hpos]
    rfl
  · intro _
    rw [List.length_take]
    omega
  · intro _
    rw [List.length_drop]
    omega
  · refine ⟨by omega, fun p hp hpt => ?_, fun p hp => ?_, ?_, ?_, fun a z hc => ?_⟩
    · exact hframe p (fun heq => hpt (by rw [heq, hl.pages]; simp)) (by omega)
    · simp only [Branch.leaf, List.flatMap_cons, List.flatMap_nil, List.append_nil, List.cons_append, List.nil_append,
        List.mem_cons, List.not_mem_nil, or_false] at hp
      rcases hp with rfl | rfl
      · exact Or.inl hr.subtree.page_mem
      · exact Or.inr ⟨Nat.le_refl _, by omega⟩
    · have hne : t.page ≠ s.numPages := by omega
      simpa [Branch.leaf] using hne
    · rw [hl.entries_eq]
      simp [Branch.leaf, Branch.entries, List.take_append_drop]
    · rw [hl.leafPages_eq] at hc
      obtain ⟨ha, hz⟩ := hc
      refine ⟨ha, ?_, Eq.trans ?_ hz⟩
      · rw [next, hleft, asLeaf_leaf, LeafNodeInt.leftHalf_eq]
        rfl
      · rw [next, next, hright, hl.page, asLeaf_leaf, asLeaf_leaf, LeafNodeInt.rightHalf_eq]
        simp [LeafNodeInt.setBound]

/-- `insertUnderNode` at a leaf. -/
private theorem spec_leaf (hr : Ready s 0 root t e) :
    ∃ c s', insertUnderNode layer 1 e t.page true s = .ok c s' ∧ Inserted s s' 0 root t e c := by
  obtain ⟨n, es, hl⟩ := hr.subtree
  have hpage : (s.pages t.page).asLeaf = n := by rw [hl.page, asLeaf_leaf]
  have hlt := hr.page_lt
  have hsize := hl.holds.size
  rw [insertUnderNode_leaf 0 e t.page s hpage, hl.holds.entryNum_eq]
  by_cases hs : es.length = leafOccupancy
  · rw [if_pos hs]
    refine ⟨_, _, rfl, inserted_leaf_split hr hl hs rfl (fun p hpt hpn => ?_) (Function.update_self ..) ?_⟩
    · simp only [write_pages, alloc_pages, write_numPages]
      rw [Function.update_of_ne hpt, Function.update_of_ne hpn, Function.update_of_ne hpn, Function.update_of_ne hpt]
    · simp only [write_pages]
      rw [Function.update_of_ne (Nat.ne_of_gt hlt), Function.update_self]
  · rw [if_neg hs]
    refine ⟨_, _, rfl, ?_⟩
    have hwrite : ∀ x y : Page, (s.write t.page x).write t.page y = s.write t.page y := fun x y => by
      rw [write, write, write, Function.update_idem]
    rw [hwrite]
    exact inserted_leaf hr hl (by omega)

variable {n : NonLeafNodeInt} {keys : List Int} {A B : List Branch} {c : PageKeyPair}

/-- A call at a non-leaf makes its recursive call at a subtree that is ready for it. -/
theorem Ready.sub (hr : Ready s (h + 1) root t e) (hn : IsNode s root (h == 0) t n keys (A ++ u :: B))
    (hsubs : ∀ v ∈ A ++ u :: B, Subtree s h false v) : Ready s h false u e := by
  have hu : u ∈ A ++ u :: B := by simp
  refine ⟨hsubs u hu, ?_, fun p hp => hr.lt p (hn.sub_pages hu p hp), ?_, hr.valid⟩
  · have hall := (hn.pages_nodup hr.nodup).2
    rw [List.flatMap_append, List.flatMap_cons, List.nodup_append, List.nodup_append] at hall
    exact hall.2.1.1
  · have hsorted := hr.sorted
    rw [hn.entries_eq, ← List.flatMap_def, List.flatMap_append, List.flatMap_cons, KeySorted, List.pairwise_append,
      List.pairwise_append] at hsorted
    exact hsorted.2.1.1

/-- The subtree was not split. -/
private theorem inserted_same (hr : Ready s (h + 1) root t e) (hn : IsNode s root (h == 0) t n keys (A ++ u :: B))
    (hsubs : ∀ v ∈ A ++ u :: B, Subtree s h false v) (hA : ∀ x ∈ A.flatMap Branch.entries, x.key ≤ e.key)
    (hB : ∀ x ∈ B.flatMap Branch.entries, e.key < x.key)
    (hhead : A ≠ [] → ∃ x, u.entries.head? = some x ∧ x.key ≤ e.key) {u' : Branch} (hpage : u'.page = u.page)
    (hu' : Subtree s₁ h false u') (hg : Grows s s₁ u e [u']) (hc : c.pageNo = INVALID_NUMBER) :
    Inserted s s₁ (h + 1) root t e c := by
  have hts : ∀ v ∈ [u'], Subtree s₁ h false v := by simpa using hu'
  have hself : ∀ p < s₁.numPages, p ≠ t.page → s₁.pages p = s₁.pages p := fun _ _ _ => rfl
  have hkids : (A ++ [u'] ++ B).map (·.page) = (A ++ u :: B).map (·.page) := by simp [hpage]
  have hlen : (A ++ [u'] ++ B).length = (A ++ u :: B).length := by simp
  have hold : s₁.pages t.page = s.pages t.page := hg.frame _ hr.page_lt (hn.sub_page_ne hr.nodup (by simp))
  refine Or.inl ⟨hc, Branch.node t.page (A ++ [u'] ++ B), rfl, ⟨n, keys, A ++ [u'] ++ B, ?_, ?_⟩, ?_⟩
  · refine ⟨hold.trans hn.page, hn.level, ?_, ?_, ?_, ?_, ?_, rfl, rfl⟩
    · rw [hkids]
      exact hn.holds
    · rw [← hn.separators]
      cases A with
      | nil => rfl
      | cons a A =>
        obtain ⟨x, hx, hle⟩ := hhead (by simp)
        have hfirst := hg.firstKey hu'.entries_ne_nil hx hle
        simp [hfirst]
    · rw [hlen]
      exact hn.half
    · rw [hlen]
      exact hn.two
    · rw [hkids]
      exact hn.closed
  · exact spliced_subtrees hn hsubs hr.nodup hr.lt hg hts hself
  · exact Grows.node hn hsubs hts hr.nodup hr.lt hg (Nat.le_refl _) hself hA hB

/-- The first keys of the children after a split below. -/
private theorem spliced_separators (hn : IsNode s root (h == 0) t n keys (A ++ u :: B))
    (hhead : A ≠ [] → ∃ x, u.entries.head? = some x ∧ x.key ≤ e.key) {u₁ u₂ : Branch} (hg : Grows s s₁ u e [u₁, u₂])
    (hne : u₁.entries ≠ []) (hkey : u₂.firstKey = some c.key) :
    (A ++ u₁ :: u₂ :: B).tail.map Branch.firstKey = (keys.insertIdx A.length c.key).map some := by
  rw [List.map_insertIdx, ← hn.separators, ← hkey]
  refine insertIdx_tail Branch.firstKey A B fun hA => ?_
  obtain ⟨x, hx, hle⟩ := hhead hA
  exact hg.firstKey hne hx hle

private theorem spliced_kids {u₁ u₂ : Branch} (h₁ : u₁.page = u.page) (h₂ : u₂.page = c.pageNo) :
    (A ++ u₁ :: u₂ :: B).map (·.page) = ((A ++ u :: B).map (·.page)).insertIdx (A.length + 1) c.pageNo := by
  have := insertIdx_append_cons (A.map (·.page)) (B.map (·.page)) u.page c.pageNo
  simp only [List.length_map] at this
  simp only [List.map_append, List.map_cons, this, h₁, h₂]

/-- The subtree was split, and the node has room for another child. -/
private theorem inserted_more (hr : Ready s (h + 1) root t e) (hn : IsNode s root (h == 0) t n keys (A ++ u :: B))
    (hsubs : ∀ v ∈ A ++ u :: B, Subtree s h false v) (hA : ∀ x ∈ A.flatMap Branch.entries, x.key ≤ e.key)
    (hB : ∀ x ∈ B.flatMap Branch.entries, e.key < x.key)
    (hhead : A ≠ [] → ∃ x, u.entries.head? = some x ∧ x.key ≤ e.key) {u₁ u₂ : Branch} (h₁ : u₁.page = u.page)
    (h₂ : u₂.page = c.pageNo) (hkey : u₂.firstKey = some c.key) (hu₁ : Subtree s₁ h false u₁)
    (hu₂ : Subtree s₁ h false u₂) (hg : Grows s s₁ u e [u₁, u₂]) (hc : c.pageNo ≠ INVALID_NUMBER)
    (hs : (A ++ u :: B).length < nodeOccupancy + 1) {k : Int} :
    Inserted s (s₁.write t.page (.nonLeaf ((n.withChild c A.length).setBound ((A ++ u :: B).length + 1)))) (h + 1) root
      t e ⟨INVALID_NUMBER, k⟩ := by
  have hts : ∀ v ∈ [u₁, u₂], Subtree s₁ h false v := by simp [hu₁, hu₂]
  have hoff : ∀ p < s₁.numPages, p ≠ t.page →
      (s₁.write t.page (.nonLeaf ((n.withChild c A.length).setBound ((A ++ u :: B).length + 1)))).pages p =
        s₁.pages p := fun p _ hp => Function.update_of_ne hp ..
  have hlist : A ++ [u₁, u₂] ++ B = A ++ u₁ :: u₂ :: B := by simp
  have hlen : (A ++ u₁ :: u₂ :: B).length = (A ++ u :: B).length + 1 := by
    simp
    omega
  have hpos : A.length ≤ keys.length := by
    have := hn.holds.len
    simp at this
    omega
  have hins := hn.holds.insert hc hpos (by simpa using hs)
  rw [List.length_map, ← spliced_kids h₁ h₂] at hins
  refine Or.inl ⟨rfl, Branch.node t.page (A ++ [u₁, u₂] ++ B), rfl,
    ⟨(n.withChild c A.length).setBound ((A ++ u :: B).length + 1), keys.insertIdx A.length c.key, A ++ [u₁, u₂] ++ B,
      ?_, ?_⟩, ?_⟩
  · rw [hlist]
    refine ⟨Function.update_self .., ?_, hins.1, ?_, ?_, ?_, Or.inl hins.2, rfl, rfl⟩
    · rw [← hn.level]
      exact withChild_level n c A.length
    · exact spliced_separators hn hhead hg hu₁.entries_ne_nil hkey
    · intro hroot
      have := hn.half hroot
      omega
    · have := hn.two
      omega
  · exact spliced_subtrees hn hsubs hr.nodup hr.lt hg hts hoff
  · exact Grows.node hn hsubs hts hr.nodup hr.lt hg (Nat.le_refl _) hoff hA hB

/-- The key that moves up is the first one of the right half's first subtree. -/
private theorem firstKey_rightHalf {subs X Y : List Branch} {ks : List Int} {k : Int} {p : PageId} (hXY : subs = X ++ Y)
    (hX : X.length = 512) (hY : 0 < Y.length) (hsep : subs.tail.map Branch.firstKey = ks.map some)
    (hk : ks[511]? = some k) (hne : ∀ v ∈ Y, v.entries ≠ []) : (Branch.node p Y).firstKey = some k := by
  obtain ⟨y, Y', rfl⟩ := List.exists_cons_of_length_pos hY
  have hy : (subs.tail.map Branch.firstKey)[511]? = some y.firstKey := by
    rw [← List.drop_one, List.map_drop, List.getElem?_drop, List.getElem?_map, hXY,
      List.getElem?_append_right (by omega), hX]
    rfl
  rw [hsep, List.getElem?_map, hk] at hy
  rw [Branch.firstKey, Branch.node_entries, List.flatMap_cons, List.head?_append_of_ne_nil _ (hne y (by simp))]
  exact (Option.some.inj hy).symm

/-- The subtree was split, and so is the node. -/
private theorem inserted_node_split (hr : Ready s (h + 1) root t e)
    (hn : IsNode s root (h == 0) t n keys (A ++ u :: B)) (hsubs : ∀ v ∈ A ++ u :: B, Subtree s h false v)
    (hA : ∀ x ∈ A.flatMap Branch.entries, x.key ≤ e.key) (hB : ∀ x ∈ B.flatMap Branch.entries, e.key < x.key)
    (hhead : A ≠ [] → ∃ x, u.entries.head? = some x ∧ x.key ≤ e.key) {u₁ u₂ : Branch} (h₁ : u₁.page = u.page)
    (h₂ : u₂.page = c.pageNo) (hkey : u₂.firstKey = some c.key) (hu₁ : Subtree s₁ h false u₁)
    (hu₂ : Subtree s₁ h false u₂) (hg : Grows s s₁ u e [u₁, u₂]) (hc : c.pageNo ≠ INVALID_NUMBER)
    (hs : (A ++ u :: B).length = nodeOccupancy + 1) {s₂ : PageStore} (hnum : s₂.numPages = s₁.numPages + 1)
    (hoff : ∀ p < s₁.numPages, p ≠ t.page → s₂.pages p = s₁.pages p)
    (hleft : s₂.pages t.page = .nonLeaf (n.withChild c A.length).leftHalf)
    (hright : s₂.pages s₁.numPages = .nonLeaf ((n.withChild c A.length).rightHalf Page.fresh.asNonLeaf)) :
    Inserted s s₂ (h + 1) root t e ⟨s₁.numPages, (n.withChild c A.length).newSlotKey⟩ := by
  have hts : ∀ v ∈ [u₁, u₂], Subtree s₁ h false v := by simp [hu₁, hu₂]
  have hlist : A ++ [u₁, u₂] ++ B = A ++ u₁ :: u₂ :: B := by simp
  have hall := spliced_subtrees hn hsubs hr.nodup hr.lt hg hts hoff
  have hgrow := Grows.node hn hsubs hts hr.nodup hr.lt hg (by omega) hoff hA hB
  have hpos : A.length ≤ keys.length := by
    have := hn.holds.len
    simp at this
    omega
  have hkids : ((A ++ u :: B).map (·.page)).length = nodeOccupancy + 1 := by simpa using hs
  have hL := hn.holds.left hc hpos hkids
  have hR := hn.holds.right hc hpos hkids Page.fresh.asNonLeaf
  have hslot := hn.holds.newSlotKey_eq (c := c) hpos hkids
  have hsep := spliced_separators hn hhead hg hu₁.entries_ne_nil hkey
  have hlen : (A ++ u₁ :: u₂ :: B).length = 1024 := by
    simp at hs ⊢
    omega
  rw [← spliced_kids h₁ h₂] at hL hR
  rw [hlist] at hgrow hall
  have hlevel := hn.level
  have hmono := hg.mono
  have htlt := hr.page_lt
  have hold : ∀ v ∈ A ++ u₁ :: u₂ :: B, s₁.numPages ∉ v.pages := fun v hv hp => by
    have := spliced_lt hn hr.lt hg (hlist ▸ hv) _ hp
    omega
  -- the children of the two halves, as lists of their own
  obtain ⟨X, Y, hXY, hX, hY⟩ : ∃ X Y, A ++ u₁ :: u₂ :: B = X ++ Y ∧ X = (A ++ u₁ :: u₂ :: B).take 512 ∧
      Y = (A ++ u₁ :: u₂ :: B).drop 512 := ⟨_, _, (List.take_append_drop 512 _).symm, rfl, rfl⟩
  have hXlen : X.length = 512 := by rw [hX, List.length_take]; omega
  have hYlen : Y.length = 512 := by rw [hY, List.length_drop]; omega
  rw [← List.map_take, ← hX] at hL
  rw [← List.map_drop, ← hY] at hR
  have hXsep : X.tail.map Branch.firstKey = ((keys.insertIdx A.length c.key).take 511).map some := by
    rw [hX, List.tail_take_eq_take_tail, List.map_take, hsep, List.map_take]
  have hYsep : Y.tail.map Branch.firstKey = ((keys.insertIdx A.length c.key).drop 512).map some := by
    rw [hY, List.tail_drop_eq_drop_tail, List.map_drop, hsep, List.map_drop]
  have hmid : (Branch.node s₁.numPages Y).firstKey = some (n.withChild c A.length).newSlotKey :=
    firstKey_rightHalf hXY hXlen (by omega) hsep hslot fun v hv => (hall v (by rw [hXY]; simp [hv])).entries_ne_nil
  rw [hXY] at hgrow hall hold
  refine Or.inr ⟨?_, Branch.node t.page X, Branch.node s₁.numPages Y, rfl, rfl, hmid,
    ⟨(n.withChild c A.length).leftHalf, (keys.insertIdx A.length c.key).take 511, X, ?_, fun v hv => ?_⟩,
    ⟨(n.withChild c A.length).rightHalf Page.fresh.asNonLeaf, (keys.insertIdx A.length c.key).drop 512, Y, ?_,
      fun v hv => ?_⟩, ?_⟩
  · show s₁.numPages ≠ 0
    omega
  · refine ⟨hleft, ?_, hL.1, hXsep, fun _ => ?_, ?_, Or.inl hL.2, rfl, rfl⟩
    · rw [← hlevel]
      exact withChild_level n c A.length
    · omega
    · omega
  · exact hall v (by simp [hv])
  · refine ⟨hright, ?_, hR.1, hYsep, fun _ => ?_, ?_, Or.inl hR.2, rfl, rfl⟩
    · rw [← hlevel]
      exact withChild_level n c A.length
    · omega
    · omega
  · exact hall v (by simp [hv])
  · exact hgrow.split hmono (by omega) (by omega) hold

/-- One call at a non-leaf: the node, the child it goes to, what the call for the child returned, and what the call
for the node makes of it. -/
structure Round (s : PageStore) (h : Nat) (root : Bool) (t : Branch) (e : RIDKeyPair) (n : NonLeafNodeInt)
    (keys : List Int) (A : List Branch) (u : Branch) (B : List Branch) (c : PageKeyPair) (s₁ : PageStore) : Prop where
  node : IsNode s root (h == 0) t n keys (A ++ u :: B)
  subs : ∀ v ∈ A ++ u :: B, Subtree s h false v
  left : ∀ x ∈ A.flatMap Branch.entries, x.key ≤ e.key
  right : ∀ x ∈ B.flatMap Branch.entries, e.key < x.key
  head : A ≠ [] → ∃ x, u.entries.head? = some x ∧ x.key ≤ e.key
  inserted : Inserted s s₁ h false u e c
  run : insertUnderNode layer (h + 2) e t.page false s =
    if c.pageNo = INVALID_NUMBER then .ok c s₁
    else if (A ++ u :: B).length = nodeOccupancy + 1 then
      .ok ⟨s₁.numPages, (n.withChild c A.length).newSlotKey⟩
        (((s₁.write t.page (.nonLeaf (n.withChild c A.length))).alloc.write s₁.numPages
          (.nonLeaf ((n.withChild c A.length).rightHalf Page.fresh.asNonLeaf))).write t.page
            (.nonLeaf (n.withChild c A.length).leftHalf))
    else
      .ok ⟨INVALID_NUMBER, e.key⟩
        ((s₁.write t.page (.nonLeaf (n.withChild c A.length))).write t.page
          (.nonLeaf ((n.withChild c A.length).setBound ((A ++ u :: B).length + 1))))

/-- The call at a non-leaf, where calls for its children are known to return. -/
private theorem Ready.exists_round (hr : Ready s (h + 1) root t e)
    (ih : ∀ u, Ready s h false u e →
      ∃ c s₁, insertUnderNode layer (h + 1) e u.page (h == 0) s = .ok c s₁ ∧ Inserted s s₁ h false u e c) :
    ∃ n keys A u B c s₁, Round s h root t e n keys A u B c s₁ := by
  obtain ⟨n, keys, subs, hn, hsubs⟩ := hr.subtree
  obtain ⟨A, u, B, rfl, hpos, hpage, hA, hB, hhead⟩ := hn.childPos_split hr.sorted e.key
  obtain ⟨c, s₁, hcall, hins⟩ := ih u (hr.sub hn hsubs)
  refine ⟨n, keys, A, u, B, c, s₁, hn, hsubs, hA, hB, hhead, hins, ?_⟩
  have hnode : (s.pages t.page).asNonLeaf = n := by rw [hn.page, asNonLeaf_nonLeaf]
  have hcall' : insertUnderNode layer (h + 1) e (n.pageNoArray (n.childPos e.key)) (decide (n.level ≠ 0)) s =
      .ok c s₁ := by
    rw [hpage, hn.level, ← hcall]
    cases h <;> rfl
  -- the call for the child does not touch the node
  have hold : s₁.pages t.page = s.pages t.page := by
    obtain ⟨ts, hg⟩ := hins.grows
    exact hg.frame _ hr.page_lt (hn.sub_page_ne hr.nodup (by simp))
  have hnode₁ : (s₁.pages t.page).asNonLeaf = n := by rw [hold, hnode]
  rw [insertUnderNode_nonLeaf (h + 1) e t.page s hnode hcall' hnode₁, hn.holds.entryNum_eq, ← hpos, List.length_map]

/-- A call for a subtree that is ready for it returns, and leaves the subtree or the two halves of it with the new
entry. -/
theorem insertUnderNode_spec (hr : Ready s h root t e) :
    ∃ c s', insertUnderNode layer (h + 1) e t.page (h == 0) s = .ok c s' ∧ Inserted s s' h root t e c := by
  induction h generalizing root t with
  | zero => exact spec_leaf hr
  | succ h ih =>
    obtain ⟨n, keys, A, u, B, c, s₁, r⟩ := hr.exists_round fun u hu => ih hu
    obtain ⟨hn, hsubs, hA, hB, hhead, hins, hrun⟩ := r
    rw [show ((h + 1 == 0) = false) from rfl, hrun]
    rcases hins with ⟨hc, u', hpu', hu', hg⟩ | ⟨hc, u₁, u₂, hp₁, hp₂, hkey, hu₁, hu₂, hg⟩
    · rw [if_pos hc]
      exact ⟨c, s₁, rfl, inserted_same hr hn hsubs hA hB hhead hpu' hu' hg hc⟩
    · rw [if_neg hc]
      have hsize := hn.holds.size
      rw [List.length_map] at hsize
      by_cases hs : (A ++ u :: B).length = nodeOccupancy + 1
      · rw [if_pos hs]
        have hmono := hg.mono
        have htlt := hr.page_lt
        refine ⟨_, _, rfl, inserted_node_split hr hn hsubs hA hB hhead hp₁ hp₂ hkey hu₁ hu₂ hg hc hs rfl
          (fun p hp hpt => ?_) (Function.update_self ..) ?_⟩
        · simp only [write_pages, alloc_pages, write_numPages]
          rw [Function.update_of_ne hpt, Function.update_of_ne (Nat.ne_of_lt hp),
            Function.update_of_ne (Nat.ne_of_lt hp), Function.update_of_ne hpt]
        · simp only [write_pages]
          rw [Function.update_of_ne (Nat.ne_of_gt (Nat.lt_of_lt_of_le htlt hmono)), Function.update_self]
      · rw [if_neg hs]
        refine ⟨_, _, rfl, ?_⟩
        have hwrite : ∀ x y : Page, (s₁.write t.page x).write t.page y = s₁.write t.page y := fun x y => by
          rw [write, write, write, Function.update_idem]
        rw [hwrite]
        exact inserted_more hr hn hsubs hA hB hhead hp₁ hp₂ hkey hu₁ hu₂ hg hc (by omega)

/-- The call at a non-leaf. -/
theorem Ready.round (hr : Ready s (h + 1) root t e) : ∃ n keys A u B c s₁, Round s h root t e n keys A u B c s₁ :=
  hr.exists_round fun _ hu => insertUnderNode_spec hu

end Recursion

end Cs564.BTree
