import Cs564.Auction.Parser
import Cs564.Lib.Checked
import Mathlib.Data.List.Nodup

/-!
# The keys of the auction tables

Whatever lists of items the loader is given, what it leaves behind satisfies the keys of the schema: the primary keys
and the names of the categories are distinct, and every reference finds its row.  Bids and categorizations of an item
come before the item itself, so the invariant of the rounds allows them to refer to the item that is `pending`.
-/

namespace Cs564.Auction

section Rows

variable {n i : Nat} {p : Nat → Bool}

theorem firstRow_some (h : firstRow n p = some i) : i < n ∧ p i = true := by
  obtain ⟨hmem, hi, -⟩ := List.find?_range_eq_some.mp h
  exact ⟨List.mem_range.mp hi, hmem⟩

theorem firstRow_none (h : firstRow n p = none) (hi : i < n) : p i = false := by
  have := List.find?_range_eq_none.mp h i hi
  simpa using this

theorem cell_mem {α : Type} {column : List α} {v : α} (h : cell column i = .ok v) : v ∈ column := by
  unfold cell at h
  split at h
  · next hv => exact Except.ok.inj h ▸ List.mem_of_getElem? hv
  · cases h

/-- A text that no row of a column holds. -/
theorem notMem_of_firstRow {column : List (List Char)} {v : List Char}
    (h : firstRow column.length (fun i => column[i]? == some v) = none) : v ∉ column := by
  intro hmem
  obtain ⟨i, hi, hv⟩ := List.mem_iff_getElem.mp hmem
  have := firstRow_none h hi
  simp [hi, hv] at this

end Rows

/-- A table of categories with distinct ids and names. -/
structure CategoryData.Keyed (t : CategoryData) : Prop where
  ids : t.uids.Nodup
  below : ∀ uid ∈ t.uids, uid < t.counter
  names : t.names.Nodup
  aligned : t.uids.length = t.names.length

/-- A table of users with distinct ids. -/
structure UserData.Keyed (t : UserData) : Prop where
  ids : t.uids.Nodup
  ratings : t.ratings.length = t.uids.length
  locations : t.locations.length = t.uids.length
  countries : t.countries.length = t.uids.length

/-- A table of bids with distinct ids, by `users` on `items`. -/
structure BidData.Keyed (users : List (List Char)) (items : List Json) (t : BidData) : Prop where
  ids : t.uids.Nodup
  below : ∀ uid ∈ t.uids, uid < t.counter
  byUsers : t.userIds ⊆ users
  onItems : t.itemIds ⊆ items
  userIds : t.userIds.length = t.uids.length
  itemIds : t.itemIds.length = t.uids.length
  times : t.times.length = t.uids.length
  amounts : t.amounts.length = t.uids.length

/-- A table that puts each of `items` at most once into each of `categories`. -/
structure CategorizationData.Keyed (categories : List Nat) (items : List Json) (t : CategorizationData) : Prop where
  pairs : (t.itemIds.zip t.cateIds).Pairwise fun x y => ¬ (x.1.same y.1 = true ∧ x.2 = y.2)
  ofItems : t.itemIds ⊆ items
  inCategories : t.cateIds ⊆ categories
  itemIds : t.itemIds.length = t.uids.length
  cateIds : t.cateIds.length = t.uids.length

/-- A table of items with distinct ids, sold by `users`. -/
structure ItemData.Keyed (users : List (List Char)) (t : ItemData) : Prop where
  ids : t.uids.Pairwise fun x y => ¬ x.same y = true
  bySellers : t.sellerIds ⊆ users
  sellerIds : t.sellerIds.length = t.uids.length
  names : t.names.length = t.uids.length
  currentlys : t.currentlys.length = t.uids.length
  buyPrices : t.buyPrices.length = t.uids.length
  firstBids : t.firstBids.length = t.uids.length
  numBidss : t.numBidss.length = t.uids.length
  starteds : t.starteds.length = t.uids.length
  endss : t.endss.length = t.uids.length
  descs : t.descs.length = t.uids.length

section Counters

variable {uids : List Nat} {counter : Nat}

/-- The counter of a class gives an id that no row has. -/
private theorem nodup_counter (hids : uids.Nodup) (hbelow : ∀ uid ∈ uids, uid < counter) :
    (uids ++ [counter]).Nodup := by
  have hfresh : counter ∉ uids := fun hmem => Nat.lt_irrefl _ (hbelow counter hmem)
  exact List.nodup_append_comm.mp (List.nodup_cons.mpr ⟨hfresh, hids⟩)

private theorem below_counter (hbelow : ∀ uid ∈ uids, uid < counter) :
    ∀ uid ∈ uids ++ [counter], uid < counter + 1 := by
  intro uid hmem
  rcases List.mem_append.mp hmem with hmem | hmem
  · exact Nat.lt_succ_of_lt (hbelow uid hmem)
  · rw [List.mem_singleton.mp hmem]
    exact Nat.lt_succ_self counter

end Counters

private theorem nodup_concat {α : Type} {l : List α} {a : α} (h : l.Nodup) (ha : a ∉ l) : (l ++ [a]).Nodup :=
  List.nodup_append_comm.mp (List.nodup_cons.mpr ⟨ha, h⟩)

private theorem concat_subset {α : Type} {l l' : List α} {a : α} (h : l ⊆ l') (ha : a ∈ l') : l ++ [a] ⊆ l' :=
  List.append_subset.mpr ⟨h, List.cons_subset.mpr ⟨ha, List.nil_subset _⟩⟩

theorem CategoryData.Keyed.addIfAbsent {t : CategoryData} {name : Json} {added : CategoryData × Nat} (h : t.Keyed)
    (hadd : t.addIfAbsent name = .ok added) : added.1.Keyed ∧ t.uids ⊆ added.1.uids ∧ added.2 ∈ added.1.uids := by
  unfold CategoryData.addIfAbsent at hadd
  obtain ⟨-, hadd⟩ := guard_eq_ok.mp hadd
  obtain ⟨safername, -, hadd⟩ := bind_eq_ok.mp hadd
  split at hadd
  · -- the category is there already
    obtain ⟨uid, huid, hadd⟩ := bind_eq_ok.mp hadd
    obtain rfl := pure_eq_ok.mp hadd
    exact ⟨h, List.Subset.refl _, cell_mem huid⟩
  · next hrow =>
    obtain rfl := pure_eq_ok.mp hadd
    refine ⟨⟨nodup_counter h.ids h.below, below_counter h.below, ?_, ?_⟩, List.subset_append_left _ _, ?_⟩
    · exact nodup_concat h.names (notMem_of_firstRow hrow)
    · show (t.uids ++ [t.counter]).length = (t.names ++ [safername]).length
      rw [List.length_append, List.length_append, h.aligned, List.length_singleton, List.length_singleton]
    · exact List.mem_append_right _ (List.mem_singleton_self t.counter)

private theorem fillText_length {column column' : List (List Char)} {i : Nat} {v : Json}
    (h : fillText column i v = .ok column') : column'.length = column.length := by
  unfold fillText at h
  obtain ⟨known, -, h⟩ := bind_eq_ok.mp h
  split at h
  · obtain ⟨saferv, -, h⟩ := bind_eq_ok.mp h
    obtain rfl := pure_eq_ok.mp h
    exact List.length_set
  · exact congrArg List.length (pure_eq_ok.mp h).symm

/-- The user of a record is in the table afterwards, under the escaped id. -/
theorem UserData.Keyed.smartAdd {t t' : UserData} {uid rating location country : Json} (h : t.Keyed)
    (hadd : t.smartAdd uid rating location country = .ok t') :
    t'.Keyed ∧ t.uids ⊆ t'.uids ∧ ∃ saferid ∈ t'.uids, saferstr uid = .ok saferid := by
  unfold UserData.smartAdd at hadd
  obtain ⟨-, hadd⟩ := guard_eq_ok.mp hadd
  obtain ⟨saferid, hsafer, hadd⟩ := bind_eq_ok.mp hadd
  split at hadd
  · next i hrow =>
    obtain ⟨known, -, hadd⟩ := bind_eq_ok.mp hadd
    obtain ⟨locations, hlocations, hadd⟩ := bind_eq_ok.mp hadd
    obtain ⟨countries, hcountries, hadd⟩ := bind_eq_ok.mp hadd
    obtain rfl := pure_eq_ok.mp hadd
    obtain ⟨-, hid⟩ := firstRow_some hrow
    refine ⟨⟨h.ids, ?_, ?_, ?_⟩, List.Subset.refl _, saferid, List.mem_of_getElem? (eq_of_beq hid), hsafer⟩
    · show (if _ then _ else _ : List Json).length = t.uids.length
      split
      · rw [List.length_set, h.ratings]
      · exact h.ratings
    · exact (fillText_length hlocations).trans h.locations
    · exact (fillText_length hcountries).trans h.countries
  · next hrow =>
    obtain ⟨saferrating, -, hadd⟩ := bind_eq_ok.mp hadd
    obtain ⟨saferlocation, -, hadd⟩ := bind_eq_ok.mp hadd
    obtain ⟨safercountry, -, hadd⟩ := bind_eq_ok.mp hadd
    obtain rfl := pure_eq_ok.mp hadd
    refine ⟨⟨nodup_concat h.ids (notMem_of_firstRow hrow), ?_, ?_, ?_⟩, List.subset_append_left _ _, saferid, ?_, hsafer⟩
    · simp only [List.length_append, List.length_singleton, h.ratings]
    · simp only [List.length_append, List.length_singleton, h.locations]
    · simp only [List.length_append, List.length_singleton, h.countries]
    · exact List.mem_append_right _ (List.mem_singleton_self saferid)

theorem BidData.Keyed.mono {users users' : List (List Char)} {items items' : List Json} {t : BidData}
    (h : t.Keyed users items) (husers : users ⊆ users') (hitems : items ⊆ items') : t.Keyed users' items' :=
  { h with byUsers := List.Subset.trans h.byUsers husers, onItems := List.Subset.trans h.onItems hitems }

theorem BidData.Keyed.add {users : List (List Char)} {items : List Json} {t : BidData}
    {userId itemId time amount : Json} {saferid : List Char} {added : BidData × Nat} (h : t.Keyed users items)
    (huser : saferstr userId = .ok saferid) (hmem : saferid ∈ users) (hitem : itemId ∈ items)
    (hadd : t.add userId itemId time amount = .ok added) : added.1.Keyed users items := by
  unfold BidData.add at hadd
  obtain ⟨-, hadd⟩ := guard_eq_ok.mp hadd
  obtain ⟨-, hadd⟩ := guard_eq_ok.mp hadd
  obtain ⟨saferuser, hsafer, hadd⟩ := bind_eq_ok.mp hadd
  obtain ⟨safertime, -, hadd⟩ := bind_eq_ok.mp hadd
  obtain ⟨saferamount, -, hadd⟩ := bind_eq_ok.mp hadd
  obtain rfl := pure_eq_ok.mp hadd
  obtain rfl : saferid = saferuser := Except.ok.inj (huser.symm.trans hsafer)
  refine ⟨nodup_counter h.ids h.below, below_counter h.below, concat_subset h.byUsers hmem,
    concat_subset h.onItems hitem, ?_, ?_, ?_, ?_⟩
  · simp only [List.length_append, List.length_singleton, h.userIds]
  · simp only [List.length_append, List.length_singleton, h.itemIds]
  · simp only [List.length_append, List.length_singleton, h.times]
  · simp only [List.length_append, List.length_singleton, h.amounts]

theorem CategorizationData.Keyed.mono {categories categories' : List Nat} {items items' : List Json}
    {t : CategorizationData} (h : t.Keyed categories items) (hcategories : categories ⊆ categories')
    (hitems : items ⊆ items') : t.Keyed categories' items' :=
  { h with ofItems := List.Subset.trans h.ofItems hitems, inCategories := List.Subset.trans h.inCategories hcategories }

theorem CategorizationData.Keyed.addIfAbsent {categories : List Nat} {items : List Json} {t : CategorizationData}
    {itemId : Json} {cateId : Nat} {added : CategorizationData × Nat} (h : t.Keyed categories items)
    (hitem : itemId ∈ items) (hcate : cateId ∈ categories) (hadd : t.addIfAbsent itemId cateId = .ok added) :
    added.1.Keyed categories items := by
  unfold CategorizationData.addIfAbsent at hadd
  obtain ⟨-, hadd⟩ := guard_eq_ok.mp hadd
  split at hadd
  · obtain ⟨uid, -, hadd⟩ := bind_eq_ok.mp hadd
    exact pure_eq_ok.mp hadd ▸ h
  · next hrow =>
    obtain rfl := pure_eq_ok.mp hadd
    refine ⟨?_, concat_subset h.ofItems hitem, concat_subset h.inCategories hcate, ?_, ?_⟩
    · have hlen : t.itemIds.length = t.cateIds.length := h.itemIds.trans h.cateIds.symm
      show ((t.itemIds ++ [itemId]).zip (t.cateIds ++ [cateId])).Pairwise _
      rw [List.zip_append hlen, List.zip_cons_cons, List.zip_nil_left, List.pairwise_append]
      refine ⟨h.pairs, List.pairwise_singleton _ _, fun x hx y hy => ?_⟩
      -- a row with this pair would have been found
      obtain rfl := List.mem_singleton.mp hy
      obtain ⟨i, hi, rfl⟩ := List.mem_iff_getElem.mp hx
      have hrange : i < t.itemIds.length := by
        rw [List.length_zip] at hi
        omega
      have hfound := firstRow_none hrow hrange
      have hcates : i < t.cateIds.length := hlen ▸ hrange
      rw [List.getElem_zip]
      rintro ⟨hsame, hcate⟩
      replace hcate : t.cateIds[i] = cateId := hcate
      replace hsame : t.itemIds[i].same itemId = true := hsame
      rw [List.getElem?_eq_getElem hrange, List.getElem?_eq_getElem hcates, Option.any_some, hsame, hcate] at hfound
      simp at hfound
    · simp only [List.length_append, List.length_singleton, h.itemIds]
    · simp only [List.length_append, List.length_singleton, h.cateIds]

theorem ItemData.Keyed.mono {users users' : List (List Char)} {t : ItemData} (h : t.Keyed users)
    (husers : users ⊆ users') : t.Keyed users' :=
  { h with bySellers := List.Subset.trans h.bySellers husers }

theorem ItemData.Keyed.add {users : List (List Char)} {t t' : ItemData}
    {uid sellerId name currently buyPrice firstBid numBids started ends desc : Json} {saferid : List Char}
    (h : t.Keyed users) (hseller : saferstr sellerId = .ok saferid) (hmem : saferid ∈ users)
    (hadd : t.add uid sellerId name currently buyPrice firstBid numBids started ends desc = .ok t') :
    t'.Keyed users ∧ t'.uids = t.uids ++ [uid] := by
  unfold ItemData.add at hadd
  obtain ⟨-, hadd⟩ := guard_eq_ok.mp hadd
  obtain ⟨hnew, hadd⟩ := guard_eq_ok.mp hadd
  obtain ⟨-, hadd⟩ := guard_eq_ok.mp hadd
  obtain ⟨saferseller, hsafer, hadd⟩ := bind_eq_ok.mp hadd
  obtain ⟨safername, -, hadd⟩ := bind_eq_ok.mp hadd
  obtain ⟨safercurrently, -, hadd⟩ := bind_eq_ok.mp hadd
  obtain ⟨saferbuy, -, hadd⟩ := bind_eq_ok.mp hadd
  obtain ⟨saferfirst, -, hadd⟩ := bind_eq_ok.mp hadd
  obtain ⟨safernum, -, hadd⟩ := bind_eq_ok.mp hadd
  obtain ⟨saferstarted, -, hadd⟩ := bind_eq_ok.mp hadd
  obtain ⟨saferends, -, hadd⟩ := bind_eq_ok.mp hadd
  obtain ⟨saferdesc, -, hadd⟩ := bind_eq_ok.mp hadd
  obtain rfl := pure_eq_ok.mp hadd
  obtain rfl : saferid = saferseller := Except.ok.inj (hseller.symm.trans hsafer)
  have hids : (t.uids ++ [uid]).Pairwise fun x y => ¬ x.same y = true := by
    refine List.pairwise_append.mpr ⟨h.ids, List.pairwise_singleton _ _, fun x hx y hy hsame => hnew ?_⟩
    exact List.any_eq_true.mpr ⟨x, hx, List.mem_singleton.mp hy ▸ hsame⟩
  refine ⟨⟨hids, concat_subset h.bySellers hmem, ?_, ?_, ?_, ?_, ?_, ?_, ?_, ?_, ?_⟩, rfl⟩
  · simp only [List.length_append, List.length_singleton, h.sellerIds]
  · simp only [List.length_append, List.length_singleton, h.names]
  · simp only [List.length_append, List.length_singleton, h.currentlys]
  · simp only [List.length_append, List.length_singleton, h.buyPrices]
  · simp only [List.length_append, List.length_singleton, h.firstBids]
  · simp only [List.length_append, List.length_singleton, h.numBidss]
  · simp only [List.length_append, List.length_singleton, h.starteds]
  · simp only [List.length_append, List.length_singleton, h.endss]
  · simp only [List.length_append, List.length_singleton, h.descs]

namespace Parser

/-- The keys of the five tables; bids and categorizations may also refer to the items that are `pending`. -/
structure Keyed (pending : List Json) (parser : Parser) : Prop where
  c : parser.c.Keyed
  u : parser.u.Keyed
  b : parser.b.Keyed parser.u.uids (parser.i.uids ++ pending)
  i : parser.i.Keyed parser.u.uids
  ci : parser.ci.Keyed parser.c.uids (parser.i.uids ++ pending)

variable {parser parser' : Parser}

theorem fresh_keyed (categories bids categorizations : Nat) : (fresh categories bids categorizations).Keyed [] where
  c := ⟨.nil, nofun, .nil, rfl⟩
  u := ⟨.nil, rfl, rfl, rfl⟩
  b := ⟨.nil, nofun, List.nil_subset _, List.nil_subset _, rfl, rfl, rfl, rfl⟩
  i := ⟨.nil, List.nil_subset _, rfl, rfl, rfl, rfl, rfl, rfl, rfl, rfl, rfl⟩
  ci := ⟨.nil, List.nil_subset _, List.nil_subset _, rfl, rfl⟩

namespace Keyed

variable {itemId : Json}

private theorem begin (h : parser.Keyed []) (itemId : Json) : parser.Keyed [itemId] := by
  have hitems : parser.i.uids ++ [] ⊆ parser.i.uids ++ [itemId] := by
    rw [List.append_nil]
    exact List.subset_append_left _ _
  exact { h with b := h.b.mono (List.Subset.refl _) hitems, ci := h.ci.mono (List.Subset.refl _) hitems }

private theorem pending_mem (parser : Parser) (itemId : Json) : itemId ∈ parser.i.uids ++ [itemId] :=
  List.mem_append_right _ (List.mem_singleton_self itemId)

theorem addCategory {category : Json} (h : parser.Keyed [itemId]) (hadd : parser.addCategory itemId category = .ok parser') :
    parser'.Keyed [itemId] := by
  unfold Parser.addCategory at hadd
  obtain ⟨added, hcategory, hadd⟩ := bind_eq_ok.mp hadd
  obtain ⟨paired, hpair, hadd⟩ := bind_eq_ok.mp hadd
  obtain rfl := pure_eq_ok.mp hadd
  obtain ⟨hkeyed, hsub, hmem⟩ := h.c.addIfAbsent hcategory
  have hci := h.ci.mono hsub (List.Subset.refl _)
  exact { h with c := hkeyed, ci := hci.addIfAbsent (pending_mem parser itemId) hmem hpair }

theorem parseCategory {item : Json} (h : parser.Keyed [itemId]) (hparse : parser.parseCategory item itemId = .ok parser') :
    parser'.Keyed [itemId] := by
  unfold Parser.parseCategory at hparse
  obtain ⟨categories, -, hparse⟩ := bind_eq_ok.mp hparse
  split at hparse
  · exact pure_eq_ok.mp hparse ▸ h
  · obtain ⟨elements, -, hparse⟩ := bind_eq_ok.mp hparse
    exact foldlM_keeps (fun _ _ _ _ hkeyed hadd => hkeyed.addCategory hadd) h hparse

theorem addBid {e : Json} (h : parser.Keyed [itemId]) (hadd : parser.addBid itemId e = .ok parser') :
    parser'.Keyed [itemId] := by
  unfold Parser.addBid at hadd
  obtain ⟨bid, -, hadd⟩ := bind_eq_ok.mp hadd
  obtain ⟨bdr, -, hadd⟩ := bind_eq_ok.mp hadd
  obtain ⟨userId, -, hadd⟩ := bind_eq_ok.mp hadd
  obtain ⟨rating, -, hadd⟩ := bind_eq_ok.mp hadd
  obtain ⟨location, -, hadd⟩ := bind_eq_ok.mp hadd
  obtain ⟨country, -, hadd⟩ := bind_eq_ok.mp hadd
  obtain ⟨u, huser, hadd⟩ := bind_eq_ok.mp hadd
  obtain ⟨rawTime, -, hadd⟩ := bind_eq_ok.mp hadd
  obtain ⟨time, -, hadd⟩ := bind_eq_ok.mp hadd
  obtain ⟨rawAmount, -, hadd⟩ := bind_eq_ok.mp hadd
  obtain ⟨amount, -, hadd⟩ := bind_eq_ok.mp hadd
  obtain ⟨added, hbid, hadd⟩ := bind_eq_ok.mp hadd
  obtain rfl := pure_eq_ok.mp hadd
  obtain ⟨hkeyed, hsub, saferid, hmem, hsafer⟩ := h.u.smartAdd huser
  have hb := h.b.mono hsub (List.Subset.refl _)
  exact { h with u := hkeyed, b := hb.add hsafer hmem (pending_mem parser itemId) hbid, i := h.i.mono hsub }

theorem parseBid {item : Json} (h : parser.Keyed [itemId]) (hparse : parser.parseBid item itemId = .ok parser') :
    parser'.Keyed [itemId] := by
  unfold Parser.parseBid at hparse
  obtain ⟨bids, -, hparse⟩ := bind_eq_ok.mp hparse
  split at hparse
  · exact pure_eq_ok.mp hparse ▸ h
  · obtain ⟨elements, -, hparse⟩ := bind_eq_ok.mp hparse
    exact foldlM_keeps (fun _ _ _ _ hkeyed hadd => hkeyed.addBid hadd) h hparse

/-- With its item in the table, nothing is pending. -/
theorem parseItem {item : Json} (h : parser.Keyed [itemId]) (hparse : parser.parseItem item itemId = .ok parser') :
    parser'.Keyed [] := by
  unfold Parser.parseItem at hparse
  obtain ⟨seller, -, hparse⟩ := bind_eq_ok.mp hparse
  obtain ⟨userId, -, hparse⟩ := bind_eq_ok.mp hparse
  obtain ⟨rating, -, hparse⟩ := bind_eq_ok.mp hparse
  obtain ⟨location, -, hparse⟩ := bind_eq_ok.mp hparse
  obtain ⟨country, -, hparse⟩ := bind_eq_ok.mp hparse
  obtain ⟨u, huser, hparse⟩ := bind_eq_ok.mp hparse
  obtain ⟨name, -, hparse⟩ := bind_eq_ok.mp hparse
  obtain ⟨rawCurrently, -, hparse⟩ := bind_eq_ok.mp hparse
  obtain ⟨currently, -, hparse⟩ := bind_eq_ok.mp hparse
  obtain ⟨rawBuy, -, hparse⟩ := bind_eq_ok.mp hparse
  obtain ⟨buyPrice, -, hparse⟩ := bind_eq_ok.mp hparse
  obtain ⟨rawFirst, -, hparse⟩ := bind_eq_ok.mp hparse
  obtain ⟨firstBid, -, hparse⟩ := bind_eq_ok.mp hparse
  obtain ⟨numBids, -, hparse⟩ := bind_eq_ok.mp hparse
  obtain ⟨rawStarted, -, hparse⟩ := bind_eq_ok.mp hparse
  obtain ⟨started, -, hparse⟩ := bind_eq_ok.mp hparse
  obtain ⟨rawEnds, -, hparse⟩ := bind_eq_ok.mp hparse
  obtain ⟨ends, -, hparse⟩ := bind_eq_ok.mp hparse
  obtain ⟨desc, -, hparse⟩ := bind_eq_ok.mp hparse
  obtain ⟨i, hadd, hparse⟩ := bind_eq_ok.mp hparse
  obtain rfl := pure_eq_ok.mp hparse
  obtain ⟨hkeyed, hsub, saferid, hmem, hsafer⟩ := h.u.smartAdd huser
  obtain ⟨hi, hids⟩ := (h.i.mono hsub).add hsafer hmem hadd
  have hitems : parser.i.uids ++ [itemId] ⊆ i.uids ++ [] := by
    rw [hids, List.append_nil]
    exact List.Subset.refl _
  exact { c := h.c, u := hkeyed, b := h.b.mono hsub hitems, i := hi, ci := h.ci.mono (List.Subset.refl _) hitems }

theorem addItem {item : Json} (h : parser.Keyed []) (hadd : parser.addItem item = .ok parser') : parser'.Keyed [] := by
  unfold Parser.addItem at hadd
  obtain ⟨itemId, -, hadd⟩ := bind_eq_ok.mp hadd
  obtain ⟨-, hadd⟩ := guard_eq_ok.mp hadd
  obtain ⟨withCategories, hcategories, hadd⟩ := bind_eq_ok.mp hadd
  obtain ⟨withBids, hbids, hadd⟩ := bind_eq_ok.mp hadd
  exact (((h.begin itemId).parseCategory hcategories).parseBid hbids).parseItem hadd

theorem parse {items : Json} (h : parser.Keyed []) (hparse : parser.parse items = .ok parser') : parser'.Keyed [] := by
  unfold Parser.parse at hparse
  obtain ⟨-, hparse⟩ := guard_eq_ok.mp hparse
  obtain ⟨elements, -, hparse⟩ := bind_eq_ok.mp hparse
  exact foldlM_keeps (fun _ _ _ _ hkeyed hadd => hkeyed.addItem hadd) h hparse

theorem parseAll {files : List Json} (h : parser.Keyed []) (hparse : parser.parseAll files = .ok parser') :
    parser'.Keyed [] :=
  foldlM_keeps (fun _ _ _ _ hkeyed hadd => hkeyed.parse hadd) h hparse

end Keyed

/-- The keys of the schema. -/
structure SatisfiesKeys (parser : Parser) : Prop where
  userIds : parser.u.uids.Nodup
  categoryNames : parser.c.names.Nodup
  categoryIds : parser.c.uids.Nodup
  itemIds : parser.i.uids.Pairwise fun x y => ¬ x.same y = true
  bidIds : parser.b.uids.Nodup
  itemCategories : (parser.ci.itemIds.zip parser.ci.cateIds).Pairwise fun x y => ¬ (x.1.same y.1 = true ∧ x.2 = y.2)
  bidUser : parser.b.userIds ⊆ parser.u.uids
  itemSeller : parser.i.sellerIds ⊆ parser.u.uids
  bidItem : parser.b.itemIds ⊆ parser.i.uids
  categorizationItem : parser.ci.itemIds ⊆ parser.i.uids
  categorizationCategory : parser.ci.cateIds ⊆ parser.c.uids
  categoryColumns : parser.c.uids.length = parser.c.names.length
  userColumns : parser.u.ratings.length = parser.u.uids.length ∧ parser.u.locations.length = parser.u.uids.length ∧
    parser.u.countries.length = parser.u.uids.length
  bidColumns : parser.b.userIds.length = parser.b.uids.length ∧ parser.b.itemIds.length = parser.b.uids.length ∧
    parser.b.times.length = parser.b.uids.length ∧ parser.b.amounts.length = parser.b.uids.length
  categorizationColumns : parser.ci.itemIds.length = parser.ci.uids.length ∧
    parser.ci.cateIds.length = parser.ci.uids.length
  itemColumns : parser.i.sellerIds.length = parser.i.uids.length ∧ parser.i.names.length = parser.i.uids.length ∧
    parser.i.currentlys.length = parser.i.uids.length ∧ parser.i.buyPrices.length = parser.i.uids.length ∧
    parser.i.firstBids.length = parser.i.uids.length ∧ parser.i.numBidss.length = parser.i.uids.length ∧
    parser.i.starteds.length = parser.i.uids.length ∧ parser.i.endss.length = parser.i.uids.length ∧
    parser.i.descs.length = parser.i.uids.length

theorem Keyed.satisfiesKeys (h : parser.Keyed []) : parser.SatisfiesKeys where
  userIds := h.u.ids
  categoryNames := h.c.names
  categoryIds := h.c.ids
  itemIds := h.i.ids
  bidIds := h.b.ids
  itemCategories := h.ci.pairs
  bidUser := h.b.byUsers
  itemSeller := h.i.bySellers
  bidItem := List.append_nil parser.i.uids ▸ h.b.onItems
  categorizationItem := List.append_nil parser.i.uids ▸ h.ci.ofItems
  categorizationCategory := h.ci.inCategories
  categoryColumns := h.c.aligned
  userColumns := ⟨h.u.ratings, h.u.locations, h.u.countries⟩
  bidColumns := ⟨h.b.userIds, h.b.itemIds, h.b.times, h.b.amounts⟩
  categorizationColumns := ⟨h.ci.itemIds, h.ci.cateIds⟩
  itemColumns := ⟨h.i.sellerIds, h.i.names, h.i.currentlys, h.i.buyPrices, h.i.firstBids, h.i.numBidss, h.i.starteds,
    h.i.endss, h.i.descs⟩

/-- The tables of the auction loader satisfy the keys of the schema. -/
theorem parseAll_satisfiesKeys (categories bids categorizations : Nat) (files : List Json) (parser : Parser)
    (h : (fresh categories bids categorizations).parseAll files = .ok parser) : parser.SatisfiesKeys :=
  ((fresh_keyed categories bids categorizations).parseAll h).satisfiesKeys

/-- An item with one category and one bid, the bidder being the seller. -/
def soldItem (itemId : Rat) : Json :=
  let user : Json := .obj [("UserID", .str ['a', quote]), ("Rating", .num 1)]
  let time : Json := .str ['D', 'e', 'c', '-', '0', '1', '-', '0', '1', ' ', '1']
  .obj [("ItemID", .num itemId), ("Category", .arr [.str ['x']]), ("Seller", user), ("Started", time), ("Ends", time),
    ("Bids", .arr [.obj [("Bid", .obj [("Bidder", user), ("Time", time), ("Amount", .str ['$', '1'])])]])]

theorem parseAll_satisfiesKeys_sold :
    ∃ parser, (fresh 0 0 0).parseAll [.arr [soldItem 1, soldItem 2], .arr [soldItem 3]] = .ok parser ∧
      parser.SatisfiesKeys :=
  ⟨_, rfl, parseAll_satisfiesKeys 0 0 0 [.arr [soldItem 1, soldItem 2], .arr [soldItem 3]] _ rfl⟩

end Parser

end Cs564.Auction
