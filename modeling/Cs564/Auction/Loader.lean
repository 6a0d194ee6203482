import Cs564.Auction.Sales

/-!
# The loader stores the sales

`Parser` reads an item and stores what it read in the same loop.  It succeeds exactly on files whose items can be read as
sales with different ids and records that can be stored, and then its tables are those of the sales (`parseAll_iff`).
Between two rounds the tables stand for what was read so far (`Progress`); each round of each loop reads one more value
and puts it there.
-/

namespace Cs564.Auction

/-- What the tables stand for in the middle of a run. -/
structure Progress where
  names : List (List Char)
  pairs : List (Json × Nat)
  calls : List Call
  bids : List (Json × Offer)
  sales : List Sale

namespace Progress

/-- The tables, with the class counters as they were in the beginning. -/
def tables (categories bids categorizations : Nat) (p : Progress) : Parser where
  c := categoriesTable categories p.names
  u := usersTable p.calls
  b := offersTable bids p.bids
  i := itemsTable p.sales
  ci := pairsTable categorizations p.pairs

def empty : Progress := { names := [], pairs := [], calls := [], bids := [], sales := [] }

/-- The pair is in the list already. -/
def hasPair (pairs : List (Json × Nat)) (pair : Json × Nat) : Bool :=
  pairs.any fun known => known.1.same pair.1 && known.2 == pair.2

def putCategory (counter : Nat) (itemId : Json) (p : Progress) (name : List Char) : Progress :=
  let pair := (itemId, categoryId counter (p.names ++ [name]) name)
  { p with names := p.names ++ [name], pairs := if hasPair p.pairs pair then p.pairs else p.pairs ++ [pair] }

def putOffer (itemId : Json) (p : Progress) (offer : Offer) : Progress :=
  { p with calls := p.calls ++ [offer.bidder], bids := p.bids ++ [(itemId, offer)] }

def putListing (p : Progress) (sale : Sale) : Progress :=
  { p with calls := p.calls ++ [sale.seller], sales := p.sales ++ [sale] }

/-- A sale, its categories first and its own fields last. -/
def put (counter : Nat) (p : Progress) (sale : Sale) : Progress :=
  (sale.offers.foldl (putOffer sale.itemId) (sale.categories.foldl (putCategory counter sale.itemId) p)).putListing sale

end Progress

/-! ### The rounds -/

section Readers

variable {ε α : Type} {d v : Json} {k : String} {s : List Char}

theorem toOption_eq_some {x : Except ε α} {a : α} : x.toOption = some a ↔ x = .ok a := by
  cases x <;> simp [Except.toOption]

theorem readField_eq_some : readField d k = some v ↔ d.get k = .ok v := toOption_eq_some

theorem readStr_eq_some : readStr v = some s ↔ v = .str s := by
  cases v <;> simp [readStr]

/-- `saferstr` takes what can be read as a text. -/
theorem saferstr_eq_ok : saferstr v = .ok s ↔ ∃ text, readText v = some text ∧ s = optText text := by
  cases v <;> simp [saferstr, readText, optText, enclose, eq_comm]

/-- `saferint` takes what can be read as a number. -/
theorem saferint_eq_ok {w : Json} : saferint v = .ok w ↔ ∃ n, readInt v = some n ∧ w = optInt n := by
  cases v with
  | null => simp [saferint, readInt, optInt, eq_comm]
  | _ =>
    simp only [saferint, readInt, bind_eq_ok, pure_eq_ok, Option.map_eq_some_iff, toOption_eq_some]
    constructor
    · rintro ⟨n, hn, rfl⟩
      exact ⟨some n, ⟨n, hn, rfl⟩, rfl⟩
    · rintro ⟨-, ⟨n, hn, rfl⟩, rfl⟩
      exact ⟨n, hn, rfl⟩

theorem isText_iff : IsText v ↔ ∃ text, readText v = some text := by
  cases v <;> simp [IsText, readText]

theorem readText_textOf {text : Option (List Char)} (h : readText v = some text) : textOf v = optText text := by
  have hv := saferstr_eq_ok.mpr ⟨text, h, rfl⟩
  rw [saferstr_text (isText_iff.mpr ⟨text, h⟩)] at hv
  exact Except.ok.inj hv

/-- `transformDttm` returns a string. -/
theorem transformDttm_str {w : Json} (h : transformDttm v = .ok w) : ∃ s, w = .str s := by
  cases v with
  | str t =>
    unfold transformDttm at h
    obtain ⟨date, -, h⟩ := bind_eq_ok.mp h
    obtain ⟨year, -, h⟩ := bind_eq_ok.mp h
    obtain ⟨month, -, h⟩ := bind_eq_ok.mp h
    obtain ⟨day, -, h⟩ := bind_eq_ok.mp h
    obtain ⟨time, -, h⟩ := bind_eq_ok.mp h
    exact ⟨_, (pure_eq_ok.mp h).symm⟩
  | null => cases h
  | num q => cases h
  | arr xs => cases h
  | obj fs => cases h

theorem readTime_eq_some : readTime d k = some s ↔ ∃ raw, d.get k = .ok raw ∧ transformDttm raw = .ok (.str s) := by
  unfold readTime
  simp only [Option.bind_eq_bind, Option.bind_eq_some_iff, readField_eq_some, toOption_eq_some, readStr_eq_some]
  constructor
  · rintro ⟨raw, hraw, w, hw, rfl⟩
    exact ⟨raw, hraw, hw⟩
  · rintro ⟨raw, hraw, hw⟩
    exact ⟨raw, hraw, _, hw, rfl⟩

theorem readAmount_eq_some : readAmount d k = some v ↔ ∃ raw, d.get k = .ok raw ∧ transformDollar raw = .ok v := by
  unfold readAmount
  simp only [Option.bind_eq_bind, Option.bind_eq_some_iff, readField_eq_some, toOption_eq_some]

end Readers

section Users

variable {calls : List Call} {call : Call} {values : List Json} {v : Json}

/-- A text cell takes a further value exactly if it is known, or if the value is a text. -/
theorem fillText_iff {cells cells' : List (List Char)} {i : Nat} (hcell : cells[i]? = some (keptText values)) :
    fillText cells i v = .ok cells' ↔
      (keptText values = safernull → IsText v) ∧ cells' = cells.set i (keptText (values ++ [v])) := by
  by_cases hv : IsText v
  · rw [fillText_eq hcell hv, Except.ok.injEq, eq_comm]
    exact (and_iff_right fun _ => hv).symm
  · have hnull : v.isNull = false := by
      rw [Bool.eq_false_iff]
      exact fun h => hv (Or.inl (isNull_iff.mp h))
    have hget : cell cells i = .ok (keptText values) := by rw [cell, hcell]
    rw [fillText, hget, ok_bind, keptText_append]
    by_cases hknown : keptText values = safernull
    · rw [if_pos ⟨hknown, hnull⟩, bind_eq_ok]
      refine iff_of_false ?_ fun h => hv (h.1 hknown)
      rintro ⟨text, htext, -⟩
      obtain ⟨t, ht, -⟩ := saferstr_eq_ok.mp htext
      exact hv (isText_iff.mpr ⟨t, ht⟩)
    · obtain ⟨hi, hself⟩ := List.getElem?_eq_some_iff.mp hcell
      rw [if_neg fun h => hknown h.1, if_neg hknown, ← hself, List.set_getElem_self hi]
      exact ⟨fun h => ⟨fun h' => absurd (hself ▸ h') hknown, (pure_eq_ok.mp h).symm⟩, fun h => pure_eq_ok.mpr h.2.symm⟩

/-- A call of `smart_add` returns exactly if its record can be stored after those before. -/
theorem smartAdd_iff {t : UserData} :
    (usersTable calls).smartAdd (.str call.uid) call.rating call.location call.country = .ok t ↔
      Storable calls call ∧ t = usersTable (calls ++ [call]) := by
  have huids : (usersTable calls).uids = (users calls).map (enclose quote) := rfl
  rcases firstRow_keys (users calls) call.uid with ⟨hrow, hnew⟩ | ⟨i, hrow, hi⟩
  · -- the first record of the user
    have hstorable : Storable calls call ↔
        (∃ rating, saferint call.rating = .ok rating) ∧ IsText call.location ∧ IsText call.country := by
      have hnil : ∀ field, keptText (valuesOf field calls call.uid) = safernull := fun field => by
        rw [valuesOf_eq_nil hnew]
        rfl
      exact ⟨fun h => ⟨h.rating hnew, h.location (hnil _), h.country (hnil _)⟩,
        fun h => ⟨fun _ => h.1, fun _ => h.2.1, fun _ => h.2.2⟩⟩
    rw [smartAdd_new (by rw [huids, hrow]), usersTable_new hnew, hstorable]
    simp only [bind_eq_ok, pure_eq_ok, saferstr_eq_ok, isText_iff]
    constructor
    · rintro ⟨rating, hrating, -, ⟨location, hlocation, rfl⟩, -, ⟨country, hcountry, rfl⟩, rfl⟩
      have hkept : ratingOf call.rating = rating := by rw [ratingOf, hrating]
      rw [hkept, readText_textOf hlocation, readText_textOf hcountry]
      exact ⟨⟨⟨rating, hrating⟩, ⟨location, hlocation⟩, ⟨country, hcountry⟩⟩, rfl⟩
    · rintro ⟨⟨⟨rating, hrating⟩, ⟨location, hlocation⟩, ⟨country, hcountry⟩⟩, rfl⟩
      have hkept : ratingOf call.rating = rating := by rw [ratingOf, hrating]
      rw [hkept, readText_textOf hlocation, readText_textOf hcountry]
      exact ⟨rating, hrating, _, ⟨location, hlocation, rfl⟩, _, ⟨country, hcountry, rfl⟩, rfl⟩
  · -- a further record: the cells that still hold the marker are filled
    have hmem : call.uid ∈ users calls := List.mem_of_getElem? hi
    have hne : valuesOf Call.rating calls call.uid ≠ [] := valuesOf_ne_nil hmem
    have hrating : (usersTable calls).ratings[i]? = some (keptRating (valuesOf Call.rating calls call.uid)) :=
      getElem?_column hi
    have hcell : cell (usersTable calls).ratings i = .ok (keptRating (valuesOf Call.rating calls call.uid)) := by
      rw [cell, hrating]
    have hlocation : ∀ cells, fillText (usersTable calls).locations i call.location = .ok cells ↔ _ :=
      fun cells => fillText_iff (getElem?_column hi)
    have hcountry : ∀ cells, fillText (usersTable calls).countries i call.country = .ok cells ↔ _ :=
      fun cells => fillText_iff (getElem?_column hi)
    rw [smartAdd_known (by rw [huids, hrow]), usersTable_known hi, ← fillRating_eq hrating hne, hcell]
    simp only [ok_bind, bind_eq_ok, pure_eq_ok, hlocation, hcountry]
    constructor
    · rintro ⟨locations, ⟨hl, rfl⟩, countries, ⟨hc, rfl⟩, rfl⟩
      exact ⟨⟨fun hnew => absurd hmem hnew, hl, hc⟩, rfl⟩
    · rintro ⟨hstorable, rfl⟩
      exact ⟨_, ⟨hstorable.location, rfl⟩, _, ⟨hstorable.country, rfl⟩, rfl⟩

end Users

section Rounds

variable {categories bids categorizations : Nat} {p : Progress} {parser : Parser} {itemId : Json}

/-- The table of categories takes a further name, and returns its id. -/
theorem addIfAbsent_names (counter : Nat) (names : List (List Char)) (name : List Char) :
    (categoriesTable counter names).addIfAbsent (.str name) =
      .ok (categoriesTable counter (names ++ [name]), categoryId counter (names ++ [name]) name) := by
  obtain ⟨uid, hadd⟩ := addIfAbsent_categoriesTable counter names name
  suffices huid : uid = categoryId counter (names ++ [name]) name by rw [hadd, huid]
  have hnames : (categoriesTable counter names).names = (firsts names).map (enclose quote) := by
    change (Auction.categories counter names).map (enclose quote ∘ Prod.fst) = _
    rw [← List.map_map, Auction.categories, List.zipIdx_map_fst]
  rcases firstRow_keys (firsts names) name with ⟨hrow, hnew⟩ | ⟨i, hrow, hi⟩
  · rw [addIfAbsent_new (by rw [hnames, hrow])] at hadd
    rw [categoryId, firsts_append_of_notMem (mt mem_firsts.mpr hnew), List.idxOf_append_of_notMem hnew]
    rw [← (Prod.mk.inj (Except.ok.inj hadd)).2]
    simp [categoriesTable]
  · have hentry : (Auction.categories counter names)[i]? = some (name, counter + i) := by
      rw [Auction.categories, List.getElem?_zipIdx, hi]
      rfl
    have hcell : cell (categoriesTable counter names).uids i = .ok (counter + i) := cell_map hentry
    rw [addIfAbsent_known (by rw [hnames, hrow]), hcell] at hadd
    rw [categoryId, firsts_append_of_mem (mem_firsts.mp (List.mem_of_getElem? hi)),
      ← (Prod.mk.inj (Except.ok.inj hadd)).2]
    obtain ⟨hlt, hget⟩ := List.getElem?_eq_some_iff.mp hi
    rw [← hget, (nodup_firsts names).idxOf_getElem]

/-- The table of pairs takes a further pair unless it has it. -/
theorem addIfAbsent_pairs (counter : Nat) (pairs : List (Json × Nat)) (pair : Json × Nat) (hid : pair.1.isNull = false) :
    ∃ uid, (pairsTable counter pairs).addIfAbsent pair.1 pair.2 =
      .ok (pairsTable counter (if Progress.hasPair pairs pair then pairs else pairs ++ [pair]), uid) := by
  have hitems : (pairsTable counter pairs).itemIds = pairs.map (·.1) := by
    change (pairs.zipIdx counter).map ((·.1) ∘ Prod.fst) = _
    rw [← List.map_map, List.zipIdx_map_fst]
  have hcates : (pairsTable counter pairs).cateIds = pairs.map (·.2) := by
    change (pairs.zipIdx counter).map ((·.2) ∘ Prod.fst) = _
    rw [← List.map_map, List.zipIdx_map_fst]
  have hrow : ∀ i : Nat, ((pairs.map (·.1))[i]?.any (fun x : Json => x.same pair.1) && (pairs.map (·.2))[i]? == some pair.2) =
      pairs[i]?.any fun known : Json × Nat => known.1.same pair.1 && known.2 == pair.2 := by
    intro i
    rw [List.getElem?_map, List.getElem?_map]
    cases pairs[i]? <;> rfl
  rw [CategorizationData.addIfAbsent, hitems, hcates, List.length_map]
  simp only [hid, hrow, Bool.false_eq_true, if_false]
  cases hfind : firstRow pairs.length fun i => pairs[i]?.any fun known : Json × Nat => known.1.same pair.1 && known.2 == pair.2 with
  | some i =>
    obtain ⟨hlt, hsame⟩ := firstRow_some hfind
    have hhas : Progress.hasPair pairs pair = true := by
      rw [List.getElem?_eq_getElem hlt, Option.any_some] at hsame
      exact List.any_eq_true.mpr ⟨pairs[i], List.getElem_mem hlt, hsame⟩
    have hentry : (pairs.zipIdx counter)[i]? = some (pairs[i], counter + i) := by
      rw [List.getElem?_zipIdx, List.getElem?_eq_getElem hlt]
      rfl
    have hcell : cell (pairsTable counter pairs).uids i = .ok (counter + i) := cell_map hentry
    rw [if_pos hhas]
    exact ⟨counter + i, by dsimp only; rw [hcell]; rfl⟩
  | none =>
    have hhas : ¬ Progress.hasPair pairs pair = true := by
      intro h
      obtain ⟨known, hknown, hsame⟩ := List.any_eq_true.mp h
      obtain ⟨i, hi, rfl⟩ := List.mem_iff_getElem.mp hknown
      have hfalse := firstRow_none hfind hi
      rw [List.getElem?_eq_getElem hi, Option.any_some, hsame] at hfalse
      cases hfalse
    have htable : pairsTable counter (pairs ++ [pair]) =
        { counter := (pairsTable counter pairs).counter + 1
          uids := (pairsTable counter pairs).uids ++ [(pairsTable counter pairs).counter]
          itemIds := pairs.map (·.1) ++ [pair.1]
          cateIds := pairs.map (·.2) ++ [pair.2] } := by
      simp [pairsTable, List.zipIdx_append, Nat.add_assoc, ← hitems, ← hcates]
    rw [if_neg hhas, htable]
    exact ⟨_, rfl⟩

/-- A round of the loop over the categories. -/
theorem addCategory_iff (hid : itemId.isNull = false) (category : Json) :
    (p.tables categories bids categorizations).addCategory itemId category = .ok parser ↔
      ∃ name, readStr category = some name ∧ True ∧
        parser = (p.putCategory categories itemId name).tables categories bids categorizations := by
  rw [Parser.addCategory, Progress.tables]
  cases category with
  | str name =>
    obtain ⟨uid, hpair⟩ := addIfAbsent_pairs categorizations p.pairs
      (itemId, categoryId categories (p.names ++ [name]) name) hid
    simp only [addIfAbsent_names, ok_bind, hpair, pure_eq_ok, readStr, Option.some.injEq, exists_eq_left', true_and]
    exact eq_comm
  | null => exact iff_of_false nofun fun ⟨_, h, _⟩ => nomatch h
  | num q => exact iff_of_false nofun fun ⟨_, h, _⟩ => nomatch h
  | arr xs => exact iff_of_false nofun fun ⟨_, h, _⟩ => nomatch h
  | obj fs => exact iff_of_false nofun fun ⟨_, h, _⟩ => nomatch h

/-- The table of bids takes a further bid exactly if its amount is a text. -/
theorem addOffer_iff (hid : itemId.isNull = false) (counter : Nat) (bids : List (Json × Offer)) (bidder : Call)
    (time : List Char) (amount : Json) (added : BidData × Nat) :
    (offersTable counter bids).add (.str bidder.uid) itemId (.str time) amount = .ok added ↔
      ∃ text, readText amount = some text ∧
        added = (offersTable counter (bids ++ [(itemId, { bidder, time, amount := text })]), counter + bids.length) := by
  have htable : ∀ text, offersTable counter (bids ++ [(itemId, { bidder, time, amount := text })]) =
      { counter := (offersTable counter bids).counter + 1
        uids := (offersTable counter bids).uids ++ [(offersTable counter bids).counter]
        userIds := (offersTable counter bids).userIds ++ [enclose quote bidder.uid]
        itemIds := (offersTable counter bids).itemIds ++ [itemId]
        times := (offersTable counter bids).times ++ [enclose quote time]
        amounts := (offersTable counter bids).amounts ++ [optText text] } := by
    intro text
    simp [offersTable, List.zipIdx_append, Nat.add_assoc]
  rw [BidData.add, saferstr_str, saferstr_str, hid]
  simp only [Json.isNull, Bool.false_eq_true, if_false, ok_bind, bind_eq_ok, pure_eq_ok, saferstr_eq_ok]
  constructor
  · rintro ⟨-, ⟨text, htext, rfl⟩, rfl⟩
    exact ⟨text, htext, by rw [htable]; rfl⟩
  · rintro ⟨text, htext, rfl⟩
    exact ⟨_, ⟨text, htext, rfl⟩, by rw [htable]; rfl⟩

/-- What `smart_add` needs of a user id. -/
theorem smartAdd_str {t t' : UserData} {uid rating location country : Json}
    (h : t.smartAdd uid rating location country = .ok t') : ∃ s, uid = .str s := by
  unfold UserData.smartAdd at h
  obtain ⟨hnull, h⟩ := guard_eq_ok.mp h
  obtain ⟨saferid, hsafer, -⟩ := bind_eq_ok.mp h
  cases uid with
  | str s => exact ⟨s, rfl⟩
  | null => exact absurd rfl hnull
  | num q => cases hsafer
  | arr xs => cases hsafer
  | obj fs => cases hsafer

theorem readUser_eq_some {d place : Json} {call : Call} : readUser d place = some call ↔
    d.get "UserID" = .ok (.str call.uid) ∧ d.get "Rating" = .ok call.rating ∧
      place.get "Location" = .ok call.location ∧ place.get "Country" = .ok call.country := by
  unfold readUser
  simp only [Option.bind_eq_bind, Option.bind_eq_some_iff, readField_eq_some, readStr_eq_some, Option.pure_def,
    Option.some.injEq]
  constructor
  · rintro ⟨w, huid, uid, rfl, rating, hrating, location, hlocation, country, hcountry, rfl⟩
    exact ⟨huid, hrating, hlocation, hcountry⟩
  · rintro ⟨huid, hrating, hlocation, hcountry⟩
    exact ⟨_, huid, _, rfl, _, hrating, _, hlocation, _, hcountry, rfl⟩

/-- A round of the loop over the bids. -/
theorem addBid_iff (hid : itemId.isNull = false) (e : Json) :
    (p.tables categories bids categorizations).addBid itemId e = .ok parser ↔
      ∃ offer, readOffer e = some offer ∧ Storable p.calls offer.bidder ∧
        parser = (p.putOffer itemId offer).tables categories bids categorizations := by
  unfold Parser.addBid readOffer Progress.tables
  simp only [bind_eq_ok, pure_eq_ok, Option.bind_eq_bind, Option.bind_eq_some_iff, readField_eq_some, Option.pure_def,
    Option.some.injEq, readTime_eq_some, readAmount_eq_some]
  constructor
  · rintro ⟨bid, hbid, bdr, hbdr, userId, huid, rating, hrating, location, hlocation, country, hcountry, u, hu, rawTime,
      hrawTime, timeValue, htime, rawAmount, hrawAmount, amount, hamount, added, hadd, rfl⟩
    obtain ⟨uid, rfl⟩ := smartAdd_str hu
    obtain ⟨time, rfl⟩ := transformDttm_str htime
    obtain ⟨hstorable, rfl⟩ := (@smartAdd_iff _ { uid, rating, location, country } _).mp hu
    obtain ⟨text, htext, rfl⟩ := (addOffer_iff hid _ _ { uid, rating, location, country } _ _ _).mp hadd
    refine ⟨_, ⟨bid, hbid, bdr, hbdr, _, readUser_eq_some.mpr ⟨huid, hrating, hlocation, hcountry⟩, time,
      ⟨rawTime, hrawTime, htime⟩, amount, ⟨rawAmount, hrawAmount, hamount⟩, text, htext, rfl⟩, hstorable, rfl⟩
  · rintro ⟨offer, ⟨bid, hbid, bdr, hbdr, bidder, hbidder, time, ⟨rawTime, hrawTime, htime⟩, amount,
      ⟨rawAmount, hrawAmount, hamount⟩, text, htext, rfl⟩, hstorable, rfl⟩
    obtain ⟨huid, hrating, hlocation, hcountry⟩ := readUser_eq_some.mp hbidder
    refine ⟨bid, hbid, bdr, hbdr, _, huid, _, hrating, _, hlocation, _, hcountry, _,
      smartAdd_iff.mpr ⟨hstorable, rfl⟩, rawTime, hrawTime, _, htime, rawAmount, hrawAmount, amount, hamount, _,
      (addOffer_iff hid _ _ bidder _ _ _).mpr ⟨text, htext, rfl⟩, rfl⟩

/-- The table of items takes a further one exactly if its id is new and its values can be encoded. -/
theorem addListing_iff (hid : itemId.isNull = false) {sales : List Sale} {t : ItemData} {seller started ends : List Char}
    {name currently buyPrice firstBid numBids desc : Json} :
    (itemsTable sales).add itemId (.str seller) name currently buyPrice firstBid numBids (.str started) (.str ends) desc =
        .ok t ↔
      (∀ known ∈ sales, ¬ known.itemId.same itemId = true) ∧ ∃ nameText current buy first number descText,
        readText name = some nameText ∧ saferfloat currently = .ok current ∧ saferfloat buyPrice = .ok buy ∧
        saferfloat firstBid = .ok first ∧ readInt numBids = some number ∧ readText desc = some descText ∧
        t = { uids := (itemsTable sales).uids ++ [itemId]
              sellerIds := (itemsTable sales).sellerIds ++ [enclose quote seller]
              names := (itemsTable sales).names ++ [optText nameText]
              currentlys := (itemsTable sales).currentlys ++ [current]
              buyPrices := (itemsTable sales).buyPrices ++ [buy]
              firstBids := (itemsTable sales).firstBids ++ [first]
              numBidss := (itemsTable sales).numBidss ++ [optInt number]
              starteds := (itemsTable sales).starteds ++ [enclose quote started]
              endss := (itemsTable sales).endss ++ [enclose quote ends]
              descs := (itemsTable sales).descs ++ [optText descText] } := by
  have hnew : ¬ ((itemsTable sales).uids.any fun x => x.same itemId) = true ↔
      ∀ known ∈ sales, ¬ known.itemId.same itemId = true := by
    simp [itemsTable]
  rw [ItemData.add, guard_eq_ok, guard_eq_ok, guard_eq_ok, hnew, saferstr_str, saferstr_str, saferstr_str, hid]
  simp only [Json.isNull, Bool.false_eq_true, not_false_eq_true, true_and, ok_bind, bind_eq_ok, pure_eq_ok,
    saferstr_eq_ok, saferint_eq_ok]
  refine and_congr_right fun _ => ?_
  constructor
  · rintro ⟨-, ⟨nameText, hname, rfl⟩, current, hcurrent, buy, hbuy, first, hfirst, -, ⟨number, hnumber, rfl⟩,
      -, ⟨descText, hdesc, rfl⟩, rfl⟩
    exact ⟨nameText, current, buy, first, number, descText, hname, hcurrent, hbuy, hfirst, hnumber, hdesc, rfl⟩
  · rintro ⟨nameText, current, buy, first, number, descText, hname, hcurrent, hbuy, hfirst, hnumber, hdesc, rfl⟩
    exact ⟨_, ⟨nameText, hname, rfl⟩, current, hcurrent, buy, hbuy, first, hfirst, _, ⟨number, hnumber, rfl⟩,
      _, ⟨descText, hdesc, rfl⟩, rfl⟩

theorem itemsTable_append (sales : List Sale) (sale : Sale) : itemsTable (sales ++ [sale]) =
    { uids := (itemsTable sales).uids ++ [sale.itemId]
      sellerIds := (itemsTable sales).sellerIds ++ [enclose quote sale.seller.uid]
      names := (itemsTable sales).names ++ [optText sale.name]
      currentlys := (itemsTable sales).currentlys ++ [sale.currently]
      buyPrices := (itemsTable sales).buyPrices ++ [sale.buyPrice]
      firstBids := (itemsTable sales).firstBids ++ [sale.firstBid]
      numBidss := (itemsTable sales).numBidss ++ [optInt sale.numBids]
      starteds := (itemsTable sales).starteds ++ [enclose quote sale.started]
      endss := (itemsTable sales).endss ++ [enclose quote sale.ends]
      descs := (itemsTable sales).descs ++ [optText sale.desc] } := by
  simp only [itemsTable, List.map_append, List.map_singleton]

/-- What an item without its categories and bids is read as. -/
structure IsListing (item itemId : Json) (names : List (List Char)) (offers : List Offer) (sale : Sale) : Prop where
  itemId : sale.itemId = itemId
  categories : sale.categories = names
  offers : sale.offers = offers
  seller : ∃ seller, item.get "Seller" = .ok seller ∧ readUser seller item = some sale.seller
  name : ∃ name, item.get "Name" = .ok name ∧ readText name = some sale.name
  currently : ∃ raw v, item.get "Currently" = .ok raw ∧ transformDollar raw = .ok v ∧ saferfloat v = .ok sale.currently
  buyPrice : ∃ raw v, item.get "Buy_Price" = .ok raw ∧ transformDollar raw = .ok v ∧ saferfloat v = .ok sale.buyPrice
  firstBid : ∃ raw v, item.get "First_Bid" = .ok raw ∧ transformDollar raw = .ok v ∧ saferfloat v = .ok sale.firstBid
  numBids : ∃ v, item.get "Num_Bids" = .ok v ∧ readInt v = some sale.numBids
  started : ∃ raw, item.get "Started" = .ok raw ∧ transformDttm raw = .ok (.str sale.started)
  ends : ∃ raw, item.get "Ends" = .ok raw ∧ transformDttm raw = .ok (.str sale.ends)
  desc : ∃ desc, item.get "Description" = .ok desc ∧ readText desc = some sale.desc

theorem readListing_iff {item : Json} {names : List (List Char)} {offers : List Offer} {sale : Sale} :
    readListing item itemId names offers = some sale ↔ IsListing item itemId names offers sale := by
  constructor
  · intro h
    obtain ⟨seller, hseller, h⟩ := Option.bind_eq_some_iff.mp h
    obtain ⟨call, hcall, h⟩ := Option.bind_eq_some_iff.mp h
    obtain ⟨name, hname, h⟩ := Option.bind_eq_some_iff.mp h
    obtain ⟨nameText, hnameText, h⟩ := Option.bind_eq_some_iff.mp h
    obtain ⟨currently, hcurrently, h⟩ := Option.bind_eq_some_iff.mp h
    obtain ⟨current, hcurrent, h⟩ := Option.bind_eq_some_iff.mp h
    obtain ⟨buyPrice, hbuyPrice, h⟩ := Option.bind_eq_some_iff.mp h
    obtain ⟨buy, hbuy, h⟩ := Option.bind_eq_some_iff.mp h
    obtain ⟨firstBid, hfirstBid, h⟩ := Option.bind_eq_some_iff.mp h
    obtain ⟨first, hfirst, h⟩ := Option.bind_eq_some_iff.mp h
    obtain ⟨numBids, hnumBids, h⟩ := Option.bind_eq_some_iff.mp h
    obtain ⟨number, hnumber, h⟩ := Option.bind_eq_some_iff.mp h
    obtain ⟨started, hstarted, h⟩ := Option.bind_eq_some_iff.mp h
    obtain ⟨ends, hends, h⟩ := Option.bind_eq_some_iff.mp h
    obtain ⟨desc, hdesc, h⟩ := Option.bind_eq_some_iff.mp h
    obtain ⟨descText, hdescText, h⟩ := Option.bind_eq_some_iff.mp h
    obtain rfl := Option.some.inj h
    obtain ⟨rawCurrently, hrawCurrently, hcurrently⟩ := readAmount_eq_some.mp hcurrently
    obtain ⟨rawBuy, hrawBuy, hbuyPrice⟩ := readAmount_eq_some.mp hbuyPrice
    obtain ⟨rawFirst, hrawFirst, hfirstBid⟩ := readAmount_eq_some.mp hfirstBid
    exact {
      itemId := rfl, categories := rfl, offers := rfl
      seller := ⟨seller, readField_eq_some.mp hseller, hcall⟩
      name := ⟨name, readField_eq_some.mp hname, hnameText⟩
      currently := ⟨rawCurrently, currently, hrawCurrently, hcurrently, toOption_eq_some.mp hcurrent⟩
      buyPrice := ⟨rawBuy, buyPrice, hrawBuy, hbuyPrice, toOption_eq_some.mp hbuy⟩
      firstBid := ⟨rawFirst, firstBid, hrawFirst, hfirstBid, toOption_eq_some.mp hfirst⟩
      numBids := ⟨numBids, readField_eq_some.mp hnumBids, hnumber⟩
      started := readTime_eq_some.mp hstarted
      ends := readTime_eq_some.mp hends
      desc := ⟨desc, readField_eq_some.mp hdesc, hdescText⟩ }
  · intro h
    obtain ⟨rfl, rfl, rfl, ⟨seller, hseller, hcall⟩, ⟨name, hname, hnameText⟩,
      ⟨rawCurrently, currently, hrawCurrently, hcurrently, hcurrent⟩, ⟨rawBuy, buyPrice, hrawBuy, hbuyPrice, hbuy⟩,
      ⟨rawFirst, firstBid, hrawFirst, hfirstBid, hfirst⟩, ⟨numBids, hnumBids, hnumber⟩, hstarted, hends,
      ⟨desc, hdesc, hdescText⟩⟩ := h
    refine Option.bind_eq_some_iff.mpr ⟨seller, readField_eq_some.mpr hseller, ?_⟩
    refine Option.bind_eq_some_iff.mpr ⟨sale.seller, hcall, ?_⟩
    refine Option.bind_eq_some_iff.mpr ⟨name, readField_eq_some.mpr hname, ?_⟩
    refine Option.bind_eq_some_iff.mpr ⟨sale.name, hnameText, ?_⟩
    refine Option.bind_eq_some_iff.mpr ⟨currently, readAmount_eq_some.mpr ⟨rawCurrently, hrawCurrently, hcurrently⟩, ?_⟩
    refine Option.bind_eq_some_iff.mpr ⟨sale.currently, toOption_eq_some.mpr hcurrent, ?_⟩
    refine Option.bind_eq_some_iff.mpr ⟨buyPrice, readAmount_eq_some.mpr ⟨rawBuy, hrawBuy, hbuyPrice⟩, ?_⟩
    refine Option.bind_eq_some_iff.mpr ⟨sale.buyPrice, toOption_eq_some.mpr hbuy, ?_⟩
    refine Option.bind_eq_some_iff.mpr ⟨firstBid, readAmount_eq_some.mpr ⟨rawFirst, hrawFirst, hfirstBid⟩, ?_⟩
    refine Option.bind_eq_some_iff.mpr ⟨sale.firstBid, toOption_eq_some.mpr hfirst, ?_⟩
    refine Option.bind_eq_some_iff.mpr ⟨numBids, readField_eq_some.mpr hnumBids, ?_⟩
    refine Option.bind_eq_some_iff.mpr ⟨sale.numBids, hnumber, ?_⟩
    refine Option.bind_eq_some_iff.mpr ⟨sale.started, readTime_eq_some.mpr hstarted, ?_⟩
    refine Option.bind_eq_some_iff.mpr ⟨sale.ends, readTime_eq_some.mpr hends, ?_⟩
    refine Option.bind_eq_some_iff.mpr ⟨desc, readField_eq_some.mpr hdesc, ?_⟩
    exact Option.bind_eq_some_iff.mpr ⟨sale.desc, hdescText, rfl⟩

/-- The seller's record and the item itself. -/
theorem parseItem_iff (hid : itemId.isNull = false) (item : Json) (names : List (List Char)) (offers : List Offer) :
    (p.tables categories bids categorizations).parseItem item itemId = .ok parser ↔
      ∃ sale, readListing item itemId names offers = some sale ∧
        (Storable p.calls sale.seller ∧ ∀ known ∈ p.sales, ¬ known.itemId.same itemId = true) ∧
        parser = (p.putListing sale).tables categories bids categorizations := by
  simp only [readListing_iff]
  constructor
  · intro h
    obtain ⟨seller, hseller, h⟩ := bind_eq_ok.mp h
    obtain ⟨userId, huid, h⟩ := bind_eq_ok.mp h
    obtain ⟨rating, hrating, h⟩ := bind_eq_ok.mp h
    obtain ⟨location, hlocation, h⟩ := bind_eq_ok.mp h
    obtain ⟨country, hcountry, h⟩ := bind_eq_ok.mp h
    obtain ⟨u, hu, h⟩ := bind_eq_ok.mp h
    obtain ⟨name, hname, h⟩ := bind_eq_ok.mp h
    obtain ⟨rawCurrently, hrawCurrently, h⟩ := bind_eq_ok.mp h
    obtain ⟨currently, hcurrently, h⟩ := bind_eq_ok.mp h
    obtain ⟨rawBuy, hrawBuy, h⟩ := bind_eq_ok.mp h
    obtain ⟨buyPrice, hbuyPrice, h⟩ := bind_eq_ok.mp h
    obtain ⟨rawFirst, hrawFirst, h⟩ := bind_eq_ok.mp h
    obtain ⟨firstBid, hfirstBid, h⟩ := bind_eq_ok.mp h
    obtain ⟨numBids, hnumBids, h⟩ := bind_eq_ok.mp h
    obtain ⟨rawStarted, hrawStarted, h⟩ := bind_eq_ok.mp h
    obtain ⟨startedValue, hstarted, h⟩ := bind_eq_ok.mp h
    obtain ⟨rawEnds, hrawEnds, h⟩ := bind_eq_ok.mp h
    obtain ⟨endsValue, hends, h⟩ := bind_eq_ok.mp h
    obtain ⟨desc, hdesc, h⟩ := bind_eq_ok.mp h
    obtain ⟨i, hadd, h⟩ := bind_eq_ok.mp h
    obtain rfl := pure_eq_ok.mp h
    obtain ⟨uid, rfl⟩ := smartAdd_str hu
    obtain ⟨started, rfl⟩ := transformDttm_str hstarted
    obtain ⟨ends, rfl⟩ := transformDttm_str hends
    obtain ⟨hstorable, rfl⟩ := (@smartAdd_iff _ { uid, rating, location, country } _).mp hu
    obtain ⟨hnew, nameText, current, buy, first, number, descText, hnameText, hcurrent, hbuy, hfirst, hnumber, hdescText,
      rfl⟩ := (addListing_iff hid).mp hadd
    have hcall : readUser seller item = some { uid, rating, location, country } :=
      readUser_eq_some.mpr ⟨huid, hrating, hlocation, hcountry⟩
    have hlisting : IsListing item itemId names offers
        { itemId, categories := names, offers, seller := { uid, rating, location, country }, name := nameText,
          currently := current, buyPrice := buy, firstBid := first, numBids := number, started, ends, desc := descText } :=
      ⟨rfl, rfl, rfl, ⟨seller, hseller, hcall⟩, ⟨name, hname, hnameText⟩,
        ⟨rawCurrently, currently, hrawCurrently, hcurrently, hcurrent⟩, ⟨rawBuy, buyPrice, hrawBuy, hbuyPrice, hbuy⟩,
        ⟨rawFirst, firstBid, hrawFirst, hfirstBid, hfirst⟩, ⟨numBids, hnumBids, hnumber⟩,
        ⟨rawStarted, hrawStarted, hstarted⟩, ⟨rawEnds, hrawEnds, hends⟩, ⟨desc, hdesc, hdescText⟩⟩
    refine ⟨_, hlisting, ⟨hstorable, hnew⟩, ?_⟩
    simp only [Progress.tables, Progress.putListing, itemsTable_append]
  · rintro ⟨sale, hlisting, ⟨hstorable, hnew⟩, rfl⟩
    obtain ⟨rfl, -, -, ⟨seller, hseller, hcall⟩, ⟨name, hname, hnameText⟩,
      ⟨rawCurrently, currently, hrawCurrently, hcurrently, hcurrent⟩, ⟨rawBuy, buyPrice, hrawBuy, hbuyPrice, hbuy⟩,
      ⟨rawFirst, firstBid, hrawFirst, hfirstBid, hfirst⟩, ⟨numBids, hnumBids, hnumber⟩,
      ⟨rawStarted, hrawStarted, hstarted⟩, ⟨rawEnds, hrawEnds, hends⟩, ⟨desc, hdesc, hdescText⟩⟩ := hlisting
    obtain ⟨huid, hrating, hlocation, hcountry⟩ := readUser_eq_some.mp hcall
    refine bind_eq_ok.mpr ⟨seller, hseller, ?_⟩
    refine bind_eq_ok.mpr ⟨.str sale.seller.uid, huid, ?_⟩
    refine bind_eq_ok.mpr ⟨sale.seller.rating, hrating, ?_⟩
    refine bind_eq_ok.mpr ⟨sale.seller.location, hlocation, ?_⟩
    refine bind_eq_ok.mpr ⟨sale.seller.country, hcountry, ?_⟩
    refine bind_eq_ok.mpr ⟨usersTable (p.calls ++ [sale.seller]), smartAdd_iff.mpr ⟨hstorable, rfl⟩, ?_⟩
    refine bind_eq_ok.mpr ⟨name, hname, ?_⟩
    refine bind_eq_ok.mpr ⟨rawCurrently, hrawCurrently, ?_⟩
    refine bind_eq_ok.mpr ⟨currently, hcurrently, ?_⟩
    refine bind_eq_ok.mpr ⟨rawBuy, hrawBuy, ?_⟩
    refine bind_eq_ok.mpr ⟨buyPrice, hbuyPrice, ?_⟩
    refine bind_eq_ok.mpr ⟨rawFirst, hrawFirst, ?_⟩
    refine bind_eq_ok.mpr ⟨firstBid, hfirstBid, ?_⟩
    refine bind_eq_ok.mpr ⟨numBids, hnumBids, ?_⟩
    refine bind_eq_ok.mpr ⟨rawStarted, hrawStarted, ?_⟩
    refine bind_eq_ok.mpr ⟨.str sale.started, hstarted, ?_⟩
    refine bind_eq_ok.mpr ⟨rawEnds, hrawEnds, ?_⟩
    refine bind_eq_ok.mpr ⟨.str sale.ends, hends, ?_⟩
    refine bind_eq_ok.mpr ⟨desc, hdesc, ?_⟩
    refine bind_eq_ok.mpr ⟨_, (addListing_iff hid).mpr ⟨hnew, sale.name, sale.currently, sale.buyPrice, sale.firstBid,
      sale.numBids, sale.desc, hnameText, hcurrent, hbuy, hfirst, hnumber, hdescText, rfl⟩, ?_⟩
    rw [pure_eq_ok, ← itemsTable_append]
    rfl

/-- A loop over a field of the item; it is left out if the field is missing. -/
theorem overList_iff {d : Json} {k : String} {f : Parser → Json → Except PyError Parser} {start : Parser} :
    (do
      let v ← d.get k
      if v.isNull then return start
      (← v.elements).foldlM f start) = .ok parser ↔
        ∃ elements, readList d k = some elements ∧ elements.foldlM f start = .ok parser := by
  unfold readList
  simp only [bind_eq_ok, Option.bind_eq_bind, Option.bind_eq_some_iff, readField_eq_some]
  constructor
  · rintro ⟨v, hv, hloop⟩
    split at hloop
    · next hnull => exact ⟨[], ⟨v, hv, by rw [if_pos hnull]; rfl⟩, hloop⟩
    · next hnull =>
      obtain ⟨elements, helements, hloop⟩ := bind_eq_ok.mp hloop
      exact ⟨elements, ⟨v, hv, by rw [if_neg hnull, helements]; rfl⟩, hloop⟩
  · rintro ⟨elements, ⟨v, hv, hread⟩, hloop⟩
    refine ⟨v, hv, ?_⟩
    split at hread
    · next hnull =>
      obtain rfl := Option.some.inj hread
      rw [if_pos hnull]
      exact hloop
    · next hnull => rw [if_neg hnull, toOption_eq_some.mp hread, ok_bind, hloop]

theorem parseCategory_iff (hid : itemId.isNull = false) (item : Json) :
    (p.tables categories bids categorizations).parseCategory item itemId = .ok parser ↔
      ∃ elements, readList item "Category" = some elements ∧ ∃ names, elements.mapM readStr = some names ∧
        parser = (names.foldl (Progress.putCategory categories itemId) p).tables categories bids categorizations := by
  rw [Parser.parseCategory, overList_iff]
  refine exists_congr fun elements => and_congr_right fun _ => ?_
  rw [foldlM_reads (Progress.tables categories bids categorizations) fun _ a _ => addCategory_iff hid a]
  refine exists_congr fun names => and_congr_right fun _ => and_iff_right ?_
  exact allValid_of_forall (fun _ _ => trivial) p names

theorem parseBid_iff (hid : itemId.isNull = false) (item : Json) :
    (p.tables categories bids categorizations).parseBid item itemId = .ok parser ↔
      ∃ elements, readList item "Bids" = some elements ∧ ∃ offers, elements.mapM readOffer = some offers ∧
        AllValid (fun p offer => Storable p.calls offer.bidder) (Progress.putOffer itemId) p offers ∧
        parser = (offers.foldl (Progress.putOffer itemId) p).tables categories bids categorizations := by
  rw [Parser.parseBid, overList_iff]
  refine exists_congr fun elements => and_congr_right fun _ => ?_
  exact foldlM_reads (Progress.tables categories bids categorizations) (fun _ a _ => addBid_iff hid a) elements p
    parser

/-- A sale can be stored next. -/
structure Progress.Takes (counter : Nat) (p : Progress) (sale : Sale) : Prop where
  offers : AllValid (fun p offer => Storable p.calls offer.bidder) (putOffer sale.itemId)
    (sale.categories.foldl (putCategory counter sale.itemId) p) sale.offers
  seller : Storable (sale.offers.foldl (putOffer sale.itemId)
    (sale.categories.foldl (putCategory counter sale.itemId) p)).calls sale.seller
  ids : ∀ known ∈ (sale.offers.foldl (putOffer sale.itemId)
    (sale.categories.foldl (putCategory counter sale.itemId) p)).sales, ¬ known.itemId.same sale.itemId = true

theorem readListing_fields {item : Json} {names : List (List Char)} {offers : List Offer} {sale : Sale}
    (h : readListing item itemId names offers = some sale) :
    sale.itemId = itemId ∧ sale.categories = names ∧ sale.offers = offers := by
  have hlisting := readListing_iff.mp h
  exact ⟨hlisting.itemId, hlisting.categories, hlisting.offers⟩

/-- A round of the loop over the items. -/
theorem addItem_iff (item : Json) :
    (p.tables categories bids categorizations).addItem item = .ok parser ↔
      ∃ sale, readSale item = some sale ∧ p.Takes categories sale ∧
        parser = (p.put categories sale).tables categories bids categorizations := by
  unfold Parser.addItem readSale
  simp only [bind_eq_ok, guard_eq_ok, Option.bind_eq_bind, Option.bind_eq_some_iff, readField_eq_some]
  constructor
  · rintro ⟨itemId, hget, hnull, withCategories, hcategories, withBids, hbids, hitem⟩
    have hid : itemId.isNull = false := by simpa using hnull
    obtain ⟨elements, helements, names, hnames, rfl⟩ := (parseCategory_iff hid item).mp hcategories
    obtain ⟨bidElements, hbidElements, offers, hoffers, hall, rfl⟩ := (parseBid_iff hid item).mp hbids
    obtain ⟨sale, hsale, ⟨hseller, hnew⟩, rfl⟩ := (parseItem_iff hid item names offers).mp hitem
    obtain ⟨rfl, rfl, rfl⟩ := readListing_fields hsale
    refine ⟨sale, ⟨_, hget, ?_⟩, ⟨hall, hseller, hnew⟩, rfl⟩
    simp only [hid, Bool.false_eq_true, if_false, Option.bind_eq_some_iff]
    exact ⟨elements, helements, sale.categories, hnames, bidElements, hbidElements, sale.offers, hoffers, hsale⟩
  · rintro ⟨sale, ⟨itemId, hget, hread⟩, htakes, rfl⟩
    cases hid : itemId.isNull with
    | true =>
      rw [hid] at hread
      cases hread
    | false =>
      simp only [hid, Bool.false_eq_true, if_false, Option.bind_eq_some_iff] at hread
      obtain ⟨elements, helements, names, hnames, bidElements, hbidElements, offers, hoffers, hsale⟩ := hread
      obtain ⟨rfl, rfl, rfl⟩ := readListing_fields hsale
      refine ⟨_, hget, by simp [hid], _, (parseCategory_iff hid item).mpr ⟨elements, helements, _, hnames, rfl⟩, _,
        (parseBid_iff hid item).mpr ⟨bidElements, hbidElements, _, hoffers, htakes.offers, rfl⟩, ?_⟩
      exact (parseItem_iff hid item _ _).mpr ⟨sale, hsale, ⟨htakes.seller, htakes.ids⟩, rfl⟩

/-- A file stores its items in their order. -/
theorem parse_iff (items : Json) :
    (p.tables categories bids categorizations).parse items = .ok parser ↔
      ∃ sales, readFile items = some sales ∧ AllValid (Progress.Takes categories) (Progress.put categories) p sales ∧
        parser = (sales.foldl (Progress.put categories) p).tables categories bids categorizations := by
  unfold Parser.parse readFile
  rw [guard_eq_ok]
  simp only [bind_eq_ok, Option.bind_eq_bind]
  cases hnull : items.isNull with
  | true => exact iff_of_false (fun h => h.1 rfl) fun ⟨_, h, _⟩ => nomatch h
  | false =>
    have hloop := fun elements => foldlM_reads (Progress.tables categories bids categorizations)
      (fun p a s => @addItem_iff categories bids categorizations p s a) elements p parser
    constructor
    · rintro ⟨-, elements, helements, hfold⟩
      obtain ⟨sales, hsales, hall, rfl⟩ := (hloop elements).mp hfold
      refine ⟨sales, ?_, hall, rfl⟩
      rw [helements]
      exact hsales
    · rintro ⟨sales, hsales, hall, rfl⟩
      obtain ⟨elements, helements, hsales⟩ := Option.bind_eq_some_iff.mp hsales
      exact ⟨by simp, elements, toOption_eq_some.mp helements, (hloop elements).mpr ⟨sales, hsales, hall, rfl⟩⟩

end Rounds

/-! ### The whole run -/

section Closed

variable {counter : Nat} {p : Progress} {itemId : Json} {sales : List Sale} {sale : Sale} {names more : List (List Char)}
  {name name' : List Char}

/-- The id of a category never changes. -/
theorem categoryId_append (h : name ∈ names) : categoryId counter (names ++ more) name = categoryId counter names name := by
  obtain ⟨rest, hrest⟩ := firsts_prefix names more
  rw [categoryId, ← hrest, List.idxOf_append_of_mem (mem_firsts.mpr h), categoryId]

theorem categoryId_inj (h : name ∈ names) : categoryId counter names name = categoryId counter names name' ↔ name = name' := by
  rw [categoryId, categoryId, Nat.add_left_cancel_iff]
  exact List.idxOf_inj (mem_firsts.mpr h)

/-- The pairs that an item adds. -/
def newPairs (counter : Nat) (known : List (List Char)) (itemId : Json) (names : List (List Char)) : List (Json × Nat) :=
  (firsts names).map fun name => (itemId, categoryId counter (known ++ names) name)

/-- The loop over the categories of an item that has no pairs yet. -/
theorem foldl_putCategory (hrefl : itemId.same itemId = true)
    (hnew : ∀ pair ∈ p.pairs, ¬ pair.1.same itemId = true) (names : List (List Char)) :
    names.foldl (Progress.putCategory counter itemId) p =
      { p with names := p.names ++ names, pairs := p.pairs ++ newPairs counter p.names itemId names } := by
  induction names using List.reverseRecOn with
  | nil => simp [newPairs, firsts]
  | append_singleton names name ih =>
    rw [List.foldl_append, ih, List.foldl_cons, List.foldl_nil, Progress.putCategory]
    have hid : categoryId counter (p.names ++ names ++ [name]) name =
        categoryId counter (p.names ++ (names ++ [name])) name := by rw [List.append_assoc]
    have hstable : newPairs counter p.names itemId names =
        (firsts names).map fun name' => (itemId, categoryId counter (p.names ++ (names ++ [name])) name') := by
      apply List.map_congr_left
      intro name' hname'
      rw [← List.append_assoc, categoryId_append (List.mem_append_right _ (mem_firsts.mp hname'))]
    have hhas : Progress.hasPair (p.pairs ++ newPairs counter p.names itemId names)
        (itemId, categoryId counter (p.names ++ names ++ [name]) name) = true ↔ name ∈ names := by
      rw [Progress.hasPair, List.any_append, Bool.or_eq_true, List.any_eq_true, List.any_eq_true, hstable, hid]
      constructor
      · rintro (⟨pair, hpair, hsame⟩ | ⟨pair, hpair, hsame⟩)
        · rw [Bool.and_eq_true] at hsame
          exact absurd hsame.1 (hnew pair hpair)
        · obtain ⟨name', hname', rfl⟩ := List.mem_map.mp hpair
          rw [Bool.and_eq_true, beq_iff_eq] at hsame
          have hmem : name' ∈ p.names ++ (names ++ [name]) :=
            List.mem_append_right _ (List.mem_append_left _ (mem_firsts.mp hname'))
          exact (categoryId_inj hmem).mp hsame.2 ▸ mem_firsts.mp hname'
      · intro hname
        exact Or.inr ⟨_, List.mem_map_of_mem (mem_firsts.mpr hname), by simp [hrefl]⟩
    by_cases hname : name ∈ names
    · rw [if_pos (hhas.mpr hname), hstable, newPairs, firsts_append_of_mem hname]
      simp
    · rw [if_neg (mt hhas.mp hname), hstable, hid, newPairs, firsts_append_of_notMem hname]
      simp

/-- The loop over the bids of an item. -/
theorem foldl_putOffer (offers : List Offer) : offers.foldl (Progress.putOffer itemId) p =
    { p with calls := p.calls ++ offers.map Offer.bidder, bids := p.bids ++ offers.map (Prod.mk itemId) } := by
  induction offers generalizing p with
  | nil => simp
  | cons offer offers ih =>
    rw [List.foldl_cons, ih]
    simp [Progress.putOffer]

/-- What the sales leave behind. -/
def Progress.of (counter : Nat) (sales : List Sale) : Progress where
  names := Auction.names sales
  pairs := pairsOf counter (Auction.names sales) sales
  calls := records sales
  bids := bidsOf sales
  sales := sales

theorem pairsOf_append (counter : Nat) (sales : List Sale) (sale : Sale) :
    pairsOf counter (Auction.names (sales ++ [sale])) (sales ++ [sale]) =
      pairsOf counter (Auction.names sales) sales ++
        newPairs counter (Auction.names sales) sale.itemId sale.categories := by
  have hnames : Auction.names (sales ++ [sale]) = Auction.names sales ++ sale.categories := by simp [Auction.names]
  rw [pairsOf, List.flatMap_append, hnames, newPairs]
  congr 1
  · rw [pairsOf]
    apply List.flatMap_congr
    intro known hknown
    apply List.map_congr_left
    intro name hname
    have hmem : name ∈ Auction.names sales := List.mem_flatMap.mpr ⟨known, hknown, mem_firsts.mp hname⟩
    rw [categoryId_append hmem]
  · simp

/-- A sale on top of others. -/
theorem put_of (hrefl : sale.itemId.same sale.itemId = true)
    (hnew : ∀ known ∈ sales, ¬ known.itemId.same sale.itemId = true) :
    (Progress.of counter sales).put counter sale = Progress.of counter (sales ++ [sale]) := by
  have hpairs : ∀ pair ∈ (Progress.of counter sales).pairs, ¬ pair.1.same sale.itemId = true := by
    intro pair hpair
    obtain ⟨known, hknown, hpair⟩ := List.mem_flatMap.mp hpair
    obtain ⟨name, -, rfl⟩ := List.mem_map.mp hpair
    exact hnew known hknown
  rw [Progress.put, foldl_putCategory hrefl hpairs, foldl_putOffer, Progress.putListing, Progress.of, Progress.of,
    pairsOf_append]
  simp [Auction.names, records, Sale.records, bidsOf]

/-- Calls one after the other. -/
abbrev putCall (calls : List Call) (call : Call) : List Call := calls ++ [call]

theorem foldl_putCall (calls before : List Call) : calls.foldl putCall before = before ++ calls := by
  induction calls generalizing before with
  | nil => simp
  | cons call calls ih => rw [List.foldl_cons, ih, List.append_assoc, List.singleton_append]

/-- The records of the bidders, in the progress of the loop over the bids. -/
theorem allValid_offers (offers : List Offer) :
    AllValid (fun p offer => Storable p.calls offer.bidder) (Progress.putOffer itemId) p offers ↔
      AllValid Storable putCall p.calls (offers.map Offer.bidder) := by
  induction offers generalizing p with
  | nil => exact Iff.rfl
  | cons offer offers ih =>
    rw [List.map_cons, AllValid, AllValid, ih]
    exact Iff.rfl

theorem takes_iff : (Progress.of counter sales).Takes counter sale ↔
    (∀ known ∈ sales, ¬ known.itemId.same sale.itemId = true) ∧ AllValid Storable putCall (records sales) sale.records := by
  have hcategories : ∀ names : List (List Char), (names.foldl (Progress.putCategory counter sale.itemId) (Progress.of counter sales)).calls =
      records sales ∧ (names.foldl (Progress.putCategory counter sale.itemId) (Progress.of counter sales)).sales = sales := by
    intro names
    induction names using List.reverseRecOn with
    | nil => exact ⟨rfl, rfl⟩
    | append_singleton names name ih =>
      rw [List.foldl_append]
      exact ih
  obtain ⟨hcalls, hsales⟩ := hcategories sale.categories
  have hrecords : AllValid Storable putCall (records sales) sale.records ↔
      AllValid Storable putCall (records sales) (sale.offers.map Offer.bidder) ∧
        Storable (records sales ++ sale.offers.map Offer.bidder) sale.seller := by
    rw [Sale.records, allValid_append, foldl_putCall]
    exact and_congr_right fun _ => and_iff_left trivial
  rw [hrecords]
  constructor
  · rintro ⟨hoffers, hseller, hids⟩
    rw [allValid_offers, hcalls] at hoffers
    rw [foldl_putOffer, hcalls] at hseller
    rw [foldl_putOffer, hsales] at hids
    exact ⟨hids, hoffers, hseller⟩
  · rintro ⟨hids, hoffers, hseller⟩
    refine ⟨?_, ?_, ?_⟩
    · rw [allValid_offers, hcalls]
      exact hoffers
    · rw [foldl_putOffer, hcalls]
      exact hseller
    · rw [foldl_putOffer, hsales]
      exact hids

theorem loadable_iff : Loadable sales ↔ (sales.map Sale.itemId).Pairwise (fun x y => ¬ x.same y = true) ∧
    AllValid Storable putCall [] (records sales) := by
  rw [allValid_iff]
  simp only [foldl_putCall, List.nil_append]
  exact ⟨fun h => ⟨h.ids, h.users⟩, fun h => ⟨h.1, h.2⟩⟩

theorem loadable_append : Loadable (sales ++ [sale]) ↔ Loadable sales ∧
    (∀ known ∈ sales, ¬ known.itemId.same sale.itemId = true) ∧ AllValid Storable putCall (records sales) sale.records := by
  have hrecords : records (sales ++ [sale]) = records sales ++ sale.records := by simp [records]
  rw [loadable_iff, loadable_iff, hrecords, allValid_append, foldl_putCall, List.nil_append, List.map_append,
    List.pairwise_append]
  simp only [List.map_singleton, List.pairwise_singleton, List.mem_singleton, forall_eq, List.mem_map,
    forall_exists_index, and_imp, forall_apply_eq_imp_iff₂, true_and]
  exact ⟨fun h => ⟨⟨h.1.1, h.2.1⟩, h.1.2, h.2.2⟩, fun h => ⟨⟨h.1.1, h.2.1⟩, h.1.2, h.2.2⟩⟩

/-- The sales can be stored one after the other exactly if they are loadable, and the progress is theirs then; by
induction on the sales, the last one first. -/
theorem allValid_takes (hrefl : ∀ sale ∈ sales, sale.itemId.same sale.itemId = true) :
    (AllValid (Progress.Takes counter) (Progress.put counter) Progress.empty sales ↔ Loadable sales) ∧
      (Loadable sales → sales.foldl (Progress.put counter) Progress.empty = Progress.of counter sales) := by
  induction sales using List.reverseRecOn with
  | nil =>
    exact ⟨iff_of_true trivial (loadable_iff.mpr ⟨.nil, trivial⟩), fun _ => rfl⟩
  | append_singleton sales sale ih =>
    obtain ⟨hvalid, hof⟩ := ih fun known hknown => hrefl known (List.mem_append_left _ hknown)
    have hsale := hrefl sale (List.mem_append_right _ (List.mem_singleton_self sale))
    rw [allValid_append, hvalid, loadable_append]
    constructor
    · refine and_congr_right fun hload => ?_
      rw [hof hload, ← takes_iff]
      exact and_iff_left trivial
    · rintro ⟨hload, hids, -⟩
      rw [List.foldl_append, hof hload, List.foldl_cons, List.foldl_nil, put_of hsale hids]

/-- The id of an item is a value of its file. -/
theorem proper_itemId {item : Json} (h : item.proper = true) (hread : readSale item = some sale) :
    sale.itemId.proper = true := by
  unfold readSale at hread
  simp only [Option.bind_eq_bind, Option.bind_eq_some_iff, readField_eq_some] at hread
  obtain ⟨itemId, hget, hread⟩ := hread
  cases hnull : itemId.isNull with
  | true =>
    rw [hnull] at hread
    cases hread
  | false =>
    simp only [hnull, Bool.false_eq_true, if_false, Option.bind_eq_some_iff] at hread
    obtain ⟨_, -, _, -, _, -, _, -, hlisting⟩ := hread
    rw [(readListing_fields hlisting).1]
    exact Json.proper_get h hget

theorem proper_file {items : Json} (h : items.proper = true) (hread : readFile items = some sales) :
    ∀ sale ∈ sales, sale.itemId.proper = true := by
  unfold readFile at hread
  simp only [Option.bind_eq_bind] at hread
  split at hread
  · cases hread
  · obtain ⟨elements, helements, hread⟩ := Option.bind_eq_some_iff.mp hread
    intro sale hsale
    obtain ⟨item, hitem, hsale⟩ := mem_mapM hread hsale
    exact proper_itemId (Json.proper_elements h (toOption_eq_some.mp helements) item hitem) hsale

end Closed

section Run

variable {categories bids categorizations : Nat} {files : List Json} {parser : Parser}

/-- A run of the loader stores what it reads, one sale after the other. -/
theorem parseAll_progress : (Parser.fresh categories bids categorizations).parseAll files = .ok parser ↔
    ∃ sales : List (List Sale), files.mapM readFile = some sales ∧
      AllValid (Progress.Takes categories) (Progress.put categories) Progress.empty sales.flatten ∧
      parser = (sales.flatten.foldl (Progress.put categories) Progress.empty).tables categories bids categorizations := by
  have hempty : Parser.fresh categories bids categorizations =
      Progress.empty.tables categories bids categorizations := rfl
  rw [Parser.parseAll, hempty, foldlM_reads (Progress.tables categories bids categorizations)
    fun p items parser => @parse_iff categories bids categorizations p parser items]
  simp only [allValid_flatten, ← List.foldl_flatten]

theorem same_itemId (h : ∀ items ∈ files, items.proper = true) {sales : List (List Sale)}
    (hread : files.mapM readFile = some sales) : ∀ sale ∈ sales.flatten, sale.itemId.same sale.itemId = true := by
  intro sale hsale
  obtain ⟨part, hpart, hsale⟩ := List.mem_flatten.mp hsale
  obtain ⟨items, hitems, hpart⟩ := mem_mapM hread hpart
  exact Json.same_refl _ (proper_file (h items hitems) hpart sale hsale)

/-- A run that returns has read loadable sales. -/
theorem parseAll_sales (h : ∀ items ∈ files, items.proper = true)
    (hparse : (Parser.fresh categories bids categorizations).parseAll files = .ok parser) :
    ∃ sales : List (List Sale), files.mapM readFile = some sales ∧ Loadable sales.flatten ∧
      parser = tablesOf categories bids categorizations sales.flatten := by
  obtain ⟨sales, hread, hall, rfl⟩ := parseAll_progress.mp hparse
  obtain ⟨hvalid, hstored⟩ := @allValid_takes categories _ (same_itemId h hread)
  have hload := hvalid.mp hall
  exact ⟨sales, hread, hload, by rw [hstored hload]; rfl⟩

/-- Loadable sales are stored. -/
theorem parseAll_tables (h : ∀ items ∈ files, items.proper = true) {sales : List (List Sale)}
    (hread : files.mapM readFile = some sales) (hload : Loadable sales.flatten) :
    (Parser.fresh categories bids categorizations).parseAll files =
      .ok (tablesOf categories bids categorizations sales.flatten) := by
  obtain ⟨hvalid, hstored⟩ := @allValid_takes categories _ (same_itemId h hread)
  exact parseAll_progress.mpr ⟨sales, hread, hvalid.mpr hload, by rw [hstored hload]; rfl⟩

end Run

/-- The loader succeeds exactly on files that can be read as sales with different ids and records that can be stored, and
its tables are those of the sales. -/
theorem parseAll_iff (categories bids categorizations : Nat) (files : List Json) (h : ∀ items ∈ files, items.proper = true)
    (parser : Parser) : (Parser.fresh categories bids categorizations).parseAll files = .ok parser ↔
      ∃ sales : List (List Sale), files.mapM readFile = some sales ∧ Loadable sales.flatten ∧
        parser = tablesOf categories bids categorizations sales.flatten := by
  constructor
  · exact parseAll_sales h
  · rintro ⟨sales, hread, hload, rfl⟩
    exact parseAll_tables h hread hload

theorem parseAll_iff_sold :
    ∃ parser, (Parser.fresh 0 0 0).parseAll [.arr [Parser.soldItem 1, Parser.soldItem 2], .arr [Parser.soldItem 3]] =
        .ok parser ∧
      ∃ sales : List (List Sale),
        [.arr [Parser.soldItem 1, Parser.soldItem 2], .arr [Parser.soldItem 3]].mapM readFile = some sales ∧
        Loadable sales.flatten ∧ parser = tablesOf 0 0 0 sales.flatten := by
  have hproper : ∀ items ∈ [Json.arr [Parser.soldItem 1, Parser.soldItem 2], .arr [Parser.soldItem 3]],
      items.proper = true := by decide
  exact ⟨_, rfl, (parseAll_iff 0 0 0 _ hproper _).mp rfl⟩

end Cs564.Auction
