import Cs564.Auction.Database

/-!
# The queries

Four of the queries are about ids, categories and places alone: `query1.sql`, `query2.sql`, `query3.sql` and `query6.sql`.
On the database that the program and `load.txt` make of the items, they answer what they ask of the items themselves
(`queries_answer`).  The other queries compare numbers, which depends on what SQLite makes of the texts in the columns.
-/

namespace Cs564.Auction

/-- `COUNT(DISTINCT …)`. -/
def countDistinct {α : Type} [DecidableEq α] (values : List α) : Nat := values.dedup.length

def newYork : List Char := "New York".toList

/-- `query1.sql`: how many users there are. -/
def query1 (db : Database) : Nat := db.users.length

/-- `query2.sql`: how many users are in New York. -/
def query2 (db : Database) : Nat := (db.users.filter fun u => u.location = some newYork).length

/-- `query3.sql`: how many items are in exactly four categories. -/
def query3 (db : Database) : Nat :=
  countDistinct ((db.items.filter fun i =>
    (db.categorizations.filter fun c => i.itemId = c.itemId).length = 4).map ItemRow.itemId)

/-- `query6.sql`: how many users are both bidders and sellers. -/
def query6 (db : Database) : Nat :=
  countDistinct (db.users.flatMap fun u => db.bids.flatMap fun b => db.items.flatMap fun i =>
    if u.uid = b.userId ∧ u.uid = i.sellerId then [u.uid] else [])

section Counting

variable {α β κ : Type} [DecidableEq κ]

/-- Distinct values can be counted in any list of the same values without repetitions. -/
theorem countDistinct_eq {values values' : List κ} (h : values'.Nodup) (hmem : ∀ a, a ∈ values ↔ a ∈ values') :
    countDistinct values = values'.length := by
  have hperm : values.dedup.Perm values' :=
    (List.perm_ext_iff_of_nodup (List.nodup_dedup values) h).mpr fun a => List.mem_dedup.trans (hmem a)
  exact hperm.length_eq

/-- Among the rows that come from a list of keys, those with one key come from its entry. -/
theorem filter_flatMap_key {l : List α} {key : α → κ} {rows : α → List β} {keyOf : β → κ} (hkeys : (l.map key).Nodup)
    (hrows : ∀ a ∈ l, ∀ b ∈ rows a, keyOf b = key a) {a : α} (ha : a ∈ l) :
    (l.flatMap rows).filter (fun b => key a = keyOf b) = rows a := by
  induction l with
  | nil => cases ha
  | cons c l ih =>
    rw [List.map_cons, List.nodup_cons] at hkeys
    have hrest : ∀ d ∈ l, ∀ b ∈ rows d, keyOf b = key d := fun d hd => hrows d (List.mem_cons_of_mem _ hd)
    rw [List.flatMap_cons, List.filter_append]
    rcases List.mem_cons.mp ha with rfl | ha
    · have hself : (rows a).filter (fun b => key a = keyOf b) = rows a :=
        List.filter_eq_self.mpr fun b hb => by simp [hrows a List.mem_cons_self b hb]
      have hnone : (l.flatMap rows).filter (fun b => key a = keyOf b) = [] := by
        refine List.filter_eq_nil_iff.mpr fun b hb => ?_
        obtain ⟨d, hd, hb⟩ := List.mem_flatMap.mp hb
        rw [hrest d hd b hb, decide_eq_true_eq]
        exact fun heq => hkeys.1 (heq ▸ List.mem_map_of_mem hd)
      rw [hself, hnone, List.append_nil]
    · have hnone : (rows c).filter (fun b => key a = keyOf b) = [] := by
        refine List.filter_eq_nil_iff.mpr fun b hb => ?_
        rw [hrows c List.mem_cons_self b hb, decide_eq_true_eq]
        exact fun heq => hkeys.1 (heq ▸ List.mem_map_of_mem ha)
      rw [hnone, List.nil_append, ih hkeys.2 hrest ha]

/-- A condition on the entries of a numbered list. -/
theorem length_filter_zipIdx {l : List α} {n : Nat} {p : α → Bool} :
    ((l.zipIdx n).filter fun entry => p entry.1).length = (l.filter p).length := by
  have hmap : ((l.zipIdx n).filter fun entry => p entry.1).map (·.1) = l.filter p := by
    conv_rhs => rw [← List.zipIdx_map_fst n l, List.filter_map]
    rfl
  rw [← hmap, List.length_map]

end Counting

section Queries

variable {other : Json → List Char} {repr : SaferFloat → List Char} {category bid categorization : Nat} {sales : List Sale}

/-- The location that a user is known by. -/
def locationOf (sales : List Sale) (uid : List Char) : Option (List Char) :=
  setNull (keptBare (valuesOf Call.location (records sales) uid))

theorem query1_databaseOf :
    query1 (databaseOf other repr category bid categorization sales) = (users (records sales)).length := List.length_map ..

theorem query2_databaseOf : query2 (databaseOf other repr category bid categorization sales) =
    ((users (records sales)).filter fun uid => locationOf sales uid = some newYork).length := by
  rw [query2, databaseOf, List.filter_map, List.length_map]
  rfl

/-- The rows of an item's categories. -/
theorem itemCategories (hkeyed : (databaseOf other repr category bid categorization sales).Keyed) {sale : Sale}
    (hsale : sale ∈ sales) : ((databaseOf other repr category bid categorization sales).categorizations.filter fun c =>
      str other sale.itemId = c.itemId).length = (firsts sale.categories).length := by
  have hids : (sales.map fun sale => str other sale.itemId).Nodup := by
    have hnodup := hkeyed.itemIds
    rw [databaseOf, List.map_map] at hnodup
    exact hnodup
  rw [databaseOf, List.filter_map, List.length_map]
  have hrows : ((pairsOf category (names sales) sales).filter fun pair => str other sale.itemId = str other pair.1) =
      (firsts sale.categories).map fun name => (sale.itemId, categoryId category (names sales) name) := by
    refine filter_flatMap_key hids (fun known _ pair hpair => ?_) hsale
    obtain ⟨name, -, rfl⟩ := List.mem_map.mp hpair
    rfl
  refine (length_filter_zipIdx (p := fun pair : Json × Nat => str other sale.itemId = str other pair.1)).trans ?_
  rw [hrows, List.length_map]

theorem query3_databaseOf (hkeyed : (databaseOf other repr category bid categorization sales).Keyed) :
    query3 (databaseOf other repr category bid categorization sales) =
      (sales.filter fun sale => (firsts sale.categories).length = 4).length := by
  rw [query3, countDistinct_eq (hkeyed.itemIds.sublist (List.filter_sublist.map _)) fun _ => Iff.rfl, List.length_map]
  change ((sales.map _).filter _).length = _
  rw [List.filter_map, List.length_map]
  congr 1
  apply List.filter_congr
  intro sale hsale
  exact decide_eq_decide.mpr (itemCategories hkeyed hsale ▸ Iff.rfl)

theorem query6_databaseOf : query6 (databaseOf other repr category bid categorization sales) =
    ((users (records sales)).filter fun uid => (∃ sale ∈ sales, sale.seller.uid = uid) ∧
      ∃ sale ∈ sales, ∃ offer ∈ sale.offers, offer.bidder.uid = uid).length := by
  refine countDistinct_eq ((nodup_firsts _).sublist List.filter_sublist) fun uid => ?_
  simp only [databaseOf, List.mem_flatMap, List.mem_map, List.mem_ite_nil_right, List.mem_singleton, List.mem_filter,
    decide_eq_true_eq]
  constructor
  · rintro ⟨-, ⟨uid, huid, rfl⟩, -, ⟨entry, hentry, rfl⟩, -, ⟨sale, hsale, rfl⟩, ⟨hbidder, hseller⟩, rfl⟩
    obtain ⟨sale', hsale', -, hoffer⟩ := bidsOf_item (List.fst_mem_of_mem_zipIdx hentry)
    exact ⟨huid, ⟨sale, hsale, hseller.symm⟩, sale', hsale', _, hoffer, hbidder.symm⟩
  · rintro ⟨huid, ⟨sale, hsale, rfl⟩, sale', hsale', offer, hoffer, hbidder⟩
    have hbid : (sale'.itemId, offer) ∈ bidsOf sales :=
      List.mem_flatMap.mpr ⟨sale', hsale', List.mem_map_of_mem hoffer⟩
    obtain ⟨i, hi⟩ := List.mem_iff_getElem?.mp hbid
    have hentry : ((sale'.itemId, offer), bid + i) ∈ (bidsOf sales).zipIdx bid :=
      List.mk_add_mem_zipIdx_iff_getElem?.mpr hi
    exact ⟨_, ⟨_, huid, rfl⟩, _, ⟨_, hentry, rfl⟩, _, ⟨sale, hsale, rfl⟩, ⟨hbidder.symm, rfl⟩, rfl⟩

end Queries

/-- The answers of the queries on the imported database are the numbers of the users in the items, of those known to be in
New York, of the items in exactly four different categories, and of the users who both sell and bid. -/
theorem queries_answer (other : Json → List Char) (repr : SaferFloat → List Char)
    (hrepr : ∀ v, v ≠ .null → Clean (repr v)) (files : List Json) (hproper : ∀ items ∈ files, items.proper = true)
    (sales : List (List Sale)) (hread : files.mapM readFile = some sales) (hload : Loadable sales.flatten)
    (hexported : ∀ sale ∈ sales.flatten, sale.Exported) :
    ∃ written after db, program other repr files = .ok (written, after) ∧ load written = some db ∧
      query1 db = (users (records sales.flatten)).length ∧
      query2 db = ((users (records sales.flatten)).filter fun uid =>
        locationOf sales.flatten uid = some newYork).length ∧
      query3 db = (sales.flatten.filter fun sale => (firsts sale.categories).length = 4).length ∧
      query6 db = ((users (records sales.flatten)).filter fun uid => (∃ sale ∈ sales.flatten, sale.seller.uid = uid) ∧
        ∃ sale ∈ sales.flatten, ∃ offer ∈ sale.offers, offer.bidder.uid = uid).length := by
  exact ⟨_, _, _, program_eq hproper hread hload, load_filesOf hrepr hexported 0 0 0, query1_databaseOf,
    query2_databaseOf, query3_databaseOf (databaseOf_keyed hload hexported 0 0 0), query6_databaseOf⟩

theorem queries_answer_plain : ∃ written after db,
    program (fun _ => []) (fun _ => []) [.arr [plainItem 1, plainItem 2]] = .ok (written, after) ∧
      load written = some db ∧ query1 db = 1 ∧ query2 db = 0 ∧ query3 db = 0 ∧ query6 db = 1 := by
  obtain ⟨written, after, db, hprogram, hload, h1, h2, h3, h6⟩ := queries_answer (fun _ => []) (fun _ => [])
    (fun _ _ _ hc => by cases hc) _ plainItems_proper [[plainSale 1, plainSale 2]] read_plainItems plainSales_loadable
    plainSales_exported
  exact ⟨written, after, db, hprogram, hload, h1.trans (by decide), h2.trans (by decide), h3.trans (by decide),
    h6.trans (by decide)⟩

end Cs564.Auction
