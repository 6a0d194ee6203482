import Cs564.Auction.Import
import Cs564.Auction.Loader

/-!
# The database

`Parser.flush` writes the five tables into files, and `load.txt` imports the files.  Together with the loader this is the
way of the items into the database: sales that are loaded, flushed and imported are the rows of `databaseOf`
(`program_database`), and these satisfy the keys of `create.sql`.

The text that `str` makes of a float is a parameter (`repr`), of which it is only known that it has no bars, quotes and
ends of lines.
-/

namespace Cs564.Auction

/-! ### Writing the tables -/

/-- `str` of what `saferfloat` returned. -/
def strFloat (repr : SaferFloat → List Char) : SaferFloat → List Char
  | .null => safernull
  | v => repr v

/-- `CategorizationData.flush`. -/
def CategorizationData.flush (other : Json → List Char) (t : CategorizationData) :
    Except PyError (List Char × CategorizationData) := do
  let lns ← (List.range t.uids.length).mapM fun i => do
    let uid ← cell t.uids i
    let itemId ← cell t.itemIds i
    let cateId ← cell t.cateIds i
    return line bars [strNat uid, str other itemId, strNat cateId]
  return (lns.flatten, { t with uids := [], itemIds := [], cateIds := [] })

/-- `ItemData.flush`. -/
def ItemData.flush (other : Json → List Char) (repr : SaferFloat → List Char) (t : ItemData) :
    Except PyError (List Char × ItemData) := do
  let lns ← (List.range t.uids.length).mapM fun i => do
    let uid ← cell t.uids i
    let sellerId ← cell t.sellerIds i
    let name ← cell t.names i
    let currently ← cell t.currentlys i
    let buyPrice ← cell t.buyPrices i
    let firstBid ← cell t.firstBids i
    let numBids ← cell t.numBidss i
    let started ← cell t.starteds i
    let ends ← cell t.endss i
    let desc ← cell t.descs i
    return line bars [str other uid, sellerId, name, strFloat repr currently, strFloat repr buyPrice,
      strFloat repr firstBid, str other numBids, started, ends, desc]
  return (lns.flatten, .fresh)

/-- The files in `result/`. -/
structure Files where
  category : List Char
  user : List Char
  bid : List Char
  item : List Char
  categorization : List Char

/-- `Parser.flush`: the files, and the parser it leaves. -/
def Parser.flush (other : Json → List Char) (repr : SaferFloat → List Char) (parser : Parser) :
    Except PyError (Files × Parser) := do
  let category ← parser.c.flush
  let user ← parser.u.flush other
  let bid ← parser.b.flush other
  let item ← parser.i.flush other repr
  let categorization ← parser.ci.flush other
  return ({ category := category.1, user := user.1, bid := bid.1, item := item.1, categorization := categorization.1 },
    { c := category.2, u := user.2, b := bid.2, i := item.2, ci := categorization.2 })

/-- `main` of `parser.py`, on what `json.loads` returned for its arguments. -/
def program (other : Json → List Char) (repr : SaferFloat → List Char) (files : List Json) :
    Except PyError (Files × Parser) := do
  (← (Parser.fresh 0 0 0).parseAll files).flush other repr

/-! ### Reading the files -/

/-- A row of the table `Bid`. -/
structure BidRow where
  bidId : List Char
  userId : List Char
  itemId : List Char
  time : List Char
  amount : List Char
deriving DecidableEq

/-- A row of the table `Category`. -/
structure CategoryRow where
  categoryId : List Char
  name : List Char
deriving DecidableEq

/-- A row of the table `Categorization`. -/
structure CategorizationRow where
  uid : List Char
  itemId : List Char
  cateId : List Char
deriving DecidableEq

/-- A row of the table `Item`. -/
structure ItemRow where
  itemId : List Char
  sellerId : List Char
  name : List Char
  currently : List Char
  buyPrice : Option (List Char)
  firstBid : List Char
  numBids : Option (List Char)
  started : List Char
  ends : List Char
  desc : List Char
deriving DecidableEq

/-- The tables of `create.sql`. -/
structure Database where
  bids : List BidRow
  categories : List CategoryRow
  categorizations : List CategorizationRow
  users : List User
  items : List ItemRow

def BidRow.ofFields : List (List Char) → Option BidRow
  | [bidId, userId, itemId, time, amount] => some { bidId, userId, itemId, time, amount }
  | _ => none

def CategoryRow.ofFields : List (List Char) → Option CategoryRow
  | [categoryId, name] => some { categoryId, name }
  | _ => none

def CategorizationRow.ofFields : List (List Char) → Option CategorizationRow
  | [uid, itemId, cateId] => some { uid, itemId, cateId }
  | _ => none

/-- The row of an item, with its two updates. -/
def ItemRow.ofFields : List (List Char) → Option ItemRow
  | [itemId, sellerId, name, currently, buyPrice, firstBid, numBids, started, ends, desc] =>
    some { itemId, sellerId, name, currently, buyPrice := setNull buyPrice, firstBid, numBids := setNull numBids, started,
           ends, desc }
  | _ => none

/-- `.import` of a file into a table. -/
def importRows {ρ : Type} (ofFields : List (List Char) → Option ρ) (text : List Char) : Option (List ρ) := do
  (← read bars text).mapM ofFields

/-- `load.txt`. -/
def load (files : Files) : Option Database := do
  let bids ← importRows BidRow.ofFields files.bid
  let categories ← importRows CategoryRow.ofFields files.category
  let categorizations ← importRows CategorizationRow.ofFields files.categorization
  let users ← loadUsers files.user
  let items ← importRows ItemRow.ofFields files.item
  return { bids, categories, categorizations, users, items }

/-! ### The rows of the sales -/

/-- A text in the database, where it is not null. -/
def bareOpt (text : Option (List Char)) : List Char := text.getD nullText

/-- A float in the database. -/
def bareFloat (repr : SaferFloat → List Char) : SaferFloat → List Char
  | .null => nullText
  | v => repr v

/-- A number in the database, where it is not null. -/
def bareInt : Option Int → List Char
  | none => nullText
  | some n => (toString n).toList

/-- The rows that the sales stand for; the numbers are the class counters in the beginning. -/
def databaseOf (other : Json → List Char) (repr : SaferFloat → List Char) (category bid categorization : Nat)
    (sales : List Sale) : Database where
  bids := ((bidsOf sales).zipIdx bid).map fun entry =>
    { bidId := strNat entry.2, userId := entry.1.2.bidder.uid, itemId := str other entry.1.1, time := entry.1.2.time,
      amount := bareOpt entry.1.2.amount }
  categories := (categories category (names sales)).map fun entry => { categoryId := strNat entry.2, name := entry.1 }
  categorizations := ((pairsOf category (names sales) sales).zipIdx categorization).map fun entry =>
    { uid := strNat entry.2, itemId := str other entry.1.1, cateId := strNat entry.1.2 }
  users := (users (records sales)).map fun uid =>
    { uid, rating := ratingText other (valuesOf Call.rating (records sales) uid),
      location := setNull (keptBare (valuesOf Call.location (records sales) uid)),
      country := setNull (keptBare (valuesOf Call.country (records sales) uid)) }
  items := sales.map fun sale =>
    { itemId := str other sale.itemId, sellerId := sale.seller.uid, name := bareOpt sale.name,
      currently := bareFloat repr sale.currently, buyPrice := setNull (bareFloat repr sale.buyPrice),
      firstBid := bareFloat repr sale.firstBid, numBids := setNull (bareInt sale.numBids), started := sale.started,
      ends := sale.ends, desc := bareOpt sale.desc }

/-- A sale with a numeral for its id, and ratings of digits. -/
structure Sale.Exported (sale : Sale) : Prop where
  itemId : ∃ n : Nat, sale.itemId = .str (strNat n)
  records : ∀ call ∈ sale.records, call.Exported

/-- The primary, unique and foreign keys of `create.sql`, but for the last one: it refers a bid to `User(item_id)`, a column
that is not there. -/
structure Database.Keyed (db : Database) : Prop where
  categoryIds : (db.categories.map CategoryRow.categoryId).Nodup
  categoryNames : (db.categories.map CategoryRow.name).Nodup
  userIds : (db.users.map User.uid).Nodup
  itemIds : (db.items.map ItemRow.itemId).Nodup
  categorizationIds : (db.categorizations.map CategorizationRow.uid).Nodup
  bidIds : (db.bids.map BidRow.bidId).Nodup
  sellers : db.items.map ItemRow.sellerId ⊆ db.users.map User.uid
  bidUsers : db.bids.map BidRow.userId ⊆ db.users.map User.uid
  categorizationItems : db.categorizations.map CategorizationRow.itemId ⊆ db.items.map ItemRow.itemId
  categorizationCategories :
    db.categorizations.map CategorizationRow.cateId ⊆ db.categories.map CategoryRow.categoryId

/-! ### The files of the sales -/

section Files

variable {other : Json → List Char} {repr : SaferFloat → List Char} {counter : Nat} {sales : List Sale}

theorem writes_optText (text : Option (List Char)) : Writes bars (optText text) (bareOpt text) := by
  cases text with
  | none =>
    change Writes bars safernull nullText
    rw [safernull_eq]
    exact Writes.quoted nullText
  | some s => exact Writes.quoted s

theorem writes_float (hrepr : ∀ v, v ≠ .null → Clean (repr v)) (v : SaferFloat) :
    Writes bars (strFloat repr v) (bareFloat repr v) := by
  cases v with
  | null =>
    change Writes bars safernull nullText
    rw [safernull_eq]
    exact Writes.quoted nullText
  | ofStr s => exact Writes.plain (hrepr _ nofun)
  | ofNum q => exact Writes.plain (hrepr _ nofun)

theorem str_num (n : Int) : str other (.num n) = (toString n).toList := by
  have hden : (n : Rat).den = 1 := by simp
  have hnum : (n : Rat).num = n := by simp
  rw [str, if_pos hden, hnum]

theorem writes_int (n : Option Int) : Writes bars (str other (optInt n)) (bareInt n) := by
  cases n with
  | none =>
    change Writes bars safernull nullText
    rw [safernull_eq]
    exact Writes.quoted nullText
  | some n =>
    rw [optInt, str_num]
    exact Writes.plain (clean_toString n)

theorem Sale.Exported.writes_id {sale : Sale} (h : sale.Exported) :
    Writes bars (str other sale.itemId) (str other sale.itemId) := by
  obtain ⟨n, hn⟩ := h.itemId
  rw [hn]
  exact Writes.plain (clean_strNat n)

/-- The cells of a bid's line. -/
def offerCells (other : Json → List Char) (entry : (Json × Offer) × Nat) : List (List Char) :=
  [strNat entry.2, enclose quote entry.1.2.bidder.uid, str other entry.1.1, enclose quote entry.1.2.time,
    optText entry.1.2.amount]

theorem flush_offers (counter : Nat) (bids : List (Json × Offer)) : (offersTable counter bids).flush other =
    .ok (((bids.zipIdx counter).map fun entry => line bars (offerCells other entry)).flatten,
      .fresh (counter + bids.length)) := by
  have hlen : (offersTable counter bids).uids.length = (bids.zipIdx counter).length := List.length_map ..
  have hrows : (List.range (bids.zipIdx counter).length).mapM (fun i => do
      let uid ← cell (offersTable counter bids).uids i
      let userId ← cell (offersTable counter bids).userIds i
      let itemId ← cell (offersTable counter bids).itemIds i
      let time ← cell (offersTable counter bids).times i
      let amount ← cell (offersTable counter bids).amounts i
      return line bars [strNat uid, userId, str other itemId, time, amount]) =
        .ok ((bids.zipIdx counter).map fun entry => line bars (offerCells other entry)) := by
    apply mapM_range_ok
    intro i entry hi
    simp only [offersTable, cell_map hi]
    rfl
  rw [BidData.flush, hlen, hrows]
  rfl

/-- The cells of a categorization's line. -/
def pairCells (other : Json → List Char) (entry : (Json × Nat) × Nat) : List (List Char) :=
  [strNat entry.2, str other entry.1.1, strNat entry.1.2]

theorem flush_pairs (counter : Nat) (pairs : List (Json × Nat)) : (pairsTable counter pairs).flush other =
    .ok (((pairs.zipIdx counter).map fun entry => line bars (pairCells other entry)).flatten,
      .fresh (counter + pairs.length)) := by
  have hlen : (pairsTable counter pairs).uids.length = (pairs.zipIdx counter).length := List.length_map ..
  have hrows : (List.range (pairs.zipIdx counter).length).mapM (fun i => do
      let uid ← cell (pairsTable counter pairs).uids i
      let itemId ← cell (pairsTable counter pairs).itemIds i
      let cateId ← cell (pairsTable counter pairs).cateIds i
      return line bars [strNat uid, str other itemId, strNat cateId]) =
        .ok ((pairs.zipIdx counter).map fun entry => line bars (pairCells other entry)) := by
    apply mapM_range_ok
    intro i entry hi
    simp only [pairsTable, cell_map hi]
    rfl
  rw [CategorizationData.flush, hlen, hrows]
  rfl

/-- The cells of an item's line. -/
def itemCells (other : Json → List Char) (repr : SaferFloat → List Char) (sale : Sale) : List (List Char) :=
  [str other sale.itemId, enclose quote sale.seller.uid, optText sale.name, strFloat repr sale.currently,
    strFloat repr sale.buyPrice, strFloat repr sale.firstBid, str other (optInt sale.numBids), enclose quote sale.started,
    enclose quote sale.ends, optText sale.desc]

theorem flush_items (sales : List Sale) : (itemsTable sales).flush other repr =
    .ok ((sales.map fun sale => line bars (itemCells other repr sale)).flatten, .fresh) := by
  have hlen : (itemsTable sales).uids.length = sales.length := List.length_map ..
  have hrows : (List.range sales.length).mapM (fun i => do
      let uid ← cell (itemsTable sales).uids i
      let sellerId ← cell (itemsTable sales).sellerIds i
      let name ← cell (itemsTable sales).names i
      let currently ← cell (itemsTable sales).currentlys i
      let buyPrice ← cell (itemsTable sales).buyPrices i
      let firstBid ← cell (itemsTable sales).firstBids i
      let numBids ← cell (itemsTable sales).numBidss i
      let started ← cell (itemsTable sales).starteds i
      let ends ← cell (itemsTable sales).endss i
      let desc ← cell (itemsTable sales).descs i
      return line bars [str other uid, sellerId, name, strFloat repr currently, strFloat repr buyPrice,
        strFloat repr firstBid, str other numBids, started, ends, desc]) =
        .ok (sales.map fun sale => line bars (itemCells other repr sale)) := by
    apply mapM_range_ok
    intro i sale hi
    simp only [itemsTable, cell_map hi]
    rfl
  rw [ItemData.flush, hlen, hrows]
  rfl

/-- The rows that an import makes of a file that was written by the rules. -/
theorem importRows_eq {κ ρ : Type} {ofFields : List (List Char) → Option ρ} {entries : List κ}
    {cells : κ → List (List Char)} (fields : κ → List (List Char)) {row : κ → ρ}
    (h : ∀ k ∈ entries, cells k ≠ [] ∧ List.Forall₂ (Writes bars) (cells k) (fields k))
    (hrow : ∀ k, ofFields (fields k) = some (row k)) :
    importRows ofFields (entries.map fun k => line bars (cells k)).flatten = some (entries.map row) := by
  rw [importRows, read_lines h]
  change (entries.map fields).mapM ofFields = _
  clear h
  induction entries with
  | nil => rfl
  | cons k entries ih =>
    rw [List.map_cons, List.mapM_cons, hrow, ih]
    rfl

/-- What the parser writes for the sales. -/
def filesOf (other : Json → List Char) (repr : SaferFloat → List Char) (category bid categorization : Nat)
    (sales : List Sale) : Files where
  category := ((categories category (names sales)).map fun entry => line bars [strNat entry.2, enclose quote entry.1]).flatten
  user := ((users (records sales)).map fun uid => line bars (userCells other (records sales) uid)).flatten
  bid := (((bidsOf sales).zipIdx bid).map fun entry => line bars (offerCells other entry)).flatten
  item := (sales.map fun sale => line bars (itemCells other repr sale)).flatten
  categorization := (((pairsOf category (names sales) sales).zipIdx categorization).map fun entry =>
    line bars (pairCells other entry)).flatten

theorem flush_tablesOf (category bid categorization : Nat) (sales : List Sale) :
    (tablesOf category bid categorization sales).flush other repr =
      .ok (filesOf other repr category bid categorization sales,
        .fresh (category + (firsts (names sales)).length) (bid + (bidsOf sales).length)
          (categorization + (pairsOf category (names sales) sales).length)) := by
  rw [Parser.flush]
  simp only [tablesOf, flush_categories, flush_usersTable, flush_offers, flush_items, flush_pairs, ok_bind]
  rfl

theorem program_eq {files : List Json} (h : ∀ items ∈ files, items.proper = true) {sales : List (List Sale)}
    (hread : files.mapM readFile = some sales) (hload : Loadable sales.flatten) : program other repr files =
      .ok (filesOf other repr 0 0 0 sales.flatten, .fresh (0 + (firsts (names sales.flatten)).length)
        (0 + (bidsOf sales.flatten).length) (0 + (pairsOf 0 (names sales.flatten) sales.flatten).length)) := by
  rw [program, parseAll_tables h hread hload, ok_bind, flush_tablesOf]

theorem bidsOf_item {bid : Json × Offer} (h : bid ∈ bidsOf sales) :
    ∃ sale ∈ sales, bid.1 = sale.itemId ∧ bid.2 ∈ sale.offers := by
  obtain ⟨sale, hsale, hbid⟩ := List.mem_flatMap.mp h
  obtain ⟨offer, hoffer, rfl⟩ := List.mem_map.mp hbid
  exact ⟨sale, hsale, rfl, hoffer⟩

theorem pairsOf_item {pair : Json × Nat} {all : List (List Char)} (h : pair ∈ pairsOf counter all sales) :
    ∃ sale ∈ sales, pair.1 = sale.itemId ∧ ∃ name ∈ sale.categories, pair.2 = categoryId counter all name := by
  obtain ⟨sale, hsale, hpair⟩ := List.mem_flatMap.mp h
  obtain ⟨name, hname, rfl⟩ := List.mem_map.mp hpair
  exact ⟨sale, hsale, rfl, name, mem_firsts.mp hname, rfl⟩

/-- The import makes the rows of the sales. -/
theorem load_filesOf (hrepr : ∀ v, v ≠ .null → Clean (repr v)) (hexported : ∀ sale ∈ sales, sale.Exported)
    (category bid categorization : Nat) :
    load (filesOf other repr category bid categorization sales) =
      some (databaseOf other repr category bid categorization sales) := by
  have hcalls : ∀ call ∈ records sales, call.Exported := by
    intro call hcall
    obtain ⟨sale, hsale, hcall⟩ := List.mem_flatMap.mp hcall
    exact (hexported sale hsale).records call hcall
  have hbids : importRows BidRow.ofFields (filesOf other repr category bid categorization sales).bid =
      some (databaseOf other repr category bid categorization sales).bids := by
    refine importRows_eq (fun entry => [strNat entry.2, entry.1.2.bidder.uid, str other entry.1.1,
      entry.1.2.time, bareOpt entry.1.2.amount]) (fun entry hentry => ?_) fun _ => rfl
    obtain ⟨sale, hsale, hitem, -⟩ := bidsOf_item (List.fst_mem_of_mem_zipIdx hentry)
    have hid : Writes bars (str other entry.1.1) (str other entry.1.1) := hitem ▸ (hexported sale hsale).writes_id
    exact ⟨by simp [offerCells], .cons (Writes.plain (clean_strNat entry.2)) (.cons (Writes.quoted _) (.cons hid
      (.cons (Writes.quoted _) (.cons (writes_optText _) .nil))))⟩
  have hcategories : importRows CategoryRow.ofFields (filesOf other repr category bid categorization sales).category =
      some (databaseOf other repr category bid categorization sales).categories :=
    importRows_eq categoryRow (fun entry _ => ⟨by simp, .cons (Writes.plain (clean_strNat entry.2))
      (.cons (Writes.quoted entry.1) .nil)⟩) fun _ => rfl
  have hpairs : importRows CategorizationRow.ofFields
      (filesOf other repr category bid categorization sales).categorization =
        some (databaseOf other repr category bid categorization sales).categorizations := by
    refine importRows_eq (pairCells other) (fun entry hentry => ?_) fun _ => rfl
    obtain ⟨sale, hsale, hitem, -⟩ := pairsOf_item (List.fst_mem_of_mem_zipIdx hentry)
    have hid : Writes bars (str other entry.1.1) (str other entry.1.1) := hitem ▸ (hexported sale hsale).writes_id
    exact ⟨by simp [pairCells], .cons (Writes.plain (clean_strNat entry.2)) (.cons hid
      (.cons (Writes.plain (clean_strNat entry.1.2)) .nil))⟩
  have hitems : importRows ItemRow.ofFields (filesOf other repr category bid categorization sales).item =
      some (databaseOf other repr category bid categorization sales).items := by
    refine importRows_eq (fun sale => [str other sale.itemId, sale.seller.uid, bareOpt sale.name,
      bareFloat repr sale.currently, bareFloat repr sale.buyPrice, bareFloat repr sale.firstBid, bareInt sale.numBids,
      sale.started, sale.ends, bareOpt sale.desc]) (fun sale hsale => ?_) fun _ => rfl
    exact ⟨by simp [itemCells], .cons (hexported sale hsale).writes_id (.cons (Writes.quoted _) (.cons (writes_optText _)
      (.cons (writes_float hrepr _) (.cons (writes_float hrepr _) (.cons (writes_float hrepr _) (.cons (writes_int _)
        (.cons (Writes.quoted _) (.cons (Writes.quoted _) (.cons (writes_optText _) .nil)))))))))⟩
  have husers : loadUsers (filesOf other repr category bid categorization sales).user =
      some (databaseOf other repr category bid categorization sales).users := loadUsers_eq hcalls
  rw [load, hbids, hcategories, hpairs, husers, hitems]
  rfl

theorem strNat_injective : Function.Injective strNat := by
  intro m n h
  have hm := @Nat.ofDigitChars_ten_toDigits m
  rw [← strNat, h, strNat, Nat.ofDigitChars_ten_toDigits] at hm
  exact hm.symm

/-- Ids that a counter gives out are different. -/
private theorem nodup_zipIdx {α : Type} (l : List α) (n : Nat) : ((l.zipIdx n).map fun entry => strNat entry.2).Nodup := by
  have hids : (l.zipIdx n).map (·.2) = List.range' n l.length := List.zipIdx_map_snd n l
  have hmap : ((l.zipIdx n).map fun entry => strNat entry.2) = ((l.zipIdx n).map (·.2)).map strNat := by
    rw [List.map_map]
    rfl
  rw [hmap, hids]
  exact (List.nodup_range' ..).map strNat_injective

private theorem userRows_uid (category bid categorization : Nat) :
    (databaseOf other repr category bid categorization sales).users.map User.uid = users (records sales) := by
  rw [databaseOf, List.map_map]
  exact List.map_id _

/-- The users that the records name are in the table. -/
private theorem mem_userRows {call : Call} (h : call ∈ records sales) (category bid categorization : Nat) :
    call.uid ∈ (databaseOf other repr category bid categorization sales).users.map User.uid := by
  rw [userRows_uid]
  exact mem_users.mpr ⟨call, h, rfl⟩

private theorem mem_itemRows {sale : Sale} (h : sale ∈ sales) (category bid categorization : Nat) :
    str other sale.itemId ∈ (databaseOf other repr category bid categorization sales).items.map ItemRow.itemId :=
  List.mem_map.mpr ⟨_, List.mem_map_of_mem h, rfl⟩

/-- The rows of the sales satisfy the keys. -/
theorem databaseOf_keyed (hload : Loadable sales) (hexported : ∀ sale ∈ sales, sale.Exported)
    (category bid categorization : Nat) : (databaseOf other repr category bid categorization sales).Keyed where
  categoryIds := by
    rw [databaseOf, List.map_map]
    exact nodup_zipIdx (firsts (names sales)) category
  categoryNames := by
    have hnames : (databaseOf other repr category bid categorization sales).categories.map CategoryRow.name =
        (categories category (names sales)).map (·.1) := by
      rw [databaseOf, List.map_map]
      rfl
    rw [hnames, categories, List.zipIdx_map_fst]
    exact nodup_firsts _
  userIds := by
    rw [userRows_uid]
    exact nodup_firsts _
  itemIds := by
    rw [databaseOf, List.map_map, List.Nodup, List.pairwise_map]
    refine (List.pairwise_map.mp hload.ids).imp_of_mem fun {sale sale'} hsale hsale' hne heq => hne ?_
    obtain ⟨n, hn⟩ := (hexported sale hsale).itemId
    obtain ⟨n', hn'⟩ := (hexported sale' hsale').itemId
    replace heq : str other sale.itemId = str other sale'.itemId := heq
    rw [hn, hn'] at heq ⊢
    exact beq_iff_eq.mpr heq
  categorizationIds := by
    rw [databaseOf, List.map_map]
    exact nodup_zipIdx (pairsOf category (names sales) sales) categorization
  bidIds := by
    rw [databaseOf, List.map_map]
    exact nodup_zipIdx (bidsOf sales) bid
  sellers := by
    intro uid huid
    obtain ⟨row, hrow, rfl⟩ := List.mem_map.mp huid
    obtain ⟨sale, hsale, rfl⟩ := List.mem_map.mp hrow
    exact mem_userRows (List.mem_flatMap.mpr ⟨sale, hsale, by simp [Sale.records]⟩) category bid categorization
  bidUsers := by
    intro uid huid
    obtain ⟨row, hrow, rfl⟩ := List.mem_map.mp huid
    obtain ⟨entry, hentry, rfl⟩ := List.mem_map.mp hrow
    obtain ⟨sale, hsale, -, hoffer⟩ := bidsOf_item (List.fst_mem_of_mem_zipIdx hentry)
    have hcall : entry.1.2.bidder ∈ sale.records := List.mem_append_left _ (List.mem_map_of_mem hoffer)
    exact mem_userRows (List.mem_flatMap.mpr ⟨sale, hsale, hcall⟩) category bid categorization
  categorizationItems := by
    intro id hid
    obtain ⟨row, hrow, rfl⟩ := List.mem_map.mp hid
    obtain ⟨entry, hentry, rfl⟩ := List.mem_map.mp hrow
    obtain ⟨sale, hsale, hitem, -⟩ := pairsOf_item (List.fst_mem_of_mem_zipIdx hentry)
    exact hitem ▸ mem_itemRows hsale category bid categorization
  categorizationCategories := by
    intro id hid
    obtain ⟨row, hrow, rfl⟩ := List.mem_map.mp hid
    obtain ⟨entry, hentry, rfl⟩ := List.mem_map.mp hrow
    obtain ⟨sale, hsale, -, name, hname, hcate⟩ := pairsOf_item (List.fst_mem_of_mem_zipIdx hentry)
    have hfirst : name ∈ firsts (names sales) := mem_firsts.mpr (List.mem_flatMap.mpr ⟨sale, hsale, hname⟩)
    have hentry : (name, categoryId category (names sales) name) ∈ categories category (names sales) := by
      rw [categories, List.mem_iff_getElem?]
      refine ⟨(firsts (names sales)).idxOf name, ?_⟩
      rw [List.getElem?_zipIdx, List.getElem?_idxOf hfirst]
      rfl
    exact List.mem_map.mpr ⟨_, List.mem_map_of_mem hentry, by rw [hcate]⟩

/-- The bids are on items of the table. -/
theorem bidItems_databaseOf (category bid categorization : Nat) :
    (databaseOf other repr category bid categorization sales).bids.map BidRow.itemId ⊆
      (databaseOf other repr category bid categorization sales).items.map ItemRow.itemId := by
  intro id hid
  obtain ⟨row, hrow, rfl⟩ := List.mem_map.mp hid
  obtain ⟨entry, hentry, rfl⟩ := List.mem_map.mp hrow
  obtain ⟨sale, hsale, hitem, -⟩ := bidsOf_item (List.fst_mem_of_mem_zipIdx hentry)
  exact hitem ▸ mem_itemRows hsale category bid categorization

end Files

/-- What the program makes of files that can be read as loadable sales is imported as the rows of the sales, and these
satisfy the keys; the bids are on items of the table. -/
theorem program_database (other : Json → List Char) (repr : SaferFloat → List Char)
    (hrepr : ∀ v, v ≠ .null → Clean (repr v)) (files : List Json) (hproper : ∀ items ∈ files, items.proper = true)
    (sales : List (List Sale)) (hread : files.mapM readFile = some sales) (hload : Loadable sales.flatten)
    (hexported : ∀ sale ∈ sales.flatten, sale.Exported) :
    ∃ written after, program other repr files = .ok (written, after) ∧
      load written = some (databaseOf other repr 0 0 0 sales.flatten) ∧
      (databaseOf other repr 0 0 0 sales.flatten).Keyed ∧
      (databaseOf other repr 0 0 0 sales.flatten).bids.map BidRow.itemId ⊆
        (databaseOf other repr 0 0 0 sales.flatten).items.map ItemRow.itemId := by
  exact ⟨_, _, program_eq hproper hread hload, load_filesOf hrepr hexported 0 0 0, databaseOf_keyed hload hexported 0 0 0,
    bidItems_databaseOf 0 0 0⟩

/-- An item with a bid, whose seller has a rating of digits. -/
def plainItem (itemId : Nat) : Json :=
  let user : Json := .obj [("UserID", .str ['a', '|']), ("Rating", .str ['7'])]
  let time : Json := .str ['D', 'e', 'c', '-', '0', '1', '-', '0', '1', ' ', '1']
  .obj [("ItemID", .str (strNat itemId)), ("Category", .arr [.str ['x'], .str ['x']]), ("Seller", user),
    ("Started", time), ("Ends", time),
    ("Bids", .arr [.obj [("Bid", .obj [("Bidder", user), ("Time", time), ("Amount", .str ['$', '1'])])]])]

/-- The same item as a sale. -/
def plainSale (itemId : Nat) : Sale :=
  let user : Call := { uid := ['a', '|'], rating := .str ['7'], location := .null, country := .null }
  let time : List Char := "2001-12-01 1".toList
  { itemId := .str (strNat itemId), categories := [['x'], ['x']],
    offers := [{ bidder := user, time := time, amount := some ['1'] }], seller := user, name := none, currently := .null,
    buyPrice := .null, firstBid := .null, numBids := none, started := time, ends := time, desc := none }

theorem plainItems_proper : ∀ items ∈ [Json.arr [plainItem 1, plainItem 2]], items.proper = true := by decide

theorem read_plainItems : [Json.arr [plainItem 1, plainItem 2]].mapM readFile = some [[plainSale 1, plainSale 2]] := by rfl

theorem plainSales_loadable : Loadable [plainSale 1, plainSale 2] := by
  obtain ⟨sales, hsales, hload, -⟩ := @parseAll_sales 0 0 0 _ _ plainItems_proper rfl
  obtain rfl := Option.some.inj (read_plainItems.symm.trans hsales)
  exact hload

theorem plainSales_exported : ∀ sale ∈ [plainSale 1, plainSale 2], sale.Exported := by
  have hdigits : IsDigits ['7'] := ⟨by decide, List.forall_mem_singleton.mpr (by decide)⟩
  have hplain : ∀ n, (plainSale n).Exported := by
    refine fun n => ⟨⟨n, rfl⟩, fun call hcall => ?_⟩
    rcases List.mem_pair.mp hcall with rfl | rfl <;>
      exact ⟨Or.inr (Or.inl ⟨_, rfl, hdigits⟩), Or.inl rfl, Or.inl rfl⟩
  intro sale hsale
  rcases List.mem_pair.mp hsale with rfl | rfl
  · exact hplain 1
  · exact hplain 2

theorem program_database_plain : ∃ written after,
    program (fun _ => []) (fun _ => []) [.arr [plainItem 1, plainItem 2]] = .ok (written, after) ∧
      load written = some (databaseOf (fun _ => []) (fun _ => []) 0 0 0 [plainSale 1, plainSale 2]) ∧
      (databaseOf (fun _ => []) (fun _ => []) 0 0 0 [plainSale 1, plainSale 2]).Keyed ∧
      (databaseOf (fun _ => []) (fun _ => []) 0 0 0 [plainSale 1, plainSale 2]).bids.map BidRow.itemId ⊆
        (databaseOf (fun _ => []) (fun _ => []) 0 0 0 [plainSale 1, plainSale 2]).items.map ItemRow.itemId :=
  program_database _ _ (fun _ _ _ hc => by cases hc) _ plainItems_proper [[plainSale 1, plainSale 2]] read_plainItems
    plainSales_loadable plainSales_exported

end Cs564.Auction
