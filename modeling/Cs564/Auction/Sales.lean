import Cs564.Auction.Export
import Cs564.Lib.Reading

/-!
# Items as sales

What an item of a file says, apart from the tables: `readSale` reads it with the getters of the parser and the encodings
that cannot be undone (`saferfloat`, `int` and the transformations of times and amounts), and `tablesOf` is the five
tables that a run of sales stands for.  The loader is compared with them in `Cs564.Auction.Loader`.
-/

namespace Cs564.Auction

/-! ### What `json.loads` returns -/

namespace Json

mutual

/-- No object has two fields of one name, as `json.loads` returns them. -/
def proper : Json → Bool
  | .arr xs => properElements xs
  | .obj fs => decide (fs.map (·.1)).Nodup && properFields fs
  | _ => true

def properElements : List Json → Bool
  | [] => true
  | x :: xs => x.proper && properElements xs

def properFields : List (String × Json) → Bool
  | [] => true
  | (_, x) :: fs => x.proper && properFields fs

end

theorem lookup_of_mem {fs : List (String × Json)} (h : (fs.map (·.1)).Nodup) {f : String × Json} (hf : f ∈ fs) :
    fs.lookup f.1 = some f.2 := by
  induction fs with
  | nil => cases hf
  | cons g fs ih =>
    rw [List.map_cons, List.nodup_cons] at h
    rcases List.mem_cons.mp hf with rfl | hf
    · rw [List.lookup_cons, beq_self_eq_true]
    · have hne : f.1 ≠ g.1 := fun heq => h.1 (heq ▸ List.mem_map_of_mem hf)
      rw [List.lookup_cons, beq_eq_false_iff_ne.mpr hne, ih h.2 hf]

mutual

/-- Python's `==` is reflexive on what `json.loads` returns. -/
theorem same_refl : ∀ v : Json, v.proper = true → v.same v = true
  | .null, _ => rfl
  | .num q, _ => by simp [same]
  | .str s, _ => by simp [same]
  | .arr xs, h => sameElements_refl xs h
  | .obj fs, h => by
    rw [proper, Bool.and_eq_true, decide_eq_true_eq] at h
    rw [same, beq_self_eq_true, Bool.true_and]
    exact sameFields_refl fs fs h.2 fun f hf => lookup_of_mem h.1 hf

theorem sameElements_refl : ∀ xs : List Json, properElements xs = true → sameElements xs xs = true
  | [], _ => rfl
  | x :: xs, h => by
    rw [properElements, Bool.and_eq_true] at h
    rw [sameElements, same_refl x h.1, sameElements_refl xs h.2]
    rfl

theorem sameFields_refl : ∀ fs gs : List (String × Json), properFields fs = true →
    (∀ f ∈ fs, gs.lookup f.1 = some f.2) → sameFields fs gs = true
  | [], _, _, _ => rfl
  | (k, x) :: fs, gs, h, hlookup => by
    rw [properFields, Bool.and_eq_true] at h
    have hk : gs.lookup k = some x := hlookup (k, x) List.mem_cons_self
    rw [sameFields, hk, sameFields_refl fs gs h.2 fun f hf => hlookup f (List.mem_cons_of_mem _ hf)]
    simp [same_refl x h.1]

end
theorem proper_of_mem : ∀ {xs : List Json} {x : Json}, properElements xs = true → x ∈ xs → x.proper = true
  | y :: xs, x, h, hx => by
    rw [properElements, Bool.and_eq_true] at h
    rcases List.mem_cons.mp hx with rfl | hx
    · exact h.1
    · exact proper_of_mem h.2 hx

theorem proper_of_lookup : ∀ {fs : List (String × Json)} {k : String} {x : Json}, properFields fs = true →
    fs.lookup k = some x → x.proper = true
  | (k', y) :: fs, k, x, h, hx => by
    rw [properFields, Bool.and_eq_true] at h
    rw [List.lookup_cons] at hx
    split at hx
    · exact Option.some.inj hx ▸ h.1
    · exact proper_of_lookup h.2 hx

/-- The parts of what `json.loads` returns could have been returned by it. -/
theorem proper_elements {v : Json} {xs : List Json} (h : v.proper = true) (hxs : v.elements = .ok xs) :
    ∀ x ∈ xs, x.proper = true := by
  intro x hx
  cases v with
  | null => cases hxs
  | num q => cases hxs
  | str s =>
    obtain rfl := Except.ok.inj hxs
    obtain ⟨c, -, rfl⟩ := List.mem_map.mp hx
    rfl
  | arr ys =>
    obtain rfl := Except.ok.inj hxs
    exact proper_of_mem h hx
  | obj fs =>
    obtain rfl := Except.ok.inj hxs
    obtain ⟨f, -, rfl⟩ := List.mem_map.mp hx
    rfl

theorem proper_get {d v : Json} {k : String} (h : d.proper = true) (hv : d.get k = .ok v) : v.proper = true := by
  unfold get at hv
  split at hv
  · next fs =>
    rw [proper, Bool.and_eq_true] at h
    obtain rfl := Except.ok.inj hv
    cases hlookup : fs.lookup k with
    | none => rfl
    | some x => exact proper_of_lookup h.2 hlookup
  · split at hv
    · cases hv
    · exact Except.ok.inj hv ▸ rfl
  · split at hv
    · cases hv
    · exact Except.ok.inj hv ▸ rfl
  · cases hv

end Json

/-! ### Sales -/

/-- A bid of an item. -/
structure Offer where
  bidder : Call
  time : List Char
  amount : Option (List Char)

/-- An item of a file. -/
structure Sale where
  itemId : Json
  categories : List (List Char)
  offers : List Offer
  seller : Call
  name : Option (List Char)
  currently : SaferFloat
  buyPrice : SaferFloat
  firstBid : SaferFloat
  numBids : Option Int
  started : List Char
  ends : List Char
  desc : Option (List Char)

/-! ### Reading an item -/

/-- A string. -/
def readStr : Json → Option (List Char)
  | .str s => some s
  | _ => none

/-- A string or `None`. -/
def readText : Json → Option (Option (List Char))
  | .null => some none
  | .str s => some (some s)
  | _ => none

/-- What `saferint` makes of a value: an integer, or nothing for `None`. -/
def readInt : Json → Option (Option Int)
  | .null => some none
  | v => (toInt v).toOption.map some

/-- `d[k] if k in d else None`. -/
def readField (d : Json) (k : String) : Option Json := (d.get k).toOption

/-- A user, with an id and a rating in one object and the rest in another. -/
def readUser (d place : Json) : Option Call := do
  let uid ← readStr (← readField d "UserID")
  return { uid, rating := ← readField d "Rating", location := ← readField place "Location",
           country := ← readField place "Country" }

def readTime (d : Json) (k : String) : Option (List Char) := do
  readStr (← (transformDttm (← readField d k)).toOption)

def readAmount (d : Json) (k : String) : Option Json := do
  (transformDollar (← readField d k)).toOption

/-- What a loop over a field goes through; nothing if the field is missing. -/
def readList (d : Json) (k : String) : Option (List Json) := do
  let v ← readField d k
  if v.isNull then return []
  v.elements.toOption

def readOffer (e : Json) : Option Offer := do
  let bid ← readField e "Bid"
  let bdr ← readField bid "Bidder"
  let bidder ← readUser bdr bdr
  return { bidder, time := ← readTime bid "Time", amount := ← readText (← readAmount bid "Amount") }

/-- The fields of an item beside its id, its categories and its bids. -/
def readListing (item itemId : Json) (categories : List (List Char)) (offers : List Offer) : Option Sale := do
  let seller ← readUser (← readField item "Seller") item
  return { itemId, categories, offers, seller, name := ← readText (← readField item "Name"),
           currently := ← (saferfloat (← readAmount item "Currently")).toOption,
           buyPrice := ← (saferfloat (← readAmount item "Buy_Price")).toOption,
           firstBid := ← (saferfloat (← readAmount item "First_Bid")).toOption,
           numBids := ← readInt (← readField item "Num_Bids"), started := ← readTime item "Started",
           ends := ← readTime item "Ends", desc := ← readText (← readField item "Description") }

def readSale (item : Json) : Option Sale := do
  let itemId ← readField item "ItemID"
  if itemId.isNull then none
  let categories ← (← readList item "Category").mapM readStr
  let offers ← (← readList item "Bids").mapM readOffer
  readListing item itemId categories offers

/-- The items of a file. -/
def readFile (items : Json) : Option (List Sale) := do
  if items.isNull then none
  (← items.elements.toOption).mapM readSale

/-! ### The tables of the sales -/

/-- The records of users that come with a sale, the seller's last. -/
def Sale.records (sale : Sale) : List Call := sale.offers.map Offer.bidder ++ [sale.seller]

/-- The names of categories in the order they come. -/
def names (sales : List Sale) : List (List Char) := sales.flatMap Sale.categories

/-- The records of users in the order they come. -/
def records (sales : List Sale) : List Call := sales.flatMap Sale.records

/-- The bids, each with its item. -/
def bidsOf (sales : List Sale) : List (Json × Offer) := sales.flatMap fun sale => sale.offers.map (Prod.mk sale.itemId)

/-- The id of a category: the counter's value when its name first came. -/
def categoryId (counter : Nat) (names : List (List Char)) (name : List Char) : Nat := counter + (firsts names).idxOf name

/-- The items with their categories, each category of an item once. -/
def pairsOf (counter : Nat) (all : List (List Char)) (sales : List Sale) : List (Json × Nat) :=
  sales.flatMap fun sale => (firsts sale.categories).map fun name => (sale.itemId, categoryId counter all name)

/-- A text in the tables. -/
def optText : Option (List Char) → List Char
  | none => safernull
  | some s => enclose quote s

/-- A number in the tables. -/
def optInt : Option Int → Json
  | none => .str safernull
  | some n => .num n

/-- The table of bids. -/
def offersTable (counter : Nat) (bids : List (Json × Offer)) : BidData where
  counter := counter + bids.length
  uids := (bids.zipIdx counter).map (·.2)
  userIds := (bids.zipIdx counter).map fun entry => enclose quote entry.1.2.bidder.uid
  itemIds := (bids.zipIdx counter).map (·.1.1)
  times := (bids.zipIdx counter).map fun entry => enclose quote entry.1.2.time
  amounts := (bids.zipIdx counter).map fun entry => optText entry.1.2.amount

/-- The table of the items' categories. -/
def pairsTable (counter : Nat) (pairs : List (Json × Nat)) : CategorizationData where
  counter := counter + pairs.length
  uids := (pairs.zipIdx counter).map (·.2)
  itemIds := (pairs.zipIdx counter).map (·.1.1)
  cateIds := (pairs.zipIdx counter).map (·.1.2)

/-- The table of items. -/
def itemsTable (sales : List Sale) : ItemData where
  uids := sales.map Sale.itemId
  sellerIds := sales.map fun sale => enclose quote sale.seller.uid
  names := sales.map fun sale => optText sale.name
  currentlys := sales.map Sale.currently
  buyPrices := sales.map Sale.buyPrice
  firstBids := sales.map Sale.firstBid
  numBidss := sales.map fun sale => optInt sale.numBids
  starteds := sales.map fun sale => enclose quote sale.started
  endss := sales.map fun sale => enclose quote sale.ends
  descs := sales.map fun sale => optText sale.desc

/-- The tables of the sales; the arguments are the class counters in the beginning. -/
def tablesOf (categories bids categorizations : Nat) (sales : List Sale) : Parser where
  c := categoriesTable categories (names sales)
  u := usersTable (records sales)
  b := offersTable bids (bidsOf sales)
  i := itemsTable sales
  ci := pairsTable categorizations (pairsOf categories (names sales) sales)

/-! ### Which sales can be stored -/

/-- A record can be stored after others: the first record of a user needs a rating that `int` takes and texts, and a later
one needs a text only where none is known yet. -/
structure Storable (before : List Call) (call : Call) : Prop where
  rating : call.uid ∉ users before → ∃ rating, saferint call.rating = .ok rating
  location : keptText (valuesOf Call.location before call.uid) = safernull → IsText call.location
  country : keptText (valuesOf Call.country before call.uid) = safernull → IsText call.country

/-- Sales with different ids, and records that can be stored one after the other. -/
structure Loadable (sales : List Sale) : Prop where
  ids : (sales.map Sale.itemId).Pairwise fun x y => ¬ x.same y = true
  users : ∀ before call after, records sales = before ++ call :: after → Storable before call

end Cs564.Auction
