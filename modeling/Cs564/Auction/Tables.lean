import Cs564.Auction.Values

/-!
# Tables of the auction loader

The five tables of `data_models.py`, each a list for every column.  The counters of `CategoryData`, `BidData` and
`CategorizationData` belong to their classes: a table carries the value its counter has when the next row comes.
-/

namespace Cs564.Auction

/-- The double quotation mark. -/
def quote : Char := Char.ofNat 34

/-- `safernull`. -/
def safernull : List Char := [quote, 'N', 'U', 'L', 'L', quote]

/-- `saferstr`. -/
def saferstr : Json → Except PyError (List Char)
  | .null => .ok safernull
  | .str s => .ok (quote :: s.flatMap (fun c => if c = quote then [quote, quote] else [c]) ++ [quote])
  | _ => .error .attribute

/-- What `saferfloat` returns: `safernull`, or the number that `float` makes of its argument. -/
inductive SaferFloat
  | null
  | ofStr (s : List Char)
  | ofNum (q : Rat)
deriving DecidableEq, Repr

/-- `saferfloat`. -/
def saferfloat : Json → Except PyError SaferFloat
  | .null => .ok .null
  | .str s => if isFloat s then .ok (.ofStr s) else .error .value
  -- from half a unit above the largest float on, the conversion overflows
  | .num q => if q.num.natAbs < (Nat.pow 2 1024 - Nat.pow 2 970) * q.den then .ok (.ofNum q) else .error .overflow
  | _ => .error .type

/-- `saferint`. -/
def saferint : Json → Except PyError Json
  | .null => .ok (.str safernull)
  | v => return .num (← toInt v)

/-- `for i in range(n)`, left at the first row that `p` accepts. -/
def firstRow (n : Nat) (p : Nat → Bool) : Option Nat := (List.range n).find? p

/-- `self.column[i]`. -/
def cell {α : Type} (column : List α) (i : Nat) : Except PyError α :=
  match column[i]? with
  | some v => .ok v
  | none => .error .index

/-- `CategoryData`. -/
structure CategoryData where
  counter : Nat
  uids : List Nat
  names : List (List Char)

/-- `CategoryData.__init__`. -/
def CategoryData.fresh (counter : Nat) : CategoryData := { counter, uids := [], names := [] }

/-- `CategoryData.add_if_absent`. -/
def CategoryData.addIfAbsent (t : CategoryData) (name : Json) : Except PyError (CategoryData × Nat) := do
  if name.isNull then throw .assertion
  let safername ← saferstr name
  match firstRow t.names.length fun i => t.names[i]? == some safername with
  | some i => return (t, ← cell t.uids i)
  | none =>
    return ({ counter := t.counter + 1, uids := t.uids ++ [t.counter], names := t.names ++ [safername] }, t.counter)

/-- `UserData`. -/
structure UserData where
  uids : List (List Char)
  ratings : List Json
  locations : List (List Char)
  countries : List (List Char)

/-- `UserData.__init__`. -/
def UserData.fresh : UserData := { uids := [], ratings := [], locations := [], countries := [] }

/-- A text cell of the user's row, filled if it holds `safernull`. -/
def fillText (column : List (List Char)) (i : Nat) (v : Json) : Except PyError (List (List Char)) := do
  if (← cell column i) = safernull ∧ v.isNull = false then return column.set i (← saferstr v)
  return column

/-- `UserData.smart_add`. -/
def UserData.smartAdd (t : UserData) (uid rating location country : Json) : Except PyError UserData := do
  if uid.isNull then throw .assertion
  let saferid ← saferstr uid
  match firstRow t.uids.length fun i => t.uids[i]? == some saferid with
  | some i =>
    let known ← cell t.ratings i
    -- the rating goes in as it is, without `saferint`
    let ratings := if known.same (.str safernull) && !rating.isNull then t.ratings.set i rating else t.ratings
    let locations ← fillText t.locations i location
    let countries ← fillText t.countries i country
    return { t with ratings, locations, countries }
  | none =>
    let saferrating ← saferint rating
    let saferlocation ← saferstr location
    let safercountry ← saferstr country
    return { uids := t.uids ++ [saferid], ratings := t.ratings ++ [saferrating],
             locations := t.locations ++ [saferlocation], countries := t.countries ++ [safercountry] }

/-- `BidData`. -/
structure BidData where
  counter : Nat
  uids : List Nat
  userIds : List (List Char)
  itemIds : List Json
  times : List (List Char)
  amounts : List (List Char)

/-- `BidData.__init__`. -/
def BidData.fresh (counter : Nat) : BidData :=
  { counter, uids := [], userIds := [], itemIds := [], times := [], amounts := [] }

/-- `BidData.add`. -/
def BidData.add (t : BidData) (userId itemId time amount : Json) : Except PyError (BidData × Nat) := do
  if userId.isNull then throw .assertion
  if itemId.isNull then throw .assertion
  let saferuser ← saferstr userId
  let safertime ← saferstr time
  let saferamount ← saferstr amount
  return ({ counter := t.counter + 1, uids := t.uids ++ [t.counter], userIds := t.userIds ++ [saferuser],
            itemIds := t.itemIds ++ [itemId], times := t.times ++ [safertime],
            amounts := t.amounts ++ [saferamount] }, t.counter)

/-- `CategorizationData`. -/
structure CategorizationData where
  counter : Nat
  uids : List Nat
  itemIds : List Json
  cateIds : List Nat

/-- `CategorizationData.__init__`. -/
def CategorizationData.fresh (counter : Nat) : CategorizationData := { counter, uids := [], itemIds := [], cateIds := [] }

/-- `CategorizationData.add_if_absent`. -/
def CategorizationData.addIfAbsent (t : CategorizationData) (itemId : Json) (cateId : Nat) :
    Except PyError (CategorizationData × Nat) := do
  if itemId.isNull then throw .assertion
  match firstRow t.itemIds.length fun i => (t.itemIds[i]?.any fun x => x.same itemId) && t.cateIds[i]? == some cateId with
  | some i => return (t, ← cell t.uids i)
  | none =>
    return ({ counter := t.counter + 1, uids := t.uids ++ [t.counter], itemIds := t.itemIds ++ [itemId],
              cateIds := t.cateIds ++ [cateId] }, t.counter)

/-- `ItemData`. -/
structure ItemData where
  uids : List Json
  sellerIds : List (List Char)
  names : List (List Char)
  currentlys : List SaferFloat
  buyPrices : List SaferFloat
  firstBids : List SaferFloat
  numBidss : List Json
  starteds : List (List Char)
  endss : List (List Char)
  descs : List (List Char)

/-- `ItemData.__init__`. -/
def ItemData.fresh : ItemData :=
  { uids := [], sellerIds := [], names := [], currentlys := [], buyPrices := [], firstBids := [], numBidss := [],
    starteds := [], endss := [], descs := [] }

/-- `ItemData.add`. -/
def ItemData.add (t : ItemData) (uid sellerId name currently buyPrice firstBid numBids started ends desc : Json) :
    Except PyError ItemData := do
  if uid.isNull then throw .assertion
  if t.uids.any fun x => x.same uid then throw .assertion
  if sellerId.isNull then throw .assertion
  let saferseller ← saferstr sellerId
  let safername ← saferstr name
  let safercurrently ← saferfloat currently
  let saferbuy ← saferfloat buyPrice
  let saferfirst ← saferfloat firstBid
  let safernum ← saferint numBids
  let saferstarted ← saferstr started
  let saferends ← saferstr ends
  let saferdesc ← saferstr desc
  return { uids := t.uids ++ [uid], sellerIds := t.sellerIds ++ [saferseller], names := t.names ++ [safername],
           currentlys := t.currentlys ++ [safercurrently], buyPrices := t.buyPrices ++ [saferbuy],
           firstBids := t.firstBids ++ [saferfirst], numBidss := t.numBidss ++ [safernum],
           starteds := t.starteds ++ [saferstarted], endss := t.endss ++ [saferends], descs := t.descs ++ [saferdesc] }

end Cs564.Auction
