import Cs564.Auction.Tables

/-!
# The parser of the auction loader

`Parser` of `parser.py`: it goes through lists of items and fills the five tables.  An exception ends the program, so a
parser is only left behind by calls that return.  The assertions of `_log_if_none` on its own arguments hold at every
call of `_get` and are left out.
-/

namespace Cs564.Auction

/-- `MONTHS`. -/
def MONTHS : List (List Char × List Char) :=
  [(['J', 'a', 'n'], ['0', '1']), (['F', 'e', 'b'], ['0', '2']), (['M', 'a', 'r'], ['0', '3']),
    (['A', 'p', 'r'], ['0', '4']), (['M', 'a', 'y'], ['0', '5']), (['J', 'u', 'n'], ['0', '6']),
    (['J', 'u', 'l'], ['0', '7']), (['A', 'u', 'g'], ['0', '8']), (['S', 'e', 'p'], ['0', '9']),
    (['O', 'c', 't'], ['1', '0']), (['N', 'o', 'v'], ['1', '1']), (['D', 'e', 'c'], ['1', '2'])]

/-- `transformMonth`. -/
def transformMonth (mon : List Char) : List Char := (MONTHS.lookup mon).getD mon

/-- `transformDttm`. -/
def transformDttm : Json → Except PyError Json
  | .str s => do
    let dttm := (strip s).splitOn ' '
    let dt := (← cell dttm 0).splitOn '-'
    let year ← cell dt 2
    let month ← cell dt 0
    let day ← cell dt 1
    let time ← cell dttm 1
    return .str (['2', '0'] ++ year ++ ['-'] ++ transformMonth month ++ ['-'] ++ day ++ [' '] ++ time)
  | _ => .error .attribute

/-- `transformDollar`. -/
def transformDollar : Json → Except PyError Json
  | .null => .ok .null
  | .num _ => .error .type
  | .str s => .ok (.str (s.filter fun c => (digit c).isSome || c == '.'))
  -- an empty list or object comes back as it is
  | .arr xs => if xs = [] then .ok (.arr xs) else .error .type
  | .obj fs => if fs = [] then .ok (.obj fs) else .error .type

/-- `Parser`. -/
structure Parser where
  c : CategoryData
  u : UserData
  b : BidData
  i : ItemData
  ci : CategorizationData

namespace Parser

/-- `Parser.__init__`, the class counters being as they are. -/
def fresh (categories bids categorizations : Nat) : Parser :=
  { c := .fresh categories, u := .fresh, b := .fresh bids, i := .fresh, ci := .fresh categorizations }

/-- The body of the loop of `_parse_category`. -/
def addCategory (parser : Parser) (itemId category : Json) : Except PyError Parser := do
  let added ← parser.c.addIfAbsent category
  let paired ← parser.ci.addIfAbsent itemId added.2
  return { parser with c := added.1, ci := paired.1 }

/-- `Parser._parse_category`. -/
def parseCategory (parser : Parser) (item itemId : Json) : Except PyError Parser := do
  let categories ← item.get "Category"
  if categories.isNull then return parser
  (← categories.elements).foldlM (fun parser category => parser.addCategory itemId category) parser

/-- The body of the loop of `_parse_bid`. -/
def addBid (parser : Parser) (itemId e : Json) : Except PyError Parser := do
  let bid ← e.get "Bid"
  let bdr ← bid.get "Bidder"
  let userId ← bdr.get "UserID"
  let rating ← bdr.get "Rating"
  let location ← bdr.get "Location"
  let country ← bdr.get "Country"
  let u ← parser.u.smartAdd userId rating location country
  let time ← transformDttm (← bid.get "Time")
  let amount ← transformDollar (← bid.get "Amount")
  let added ← parser.b.add userId itemId time amount
  return { parser with u, b := added.1 }

/-- `Parser._parse_bid`. -/
def parseBid (parser : Parser) (item itemId : Json) : Except PyError Parser := do
  let bids ← item.get "Bids"
  if bids.isNull then return parser
  (← bids.elements).foldlM (fun parser e => parser.addBid itemId e) parser

/-- `Parser._parse_item`. -/
def parseItem (parser : Parser) (item itemId : Json) : Except PyError Parser := do
  let seller ← item.get "Seller"
  let userId ← seller.get "UserID"
  let rating ← seller.get "Rating"
  let location ← item.get "Location"
  let country ← item.get "Country"
  let u ← parser.u.smartAdd userId rating location country
  let name ← item.get "Name"
  let currently ← transformDollar (← item.get "Currently")
  let buyPrice ← transformDollar (← item.get "Buy_Price")
  let firstBid ← transformDollar (← item.get "First_Bid")
  let numBids ← item.get "Num_Bids"
  let started ← transformDttm (← item.get "Started")
  let ends ← transformDttm (← item.get "Ends")
  let desc ← item.get "Description"
  let i ← parser.i.add itemId userId name currently buyPrice firstBid numBids started ends desc
  return { parser with u, i }

/-- The body of the loop of `parse`. -/
def addItem (parser : Parser) (item : Json) : Except PyError Parser := do
  let itemId ← item.get "ItemID"
  if itemId.isNull then throw .assertion
  let parser ← parser.parseCategory item itemId
  let parser ← parser.parseBid item itemId
  parser.parseItem item itemId

/-- `Parser.parse`. -/
def parse (parser : Parser) (items : Json) : Except PyError Parser := do
  if items.isNull then throw .assertion
  (← items.elements).foldlM addItem parser

/-- The calls of `parse` of a run of the program, one after the other. -/
def parseAll (parser : Parser) (files : List Json) : Except PyError Parser := files.foldlM parse parser

end Parser

end Cs564.Auction
