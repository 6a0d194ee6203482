import Cs564.Auction.Parser
import Cs564.Lib.Logging

/-!
# The parser that reports missing values

`Parser` of `debug_parser.py` fills the tables as that of `parser.py` does, and notes each value that it finds missing: in
`nullmap` for the file, and in `gnullmap` for all files.  What it does about a missing value is a parameter of the parser
here, and the reports of `debug_parser.py` are one choice of it (`NullLog.note`).
-/

namespace Cs564.Auction

/-- The reports of `debug_parser.Parser`; the entries of `nullmap` stand for their texts. -/
structure NullLog where
  logged : Bool
  nullmap : List (String × List Json)
  gnullmap : List (String × List (List Char))
  f : List Char
  fn : List Char

namespace NullLog

/-- `Parser.__init__`. -/
def fresh : NullLog := { logged := false, nullmap := [], gnullmap := [], f := [], fn := [] }

/-- `Parser._log_if_none`, for a value that is `None`. -/
def note (key : String) (mark : Json) (log : NullLog) : NullLog :=
  let log :=
    if (log.gnullmap.lookup key).isNone then { log with gnullmap := log.gnullmap ++ [(key, [log.fn])], logged := true }
    else if !log.logged then { log with gnullmap := addTo log.gnullmap key log.fn, logged := true }
    else log
  { log with nullmap := addTo log.nullmap key mark }

end NullLog

namespace Debug

section Parse

variable {σ : Type} (log : String → Json → σ → σ)

/-- `Parser._log_if_none`, with `log` for what it does if the value is `None`. -/
def logIfNone (key : String) (value mark : Json) : EStateM PyError σ Json := do
  if value.isNull then modify (log key mark)
  return value

/-- `Parser._get`. -/
def get (d : Json) (k : String) (mark : Json) (key : String := k) : EStateM PyError σ Json := do
  logIfNone log key (← MonadExcept.ofExcept (d.get k)) mark

/-- `Parser._parse_category`. -/
def parseCategory (parser : Parser) (item itemId : Json) : EStateM PyError σ Parser := do
  let categories ← get log item "Category" itemId
  if categories.isNull then return parser
  (← MonadExcept.ofExcept categories.elements).foldlM
    (fun parser category => MonadExcept.ofExcept (parser.addCategory itemId category)) parser

/-- The body of the loop of `_parse_bid`. -/
def addBid (itemId : Json) (parser : Parser) (e : Json) : EStateM PyError σ Parser := do
  let bid ← get log e "Bid" itemId
  let bdr ← get log bid "Bidder" itemId
  let userId ← get log bdr "UserID" itemId "BidderID"
  let rating ← get log bdr "Rating" itemId "BidderRating"
  let location ← get log bdr "Location" itemId "BidderLocation"
  let country ← get log bdr "Country" itemId "BidderCountry"
  let u ← MonadExcept.ofExcept (parser.u.smartAdd userId rating location country)
  let time ← MonadExcept.ofExcept (transformDttm (← get log bid "Time" itemId "BidTime"))
  let amount ← MonadExcept.ofExcept (transformDollar (← get log bid "Amount" itemId "BidAmount"))
  let added ← MonadExcept.ofExcept (parser.b.add userId itemId time amount)
  return { parser with u, b := added.1 }

/-- `Parser._parse_bid`. -/
def parseBid (parser : Parser) (item itemId : Json) : EStateM PyError σ Parser := do
  let bids ← get log item "Bids" itemId
  if bids.isNull then return parser
  (← MonadExcept.ofExcept bids.elements).foldlM (addBid log itemId) parser

/-- `Parser._parse_item`. -/
def parseItem (parser : Parser) (item itemId : Json) : EStateM PyError σ Parser := do
  let seller ← get log item "Seller" itemId
  let userId ← get log seller "UserID" itemId "SellerID"
  let rating ← get log seller "Rating" itemId "SellerRating"
  let location ← get log item "Location" itemId
  let country ← get log item "Country" itemId
  let u ← MonadExcept.ofExcept (parser.u.smartAdd userId rating location country)
  let name ← get log item "Name" itemId
  let currently ← MonadExcept.ofExcept (transformDollar (← get log item "Currently" itemId))
  let buyPrice ← MonadExcept.ofExcept (transformDollar (← get log item "Buy_Price" itemId))
  let firstBid ← MonadExcept.ofExcept (transformDollar (← get log item "First_Bid" itemId))
  let numBids ← get log item "Num_Bids" itemId
  let started ← MonadExcept.ofExcept (transformDttm (← get log item "Started" itemId))
  let ends ← MonadExcept.ofExcept (transformDttm (← get log item "Ends" itemId))
  let desc ← get log item "Description" itemId
  let i ← MonadExcept.ofExcept
    (parser.i.add itemId userId name currently buyPrice firstBid numBids started ends desc)
  return { parser with u, i }

/-- The body of the loop of `parse`. -/
def addItem (parser : Parser) (item : Json) : EStateM PyError σ Parser := do
  let itemId ← get log item "ItemID" (.str "at start".toList)
  if itemId.isNull then throw .assertion
  let parser ← parseCategory log parser item itemId
  let parser ← parseBid log parser item itemId
  parseItem log parser item itemId

/-- `Parser.parse`. -/
def parse (parser : Parser) (items : Json) : EStateM PyError σ Parser := do
  if items.isNull then throw .assertion
  (← MonadExcept.ofExcept items.elements).foldlM (addItem log) parser

end Parse

/-! ### The files of a run -/

/-- `os.path.basename`. -/
def basename (file : List Char) : List Char := (file.reverse.takeWhile (· ≠ '/')).reverse

/-- The name of a file in the reports. -/
def fileName (file : List Char) : List Char := (basename file).takeWhile (· ≠ '.')

/-- `debug_parser.Parser`. -/
structure DebugParser where
  tables : Parser
  log : NullLog

/-- `Parser.__init__`, the class counters being as they are. -/
def fresh (categories bids categorizations : Nat) : DebugParser :=
  { tables := .fresh categories bids categorizations, log := .fresh }

/-- `Parser.set_file`. -/
def setFile (parser : DebugParser) (file : List Char) : DebugParser :=
  { parser with log := { parser.log with f := basename file, fn := fileName file, logged := false } }

/-- `set_file` and `parse` for each file of a run, which an exception ends. -/
def parseFiles (parser : DebugParser) : List (List Char × Json) → DebugParser × Option PyError
  | [] => (parser, none)
  | (file, items) :: files =>
    match parse NullLog.note parser.tables items (setFile parser file).log with
    | .ok tables log => parseFiles { tables, log } files
    | .error e log => ({ tables := parser.tables, log }, some e)

end Debug

end Cs564.Auction
