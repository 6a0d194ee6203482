import Cs564.Auction.DebugParser

/-!
# What a file lacks

The keys under which a file has no value, read off its items: a key may be absent, or its value `null`.  They are listed
in the order of the items, and the keys of an item in the order in which they are asked for.  The parser finds missing
exactly these keys, or the first few of them if an exception ends it (`logs_parse`).
-/

namespace Cs564.Auction

namespace Json

/-- The value of a key of an object, `null` where there is none. -/
def field : Json → String → Json
  | .obj fs, k => (fs.lookup k).getD .null
  | _, _ => .null

/-- The elements of a list, none where the value is no list. -/
def listed (d : Json) : List Json :=
  match d.elements with
  | .ok l => l
  | .error _ => []

theorem get_eq_field {d : Json} {k : String} {value : Json} (h : d.get k = .ok value) : value = d.field k := by
  unfold get at h
  cases d with
  | obj fs => exact (Except.ok.inj h).symm
  | str s =>
    dsimp only at h
    split at h
    · cases h
    · exact (Except.ok.inj h).symm
  | arr xs =>
    dsimp only at h
    split at h
    · cases h
    · exact (Except.ok.inj h).symm
  | null => cases h
  | num q => cases h

theorem listed_of_elements {d : Json} {l : List Json} (h : d.elements = .ok l) : d.listed = l := by
  rw [listed, h]

theorem listed_of_isNull {d : Json} (h : d.isNull = true) : d.listed = [] := by
  cases d with
  | null => rfl
  | num q => cases h
  | str s => cases h
  | arr xs => cases h
  | obj fs => cases h

end Json

namespace Debug

/-- The keys, of some with their names in the reports, under which an object has no value. -/
def missingOf (d : Json) (keys : List (String × String)) : List String :=
  (keys.filter fun key => (d.field key.1).isNull).map (·.2)

/-- The keys missing in an element of `Bids`. -/
def bidMissing (e : Json) : List String :=
  let bid := e.field "Bid"
  missingOf e [("Bid", "Bid")] ++ missingOf bid [("Bidder", "Bidder")] ++
    missingOf (bid.field "Bidder") [("UserID", "BidderID"), ("Rating", "BidderRating"), ("Location", "BidderLocation"),
      ("Country", "BidderCountry")] ++
    missingOf bid [("Time", "BidTime"), ("Amount", "BidAmount")]

/-- The keys missing in an item. -/
def itemMissing (item : Json) : List String :=
  missingOf item [("ItemID", "ItemID"), ("Category", "Category"), ("Bids", "Bids")] ++
    (item.field "Bids").listed.flatMap bidMissing ++
    missingOf item [("Seller", "Seller")] ++
    missingOf (item.field "Seller") [("UserID", "SellerID"), ("Rating", "SellerRating")] ++
    missingOf item [("Location", "Location"), ("Country", "Country"), ("Name", "Name"), ("Currently", "Currently"),
      ("Buy_Price", "Buy_Price"), ("First_Bid", "First_Bid"), ("Num_Bids", "Num_Bids"), ("Started", "Started"),
      ("Ends", "Ends"), ("Description", "Description")]

/-- The keys missing in the items of a file. -/
def fileMissing (items : Json) : List String := items.listed.flatMap itemMissing

/-! ### What the parser finds missing -/

section Logging

variable {σ τ : Type} {log : String → Json → σ → σ} {view : σ → τ} {note : τ → String → τ} {tables : Parser}

theorem missingOf_nil (d : Json) : missingOf d [] = [] := rfl

theorem missingOf_cons (d : Json) (key : String × String) (keys : List (String × String)) :
    missingOf d (key :: keys) = (if (d.field key.1).isNull then [key.2] else []) ++ missingOf d keys := by
  unfold missingOf
  rw [List.filter_cons]
  split <;> rfl

variable (hlog : ∀ key mark s, view (log key mark s) = note (view s) key)
include hlog

theorem logs_get (d : Json) (k : String) (mark : Json) (key : String) :
    Logs view note (get log d k mark key) (if (d.field k).isNull then [key] else []) (· = d.field k) := by
  refine Logs.ofExcept_bind fun value hget => ?_
  obtain rfl := Json.get_eq_field hget
  unfold logIfNone
  cases (d.field k).isNull with
  | true => exact (Logs.event (hlog key mark)).bind fun _ _ => Logs.pure rfl
  | false => exact Logs.pure rfl

theorem logs_parseCategory (item itemId : Json) : Logs view note (parseCategory log tables item itemId)
    (if (item.field "Category").isNull then ["Category"] else []) fun _ => True := by
  refine (logs_get hlog item "Category" itemId "Category").bind_eq ?_ (List.append_nil _).symm
  rintro categories -
  cases categories.isNull with
  | true => exact Logs.pure trivial
  | false =>
    refine Logs.ofExcept_bind fun l _ => ?_
    have hloop : Logs view note (l.foldlM (fun parser category => MonadExcept.ofExcept
        (parser.addCategory itemId category)) tables) (l.flatMap fun _ => []) fun _ => True :=
      Logs.foldlM (fun _ _ => (Logs.ofExcept _).weaken) l tables
    rwa [List.flatMap_eq_nil_iff.mpr fun _ _ => rfl] at hloop

/-- An element of `Bids`: the keys in the order of `bidMissing`. -/
theorem logs_addBid (itemId e : Json) :
    Logs view note (addBid log itemId tables e) (bidMissing e) fun _ => True := by
  simp only [bidMissing, missingOf_cons, missingOf_nil, List.append_nil, List.append_assoc]
  refine (logs_get hlog e "Bid" itemId "Bid").bind ?_
  rintro bid rfl
  refine (logs_get hlog _ "Bidder" itemId "Bidder").bind ?_
  rintro bdr rfl
  refine (logs_get hlog _ "UserID" itemId "BidderID").bind fun userId _ => ?_
  refine (logs_get hlog _ "Rating" itemId "BidderRating").bind fun rating _ => ?_
  refine (logs_get hlog _ "Location" itemId "BidderLocation").bind fun location _ => ?_
  refine (logs_get hlog _ "Country" itemId "BidderCountry").bind fun country _ => ?_
  refine Logs.ofExcept_bind fun u _ => ?_
  refine (logs_get hlog _ "Time" itemId "BidTime").bind fun time _ => ?_
  refine Logs.ofExcept_bind fun time _ => ?_
  refine (logs_get hlog _ "Amount" itemId "BidAmount").bind_eq (fun amount _ => ?_) (List.append_nil _).symm
  refine Logs.ofExcept_bind fun amount _ => ?_
  exact Logs.ofExcept_bind fun added _ => Logs.pure trivial

theorem logs_parseBid (item itemId : Json) : Logs view note (parseBid log tables item itemId)
    ((if (item.field "Bids").isNull then ["Bids"] else []) ++ (item.field "Bids").listed.flatMap bidMissing)
    fun _ => True := by
  refine (logs_get hlog item "Bids" itemId "Bids").bind ?_
  rintro bids rfl
  cases hbids : (item.field "Bids").isNull with
  | true =>
    rw [Json.listed_of_isNull hbids]
    exact Logs.pure trivial
  | false =>
    refine Logs.ofExcept_bind fun l hl => ?_
    rw [Json.listed_of_elements hl]
    exact Logs.foldlM (fun _ e => logs_addBid hlog itemId e) l tables

/-- The keys that `itemMissing` lists behind the bids. -/
theorem logs_parseItem (item itemId : Json) : Logs view note (parseItem log tables item itemId)
    (missingOf item [("Seller", "Seller")] ++
      missingOf (item.field "Seller") [("UserID", "SellerID"), ("Rating", "SellerRating")] ++
      missingOf item [("Location", "Location"), ("Country", "Country"), ("Name", "Name"), ("Currently", "Currently"),
        ("Buy_Price", "Buy_Price"), ("First_Bid", "First_Bid"), ("Num_Bids", "Num_Bids"), ("Started", "Started"),
        ("Ends", "Ends"), ("Description", "Description")]) fun _ => True := by
  simp only [missingOf_cons, missingOf_nil, List.append_nil, List.append_assoc]
  refine (logs_get hlog item "Seller" itemId "Seller").bind ?_
  rintro seller rfl
  refine (logs_get hlog _ "UserID" itemId "SellerID").bind fun userId _ => ?_
  refine (logs_get hlog _ "Rating" itemId "SellerRating").bind fun rating _ => ?_
  refine (logs_get hlog _ "Location" itemId "Location").bind fun location _ => ?_
  refine (logs_get hlog _ "Country" itemId "Country").bind fun country _ => ?_
  refine Logs.ofExcept_bind fun u _ => ?_
  refine (logs_get hlog _ "Name" itemId "Name").bind fun name _ => ?_
  refine (logs_get hlog _ "Currently" itemId "Currently").bind fun currently _ => ?_
  refine Logs.ofExcept_bind fun currently _ => ?_
  refine (logs_get hlog _ "Buy_Price" itemId "Buy_Price").bind fun buyPrice _ => ?_
  refine Logs.ofExcept_bind fun buyPrice _ => ?_
  refine (logs_get hlog _ "First_Bid" itemId "First_Bid").bind fun firstBid _ => ?_
  refine Logs.ofExcept_bind fun firstBid _ => ?_
  refine (logs_get hlog _ "Num_Bids" itemId "Num_Bids").bind fun numBids _ => ?_
  refine (logs_get hlog _ "Started" itemId "Started").bind fun started _ => ?_
  refine Logs.ofExcept_bind fun started _ => ?_
  refine (logs_get hlog _ "Ends" itemId "Ends").bind fun ends _ => ?_
  refine Logs.ofExcept_bind fun ends _ => ?_
  refine (logs_get hlog _ "Description" itemId "Description").bind_eq (fun desc _ => ?_) (List.append_nil _).symm
  exact Logs.ofExcept_bind fun i _ => Logs.pure trivial

theorem logs_addItem (item : Json) : Logs view note (addItem log tables item) (itemMissing item) fun _ => True := by
  have hmissing : itemMissing item = (if (item.field "ItemID").isNull then ["ItemID"] else []) ++
      ((if (item.field "Category").isNull then ["Category"] else []) ++
        (((if (item.field "Bids").isNull then ["Bids"] else []) ++ (item.field "Bids").listed.flatMap bidMissing) ++
          (missingOf item [("Seller", "Seller")] ++
            missingOf (item.field "Seller") [("UserID", "SellerID"), ("Rating", "SellerRating")] ++
            missingOf item [("Location", "Location"), ("Country", "Country"), ("Name", "Name"),
              ("Currently", "Currently"), ("Buy_Price", "Buy_Price"), ("First_Bid", "First_Bid"),
              ("Num_Bids", "Num_Bids"), ("Started", "Started"), ("Ends", "Ends"), ("Description", "Description")]))) := by
    rw [itemMissing, missingOf_cons item ("ItemID", "ItemID"), missingOf_cons item ("Category", "Category"),
      missingOf_cons item ("Bids", "Bids"), missingOf_nil]
    simp only [List.append_assoc, List.nil_append]
  rw [hmissing]
  refine (logs_get hlog item "ItemID" _ "ItemID").bind fun itemId _ => ?_
  cases itemId.isNull with
  | true => exact Logs.throw _
  | false =>
    refine (logs_parseCategory hlog item itemId).bind fun tables _ => ?_
    refine (logs_parseBid hlog item itemId).bind fun tables _ => ?_
    exact logs_parseItem hlog item itemId

/-- The parser finds missing what the file lacks, or the first few of it if it throws. -/
theorem logs_parse (items : Json) : Logs view note (parse log tables items) (fileMissing items) fun _ => True := by
  have hloop : Logs view note (MonadExcept.ofExcept items.elements >>= fun l => l.foldlM (addItem log) tables)
      (fileMissing items) fun _ => True := by
    refine Logs.ofExcept_bind fun l hl => ?_
    rw [fileMissing, Json.listed_of_elements hl]
    exact Logs.foldlM (fun _ item => logs_addItem hlog item) l tables
  unfold parse
  cases items.isNull with
  | true => exact Logs.throw _
  | false => exact hloop

end Logging

end Debug

end Cs564.Auction
