import Cs564.Auction.DebugParser
import Cs564.Lib.Erasing

/-!
# The two parsers fill the same tables

The parser of `debug_parser.py` keeps reports beside the tables.  Whatever its reports are and whatever it does with them,
its tables and its exceptions are those of the parser of `parser.py`, over all files of a run (`parseFiles_plain`).
-/

namespace Cs564.Auction.Debug

section Parse

variable {σ : Type} {log : String → Json → σ → σ} {parser : Parser}

theorem erases_get (d : Json) (k : String) (mark : Json) (key : String) : Erases (get log d k mark key) (d.get k) := by
  have hpure : (d.get k >>= fun value => pure value) = d.get k := by cases d.get k <;> rfl
  rw [← hpure]
  refine (Erases.ofExcept _).bind fun value => ?_
  unfold logIfNone
  cases value.isNull with
  | true => exact (Erases.pure value).after_modify
  | false => exact Erases.pure value

theorem erases_parseCategory (item itemId : Json) :
    Erases (parseCategory log parser item itemId) (parser.parseCategory item itemId) := by
  refine (erases_get _ _ _ _).bind fun categories => ?_
  cases categories.isNull with
  | true => exact Erases.pure parser
  | false => exact (Erases.ofExcept _).bind fun l => Erases.foldlM (fun _ _ => Erases.ofExcept _) l parser

theorem erases_addBid (itemId e : Json) : Erases (addBid log itemId parser e) (parser.addBid itemId e) := by
  refine (erases_get _ _ _ _).bind fun bid => ?_
  refine (erases_get _ _ _ _).bind fun bdr => ?_
  refine (erases_get _ _ _ _).bind fun userId => ?_
  refine (erases_get _ _ _ _).bind fun rating => ?_
  refine (erases_get _ _ _ _).bind fun location => ?_
  refine (erases_get _ _ _ _).bind fun country => ?_
  refine (Erases.ofExcept _).bind fun u => ?_
  refine (erases_get _ _ _ _).bind fun rawTime => ?_
  refine (Erases.ofExcept _).bind fun time => ?_
  refine (erases_get _ _ _ _).bind fun rawAmount => ?_
  refine (Erases.ofExcept _).bind fun amount => ?_
  exact (Erases.ofExcept _).bind fun added => Erases.pure _

theorem erases_parseBid (item itemId : Json) : Erases (parseBid log parser item itemId) (parser.parseBid item itemId) := by
  refine (erases_get _ _ _ _).bind fun bids => ?_
  cases bids.isNull with
  | true => exact Erases.pure parser
  | false => exact (Erases.ofExcept _).bind fun l => Erases.foldlM (fun _ _ => erases_addBid _ _) l parser

theorem erases_parseItem (item itemId : Json) :
    Erases (parseItem log parser item itemId) (parser.parseItem item itemId) := by
  refine (erases_get _ _ _ _).bind fun seller => ?_
  refine (erases_get _ _ _ _).bind fun userId => ?_
  refine (erases_get _ _ _ _).bind fun rating => ?_
  refine (erases_get _ _ _ _).bind fun location => ?_
  refine (erases_get _ _ _ _).bind fun country => ?_
  refine (Erases.ofExcept _).bind fun u => ?_
  refine (erases_get _ _ _ _).bind fun name => ?_
  refine (erases_get _ _ _ _).bind fun rawCurrently => ?_
  refine (Erases.ofExcept _).bind fun currently => ?_
  refine (erases_get _ _ _ _).bind fun rawBuy => ?_
  refine (Erases.ofExcept _).bind fun buyPrice => ?_
  refine (erases_get _ _ _ _).bind fun rawFirst => ?_
  refine (Erases.ofExcept _).bind fun firstBid => ?_
  refine (erases_get _ _ _ _).bind fun numBids => ?_
  refine (erases_get _ _ _ _).bind fun rawStarted => ?_
  refine (Erases.ofExcept _).bind fun started => ?_
  refine (erases_get _ _ _ _).bind fun rawEnds => ?_
  refine (Erases.ofExcept _).bind fun ends => ?_
  refine (erases_get _ _ _ _).bind fun desc => ?_
  exact (Erases.ofExcept _).bind fun i => Erases.pure _

theorem erases_addItem (item : Json) : Erases (addItem log parser item) (parser.addItem item) := by
  refine (erases_get _ _ _ _).bind fun itemId => ?_
  have hparts := (@erases_parseCategory _ log parser item itemId).bind fun parser =>
    (@erases_parseBid _ log parser item itemId).bind fun parser => @erases_parseItem _ log parser item itemId
  cases itemId.isNull with
  | true => exact (Erases.throw _).bind fun _ => hparts
  | false => exact hparts

/-- `parse`, whatever is done about missing values. -/
theorem erases_parse (items : Json) : Erases (parse log parser items) (parser.parse items) := by
  have hloop := (@Erases.ofExcept _ σ _ items.elements).bind fun l =>
    Erases.foldlM (fun parser item => @erases_addItem _ log parser item) l parser
  unfold parse Parser.parse
  cases items.isNull with
  | true => exact (Erases.throw _).bind fun _ => hloop
  | false => exact hloop

end Parse

/-- The tables that a run leaves, or the exception that ends it. -/
def outcome (run : DebugParser × Option PyError) : Except PyError Parser :=
  match run.2 with
  | none => .ok run.1.tables
  | some e => .error e

/-- The two parsers fill the same tables and stop with the same exceptions, whatever the files are. -/
theorem parseFiles_plain (parser : DebugParser) (files : List (List Char × Json)) :
    outcome (parseFiles parser files) = parser.tables.parseAll (files.map (·.2)) := by
  induction files generalizing parser with
  | nil => rfl
  | cons entry files ih =>
    obtain ⟨file, items⟩ := entry
    have hfile := @erases_parse _ NullLog.note parser.tables items (setFile parser file).log
    rw [parseFiles, List.map_cons, Parser.parseAll, List.foldlM_cons]
    cases hrun : parse NullLog.note parser.tables items (setFile parser file).log with
    | ok tables log =>
      rw [hrun] at hfile
      rw [hfile]
      exact ih { tables, log }
    | error e log =>
      rw [hrun] at hfile
      rw [hfile]
      rfl

end Cs564.Auction.Debug
