import Cs564.Lib.Regex
import Cs564.WordLocator.Session

/-!
# Reading a command

`Command::Parse` tries four regular expressions on the line, and `Command::Receive` makes a command of what they have
captured.  The expressions are matched without regard to letter case, in the C locale.
-/

namespace Cs564.WordLocator

open Regex

/-! ### The expressions -/

/-- `\s`. -/
def isSpace (ch : Char) : Bool := ch == ' ' || (9 ≤ ch.toNat && ch.toNat ≤ 13)

/-- `\S`. -/
def isNonSpace (ch : Char) : Bool := !isSpace ch

/-- `.`, which is any character but a line terminator. -/
def isAny (ch : Char) : Bool := ch != '\n' && ch != '\r'

/-- `"`, by its code. -/
def quote : Char := Char.ofNat 34

/-- `[1-9]`. -/
def isNonzeroDigit (ch : Char) : Bool := ch.isDigit && ch != '0'

/-- Letters, in any case. -/
def letters (keyword : List Char) : Regex Char :=
  keyword.foldr (fun c r => (Regex.char fun ch => ch.toLower == c).seq r) .empty

/-- `^\s*(keyword)` in front of the rest of an expression. -/
def opening (keyword : List Char) (r : Regex Char) : Regex Char :=
  Regex.start.seq ((star (.char isSpace)).seq ((group 1 (letters keyword)).seq r))

/-- `\s*$`. -/
def closing : Regex Char := (star (.char isSpace)).seq .stop

/-- `^\s*(new)\s*$`. -/
def reNew : Regex Char := opening ['n', 'e', 'w'] closing

/-- `^\s*(end)\s*$`. -/
def reEnd : Regex Char := opening ['e', 'n', 'd'] closing

/-- `"(.*)"`. -/
def quotedPath : Regex Char :=
  (Regex.char (· == quote)).seq ((group 3 (star (.char isAny))).seq (.char (· == quote)))

/-- `(\S+)`. -/
def plainPath : Regex Char := group 4 (plus (.char isNonSpace))

/-- `\s+("(.*)"|(\S+))\s*$`. -/
def loadArgument : Regex Char :=
  (plus (.char isSpace)).seq ((group 2 (quotedPath.alt plainPath)).seq closing)

/-- `^\s*(load)\s+("(.*)"|(\S+))\s*$`. -/
def reLoad : Regex Char := opening ['l', 'o', 'a', 'd'] loadArgument

/-- `\s+([1-9][0-9]*)\s*$`. -/
def locateNumber : Regex Char :=
  (plus (.char isSpace)).seq ((group 3 ((Regex.char isNonzeroDigit).seq (star (.char Char.isDigit)))).seq closing)

/-- `\s+([0-9a-zA-Z']+)+\s+([1-9][0-9]*)\s*$`. -/
def locateArguments : Regex Char :=
  (plus (.char isSpace)).seq ((plus (group 2 (plus (.char isWordChar)))).seq locateNumber)

/-- `^\s*(locate)\s+([0-9a-zA-Z']+)+\s+([1-9][0-9]*)\s*$`. -/
def reLocate : Regex Char := opening ['l', 'o', 'c', 'a', 't', 'e'] locateArguments

/-! ### Parse and Receive -/

/-- `command.c_str()` as the matcher sees it, up to the first NUL. -/
def cStr (command : List Char) : List Char := command.takeWhile fun ch => ch != Char.ofNat 0

/-- `Command::Parse`. -/
def Command.parse (command : List Char) (vec : List (List Char)) : List (List Char) :=
  if command.isEmpty then vec
  else
    match reNew.match? (cStr command) with
    | some str => vec ++ [toLower (str 1)]
    | none =>
      match reEnd.match? (cStr command) with
      | some str => vec ++ [toLower (str 1)]
      | none =>
        match reLoad.match? (cStr command) with
        | some str => vec ++ [toLower (str 1), if (str 3).isEmpty then str 4 else str 3]
        | none =>
          match reLocate.match? (cStr command) with
          | some str => vec ++ [toLower (str 1), toLower (str 2), str 3]
          | none => vec ++ [['I', 'N', 'V', 'A', 'L', 'I', 'D']]

/-- The number that a decimal numeral stands for. -/
def numeral (digits : List Char) : Nat := digits.foldl (fun n ch => 10 * n + (ch.toNat - '0'.toNat)) 0

/-- `ss >> occurrence` for a `uint16_t`: too large a number gives the greatest one. -/
def extract (text : List Char) : Nat := min (numeral (text.takeWhile Char.isDigit)) 65535

/-- `Command::Command`. -/
def Command.fresh : Command := { op := .EMPTY, arg1 := [], arg2 := 0 }

/-- `Command::Receive` of a line; the line stays empty where `std::getline` fails. -/
def Command.receive (command : Command) (files : Files) (line : List Char) : Command :=
  match Command.parse line [] with
  | [] => { command with op := .EMPTY }
  | [op] =>
    if op = ['n', 'e', 'w'] then { command with op := .NEW }
    else if op = ['e', 'n', 'd'] then { command with op := .END }
    else { command with op := .INVALID }
  | [_, path] =>
    if (files path).isSome then { command with op := .LOAD, arg1 := path } else { command with op := .INVALID }
  | [_, word, occurrence] => { command with op := .LOCATE, arg1 := word, arg2 := extract occurrence }
  | _ => { command with op := .INVALID }

end Cs564.WordLocator
