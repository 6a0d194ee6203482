import Mathlib.Data.List.Infix

/-!
# Values of the auction loader

What `json.loads` returns, and the part of Python that `parser.py` and `data_models.py` use on it: equality, iteration,
`in`, `str.strip`, `int` and `float`.  A number is kept as its exact value, so `1`, `1.0` and `true` are one value, as
they are for `==`.
-/

namespace Cs564.Auction

/-- The exceptions the loader's own operations raise. -/
inductive PyError
  | assertion | attribute | index | overflow | type | value
deriving DecidableEq, Repr

/-- A value that `json.loads` returns.  Left out are `NaN` and the infinities, which it returns for the constants `NaN` and
`Infinity` and for numbers such as `1e999`, and strings with surrogates that have no partner. -/
inductive Json
  | null
  | num (q : Rat)
  | str (s : List Char)
  | arr (elements : List Json)
  | obj (fields : List (String × Json))

namespace Json

mutual

/-- Python's `==`; two objects are equal whatever the order of their fields. -/
def same : Json → Json → Bool
  | .null, .null => true
  | .num p, .num q => p == q
  | .str s, .str t => s == t
  | .arr xs, .arr ys => sameElements xs ys
  | .obj fs, .obj gs => fs.length == gs.length && sameFields fs gs
  | _, _ => false

def sameElements : List Json → List Json → Bool
  | [], [] => true
  | x :: xs, y :: ys => x.same y && sameElements xs ys
  | _, _ => false

def sameFields : List (String × Json) → List (String × Json) → Bool
  | [], _ => true
  | (k, x) :: fs, gs =>
    (match gs.lookup k with
      | some y => x.same y
      | none => false) && sameFields fs gs

end

/-- `value is None`. -/
def isNull : Json → Bool
  | .null => true
  | _ => false

/-- The values a `for` loop goes through. -/
def elements : Json → Except PyError (List Json)
  | .arr xs => .ok xs
  | .str s => .ok (s.map fun c => .str [c])
  | .obj fs => .ok (fs.map fun f => .str f.1.toList)
  | _ => .error .type

/-- `d[k] if k in d else None`. -/
def get (d : Json) (k : String) : Except PyError Json :=
  match d with
  | .obj fs => .ok ((fs.lookup k).getD .null)
  -- a string or a list can hold the key, but it cannot be indexed by it
  | .str s => if k.toList <:+: s then .error .type else .ok .null
  | .arr xs => if xs.any fun x => x.same (.str k.toList) then .error .type else .ok .null
  | _ => .error .type

end Json

/-- The zeros of the blocks of ten decimal digits, category `Nd` of Unicode 14. -/
def decimalZeros : List Nat :=
  [0x30, 0x660, 0x6f0, 0x7c0, 0x966, 0x9e6, 0xa66, 0xae6, 0xb66, 0xbe6, 0xc66, 0xce6, 0xd66, 0xde6, 0xe50, 0xed0, 0xf20,
    0x1040, 0x1090, 0x17e0, 0x1810, 0x1946, 0x19d0, 0x1a80, 0x1a90, 0x1b50, 0x1bb0, 0x1c40, 0x1c50, 0xa620, 0xa8d0,
    0xa900, 0xa9d0, 0xa9f0, 0xaa50, 0xabf0, 0xff10, 0x104a0, 0x10d30, 0x11066, 0x110f0, 0x11136, 0x111d0, 0x112f0,
    0x11450, 0x114d0, 0x11650, 0x116c0, 0x11730, 0x118e0, 0x11950, 0x11c50, 0x11d50, 0x11da0, 0x16a60, 0x16ac0, 0x16b50,
    0x1d7ce, 0x1d7d8, 0x1d7e2, 0x1d7ec, 0x1d7f6, 0x1e140, 0x1e2f0, 0x1e950, 0x1fbf0]

/-- The value of a decimal digit. -/
def digit (c : Char) : Option Nat :=
  (decimalZeros.find? fun n => n ≤ c.toNat ∧ c.toNat < n + 10).map fun n => c.toNat - n

/-- The characters that `str.strip` takes off. -/
def isSpace (c : Char) : Bool :=
  (9 ≤ c.toNat && c.toNat ≤ 13) || (0x1c ≤ c.toNat && c.toNat ≤ 0x20) || (0x2000 ≤ c.toNat && c.toNat ≤ 0x200a) ||
    [0x85, 0xa0, 0x1680, 0x2028, 0x2029, 0x202f, 0x205f, 0x3000].contains c.toNat

/-- `str.strip`. -/
def strip (s : List Char) : List Char :=
  (((s.dropWhile isSpace).reverse).dropWhile isSpace).reverse

/-- The characters that `int` and `float` take off: not the ASCII separators. -/
def isBlank (c : Char) : Bool := isSpace c && !(0x1c ≤ c.toNat && c.toNat ≤ 0x1f)

/-- A number without the blanks around it. -/
def stripBlanks (s : List Char) : List Char :=
  (((s.dropWhile isBlank).reverse).dropWhile isBlank).reverse

/-- The value of a run of digits, with single underscores between digits only. -/
def digits (s : List Char) : Option Nat := do
  let parts ← (s.splitOn '_').mapM fun part => if part = [] then none else part.mapM digit
  return parts.flatten.foldl (fun n d => 10 * n + d) 0

/-- The sign in front of a number, and what follows it. -/
def sign : List Char → Int × List Char
  | '+' :: s => (1, s)
  | '-' :: s => (-1, s)
  | s => (1, s)

/-- `int` of a string; a newer Python refuses more than 4300 digits. -/
def intOfStr (s : List Char) : Option Int :=
  (digits (sign (stripBlanks s)).2).map fun n => (sign (stripBlanks s)).1 * n

/-- `float` takes this string. -/
def isFloat (s : List Char) : Bool :=
  let body := (sign (stripBlanks s)).2.map Char.toLower
  let exponent := (body.dropWhile (· ≠ 'e')).drop 1
  [['i', 'n', 'f'], ['i', 'n', 'f', 'i', 'n', 'i', 't', 'y'], ['n', 'a', 'n']].contains body ||
    ((!body.contains 'e' || (digits (sign exponent).2).isSome) &&
      match (body.takeWhile (· ≠ 'e')).splitOn '.' with
      | [whole] => (digits whole).isSome
      | [whole, part] =>
        (whole ≠ [] || part ≠ []) && (whole = [] || (digits whole).isSome) && (part = [] || (digits part).isSome)
      | _ => false)

/-- `int`. -/
def toInt : Json → Except PyError Int
  | .num q => .ok (q.num.tdiv q.den)
  | .str s =>
    match intOfStr s with
    | some n => .ok n
    | none => .error .value
  | _ => .error .type

end Cs564.Auction
