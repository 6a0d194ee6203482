import Mathlib.Algebra.Order.Ring.Int
import Mathlib.Data.List.Basic
/-!
# The word locator's dictionary

`wl::Dictionary` of `wl.cpp`: the radix tree `Dictionary::Node` with `Next`, `Diff`, `Split`, `Insert` and `Search`,
the tokenizer `Parse`, and `New`, `Load` and `Locate`.  A string is the list of its characters, and the character
classes are those of the C locale.

The loops over a word keep the index `i` of the source; they run on fuel, and the functions that start them give them
one round for every character.  A pointer to a child is the child's index in `children`, and a loop that changes the
tree through `curr` returns the changed node.
-/

namespace Cs564.WordLocator

/-- `Dictionary::Node`; the root's prefix is empty. -/
structure Node where
  children : List Node
  counts : List Nat
  pfx : List Char
deriving Inhabited

/-- `Node::Node`. -/
def Node.new (pfx : List Char) : Node := { children := [], counts := [], pfx := pfx }

/-- The child that a pointer into `children` stands for. -/
def Node.child (curr : Node) (k : Nat) : Node := curr.children.getD k default

/-- `curr` after a change made through a pointer to its child. -/
def Node.setChild (curr : Node) (k : Nat) (next : Node) : Node :=
  { curr with children := curr.children.set k next }

/-- `curr->children.emplace_back(next)`. -/
def Node.addChild (curr next : Node) : Node := { curr with children := curr.children ++ [next] }

/-- `counts.emplace_back(count)`. -/
def Node.addCount (curr : Node) (count : Nat) : Node := { curr with counts := curr.counts ++ [count] }

/-- `Node::Diff`: the first index from 1 on at which the strings differ, -1 if there is none.  The source has it in an
`int`, so this is for strings one of which has at most 2^31 characters. -/
def diff (str1 str2 : List Char) : Option Nat :=
  (List.range' 1 (min str1.length str2.length - 1)).find? fun j => str1[j]? != str2[j]?

/-- `Node::Split`: the node keeps the first `iDiff` characters and loses its counts and children to a new child with
the rest.  As in `diff`, the index is not bounded here: words of less than 2^31 characters have indices that are `int`s. -/
def Node.split (node : Node) (iDiff : Nat) : Node :=
  let retain := node.pfx.take iDiff
  let suffix := node.pfx.drop iDiff
  { children := [{ children := node.children, counts := node.counts, pfx := suffix }], counts := [], pfx := retain }

/-- `Node::Next`: the first child whose prefix begins with `nextCh`. -/
def Node.next (curr : Node) (nextCh : Char) : Option Nat :=
  curr.children.findIdx? fun child => child.pfx.head? == some nextCh

/-- The loop of `Node::Search`: the node the word leads to, `none` where the source returns 0. -/
def searchFrom : Nat → Node → List Char → Nat → Option Node
  | 0, _, _, _ => none
  | fuel + 1, curr, word, i =>
    match word.drop i with
    | [] => some curr
    | front :: rest =>
      let sub := front :: rest
      match curr.next front with
      | none => none
      | some k =>
        let next := curr.child k
        let preSize := next.pfx.length
        let subSize := sub.length
        if preSize = subSize ∧ next.pfx = sub then
          searchFrom fuel next word (i + subSize + 1)
        else if preSize < subSize ∧ next.pfx = sub.take preSize then
          searchFrom fuel next word (i + (preSize - 1) + 1)
        else none

/-- `Node::Search`. -/
def Node.search (root : Node) (word : List Char) (occurrence : Nat) : Nat :=
  match searchFrom (word.length + 1) root word 0 with
  | none => 0
  | some curr =>
    if occurrence ≤ curr.counts.length then
      -- the subtraction is one of `uint32_t`
      curr.counts.getD ((occurrence + (2 ^ 32 - 1)) % 2 ^ 32) 0
    else 0

/-- The loop of `Node::Insert`. -/
def insertFrom : Nat → Node → List Char → Nat → Nat → Node
  | 0, curr, _, _, _ => curr
  | fuel + 1, curr, word, i, count =>
    match word.drop i with
    | [] => curr
    | front :: rest =>
      let sub := front :: rest
      match curr.next front with
      | none => curr.addChild ((Node.new sub).addCount count)
      | some k =>
        let next := curr.child k
        let subSize := sub.length
        let preSize := next.pfx.length
        match diff next.pfx sub with
        | none =>
          if preSize < subSize then
            curr.setChild k (insertFrom fuel next word (i + (preSize - 1) + 1) count)
          else if subSize < preSize then
            curr.setChild k ((next.split subSize).addCount count)
          else
            curr.setChild k (next.addCount count)
        -- the loop goes on in the node that was split, one character further in the word
        | some iDiff => curr.setChild k (insertFrom fuel (next.split iDiff) word (i + 1) count)

/-- `Node::Insert`. -/
def Node.insert (root : Node) (word : List Char) (count : Nat) : Node :=
  insertFrom (word.length + 1) root word 0 count

/-- `Parser::ToLower`. -/
def toLower (str : List Char) : List Char := str.map Char.toLower

/-- The test `isalnum(ch) || ch == '\''` of `Dictionary::Parse`; 39 is the code of the apostrophe. -/
def isWordChar (ch : Char) : Bool := ch.isAlphanum || ch == Char.ofNat 39

/-- `line.substr(pos, count)`. -/
def substr (line : List Char) (pos count : Nat) : List Char := (line.drop pos).take count

/-- `if (s_index != e_index)`: the word between the two indices goes to the vector. -/
def emitWord (line : List Char) (sIndex eIndex : Nat) (vec : List (List Char)) : List (List Char) :=
  if sIndex ≠ eIndex then vec ++ [toLower (substr line sIndex (eIndex - sIndex))] else vec

/-- The inner loop of `Dictionary::Parse`: the next valid character from `i` on. -/
def nextValid (line : List Char) (i : Nat) : Option Nat :=
  ((line.drop i).findIdx? isWordChar).map (i + ·)

/-- The outer loop of `Dictionary::Parse`, with the indices and the vector it ends with. -/
def parseFrom (line : List Char) : Nat → Nat → Nat → List (List Char) → Nat × Nat × List (List Char)
  | 0, sIndex, eIndex, vec => (sIndex, eIndex, vec)
  | fuel + 1, sIndex, eIndex, vec =>
    if sIndex < line.length then
      match (line)[eIndex]? with
      | none => (sIndex, eIndex, vec)
      | some ch =>
        if isWordChar ch then parseFrom line fuel sIndex (eIndex + 1) vec
        else
          match nextValid line (eIndex + 1) with
          | some i => parseFrom line fuel i i (emitWord line sIndex eIndex vec)
          | none => (eIndex, eIndex, emitWord line sIndex eIndex vec)
    else (sIndex, eIndex, vec)

/-- `Dictionary::Parse`. -/
def parse (line : List Char) (vec : List (List Char)) : List (List Char) :=
  let state := parseFrom line (line.length + 1) 0 0 vec
  emitWord line state.1 state.2.1 state.2.2

/-- The lines that `std::getline` reads from a file with this text; the last one need not end with a newline. -/
def lines : List Char → List (List Char)
  | [] => []
  | ch :: text =>
    if ch = '\n' then [] :: lines text
    else match lines text with
      | [] => [[ch]]
      | line :: rest => (ch :: line) :: rest

/-- `Dictionary`. -/
structure Dictionary where
  wordList : Node
  isLoadable : Bool

/-- `Dictionary::Dictionary`. -/
def Dictionary.fresh : Dictionary := { wordList := Node.new [], isLoadable := true }

/-- `Dictionary::New`. -/
def Dictionary.new (dictionary : Dictionary) : Dictionary :=
  { dictionary with wordList := Node.new [], isLoadable := true }

/-- `this->word_list->Insert(buffer[i], ++total_count)`, with the `uint32_t` counter beside the tree. -/
def insertNext (state : Node × Nat) (word : List Char) : Node × Nat :=
  let totalCount := (state.2 + 1) % 2 ^ 32
  (state.1.insert word totalCount, totalCount)

/-- `Dictionary::Load` of a file with the given text, `none` for a file that does not open. -/
def Dictionary.load (dictionary : Dictionary) (file : Option (List Char)) : Dictionary :=
  if dictionary.isLoadable then
    match file with
    | none => dictionary
    | some text =>
      let state := (lines text).foldl (fun state line => (parse line []).foldl insertNext state)
        (dictionary.wordList, 0)
      { wordList := state.1, isLoadable := false }
  else dictionary

/-- `Dictionary::Locate`. -/
def Dictionary.locate (dictionary : Dictionary) (word : List Char) (occurrence : Nat) : Nat :=
  dictionary.wordList.search word occurrence

end Cs564.WordLocator
