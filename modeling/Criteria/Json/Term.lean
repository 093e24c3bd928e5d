/-
# Criteria.Json.Term -- the structure of a JSON text

A term keeps everything of a text that can matter to a reader: members in the
order written and as often as written, numerals digit by digit, strings piece by
piece. Blanks and the choice between a character and its one-letter escape are
gone. `read?` reads the term at the front of a text, `parse?` a whole text.

Reading recurses on a bound on the number of calls. Every call for an item or a
member consumes a bracket or a comma and calls for one term at most, so twice
the length of the text, and two, is enough.
-/
import Criteria.Json.Numeral
import Criteria.Json.Quoted

namespace Criteria.Json

set_option autoImplicit false

inductive Term where
  | null
  | bool (value : Bool)
  | number (numeral : Numeral)
  | string (pieces : List Piece)
  | array (items : List Term)
  | object (members : List (List Piece × Term))
deriving Repr

/-- The four characters that may stand between the tokens of a JSON text. -/
def isSpace (c : Char) : Bool := c == ' ' || c == '\t' || c == '\n' || c == '\r'

def skipSpace (chars : List Char) : List Char := chars.dropWhile isSpace

namespace Term

mutual

/-- The number of arrays and objects around the innermost part. -/
def depth : Term → Nat
  | array items => depthOfItems items + 1
  | object members => depthOfMembers members + 1
  | _ => 0

def depthOfItems : List Term → Nat
  | [] => 0
  | item :: items => max item.depth (depthOfItems items)

def depthOfMembers : List (List Piece × Term) → Nat
  | [] => 0
  | (_, term) :: members => max term.depth (depthOfMembers members)

end

mutual

def readTerm? : Nat → List Char → Option (Term × List Char)
  | 0, _ => none
  | calls + 1, chars =>
      match skipSpace chars with
      | 'n' :: 'u' :: 'l' :: 'l' :: rest => some (null, rest)
      | 't' :: 'r' :: 'u' :: 'e' :: rest => some (bool true, rest)
      | 'f' :: 'a' :: 'l' :: 's' :: 'e' :: rest => some (bool false, rest)
      | '"' :: rest => do
          let (pieces, rest) ← Piece.read? rest
          some (string pieces, rest)
      | '[' :: rest =>
          match skipSpace rest with
          | ']' :: rest => some (array [], rest)
          | rest => do
              let (items, rest) ← readItems? calls rest
              some (array items, rest)
      | '\x7b' :: rest =>
          match skipSpace rest with
          | '\x7d' :: rest => some (object [], rest)
          | rest => do
              let (members, rest) ← readMembers? calls rest
              some (object members, rest)
      | rest => do
          let (numeral, rest) ← Numeral.read? rest
          some (number numeral, rest)

/-- One or more items up to the closing bracket. -/
def readItems? : Nat → List Char → Option (List Term × List Char)
  | 0, _ => none
  | calls + 1, chars => do
      let (item, rest) ← readTerm? calls chars
      match skipSpace rest with
      | ',' :: rest => do
          let (items, rest) ← readItems? calls rest
          some (item :: items, rest)
      | ']' :: rest => some ([item], rest)
      | _ => none

/-- One or more members up to the closing brace. -/
def readMembers? : Nat → List Char → Option (List (List Piece × Term) × List Char)
  | 0, _ => none
  | calls + 1, chars =>
      match skipSpace chars with
      | '"' :: rest => do
          let (name, rest) ← Piece.read? rest
          match skipSpace rest with
          | ':' :: rest => do
              let (term, rest) ← readTerm? calls rest
              match skipSpace rest with
              | ',' :: rest => do
                  let (members, rest) ← readMembers? calls rest
                  some ((name, term) :: members, rest)
              | '\x7d' :: rest => some ([(name, term)], rest)
              | _ => none
          | _ => none
      | _ => none

end

/-- The term at the front of a text, and what follows it. -/
def read? (chars : List Char) : Option (Term × List Char) :=
  readTerm? (2 * chars.length + 2) chars

/-- The term that a whole text is. -/
def parse? (text : String) : Option Term := do
  let (term, rest) ← read? text.toList
  if rest.all isSpace then some term else none

end Term

end Criteria.Json
