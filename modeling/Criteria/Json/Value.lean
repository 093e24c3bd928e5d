/-
# Criteria.Json.Value -- what a JSON text says

A value is a term whose strings are texts and whose numbers are finite.
Integers are kept, of any other number only that it is one. A text is accepted
as a value if it nests at most `maxDepth` arrays and objects. The members of an
object stay in the order written; where a name counts only once, its last
member does (`lastMembers`).
-/
import Criteria.Json.Term
import Std.Data.ExtTreeMap

namespace Criteria.Json

set_option autoImplicit false

inductive Value where
  | null
  | bool (value : Bool)
  | integer (value : Int)
  /-- A number that is not written as an integer of 64 bits. -/
  | inexact
  | string (value : String)
  | array (items : List Value)
  | object (members : List (String × Value))
deriving Inhabited, Repr

/-- How many arrays and objects a value may nest. -/
def maxDepth : Nat := 127

namespace Value

def ofNumeral? (numeral : Numeral) : Option Value :=
  match numeral.integer? with
  | some n => some (integer n)
  | none => if numeral.overflows then none else some inexact

mutual

def ofTerm? : Term → Option Value
  | .null => some null
  | .bool value => some (bool value)
  | .number numeral => ofNumeral? numeral
  | .string pieces => (Piece.text? pieces).map string
  | .array items => (ofItems? items).map array
  | .object members => (ofMembers? members).map object

def ofItems? : List Term → Option (List Value)
  | [] => some []
  | item :: items => do some ((← ofTerm? item) :: (← ofItems? items))

def ofMembers? : List (List Piece × Term) → Option (List (String × Value))
  | [] => some []
  | (name, term) :: members => do
      some ((← Piece.text? name, ← ofTerm? term) :: (← ofMembers? members))

end

/-- The value of a whole text. -/
def parse? (text : String) : Option Value := do
  let term ← Term.parse? text
  if term.depth ≤ maxDepth then ofTerm? term else none

end Value

/-- The members of an object by name, the last one of each name. -/
def lastMembers {α : Type} (members : List (String × α)) : Std.ExtTreeMap String α :=
  members.foldl (fun map member => map.insert member.1 member.2) ∅

end Criteria.Json
