/-
# Criteria.Json.Fields -- members that a reader knows

A fixed list of fields may be written as an object, where each known name may
occur once and unknown ones any number of times, or as an array, which gives the
fields in their order and may stop early. Either way the answer lists what was
given for each field, `none` where nothing was.
-/
import Criteria.Json.Term

namespace Criteria.Json.Fields

set_option autoImplicit false

variable {α : Type}

/-- The members with their names as texts; every name has to be one. -/
def named? (members : List (List Piece × α)) : Option (List (String × α)) :=
  members.mapM fun member => (Piece.text? member.1).map fun name => (name, member.2)

/-- What an object gives for one field. -/
def unique? (members : List (String × α)) (name : String) : Option (Option α) :=
  match members.filter fun member => member.1 == name with
  | [] => some none
  | [member] => some (some member.2)
  | _ => none

def ofObject? (fields : List String) (members : List (List Piece × α)) :
    Option (List (Option α)) := do
  let members ← named? members
  fields.mapM (unique? members)

def ofArray? (fields : List String) (items : List α) : Option (List (Option α)) :=
  if items.length ≤ fields.length then
    some (items.map some ++ List.replicate (fields.length - items.length) none)
  else none

end Criteria.Json.Fields

namespace Criteria.Json.Term

/-- A word written as a string, or as an object whose one member has that name
and the value null. -/
def keyword? : Term → Option String
  | string pieces => Piece.text? pieces
  | object [(name, null)] => Piece.text? name
  | _ => none

/-- An integer from zero up to, and not including, `bound`. -/
def natBelow? (bound : Nat) : Term → Option Nat
  | number numeral =>
      match numeral.integer? with
      | some (.ofNat n) => if n < bound then some n else none
      | _ => none
  | _ => none

end Criteria.Json.Term
