/-
# Criteria.Attribute.Json -- records as JSON objects

A record is read from an object whose members are texts and integers of 32
bits; nothing else is turned into either. There are two readings. `Record.ofValue`
starts from a value, where a name that occurs twice counts with its last
member, and names the first member in the order of names that is no attribute.
`Record.ofText` reads the text itself and refuses it if any member is no
attribute, also one that a later member of the same name replaces.
-/
import Criteria.Attribute
import Criteria.Decimal
import Criteria.Error
import Criteria.Json.Fields
import Criteria.Json.Value

namespace Criteria

set_option autoImplicit false

namespace Attribute

def ofValue? : Json.Value → Option Attribute
  | .string value => some (text value)
  | .integer value => (Decimal.word32? value).map integer
  | _ => none

/-- An attribute by how it is written, without a value in between. -/
def ofTerm? : Json.Term → Option Attribute
  | .string pieces => (Json.Piece.text? pieces).map text
  | .number numeral => (numeral.integer?.bind Decimal.word32?).map integer
  | _ => none

def toJson : Attribute → String
  | integer value => toString value.toInt
  | text value => Json.quote value

end Attribute

namespace Record

/-- The record that values by name make, or the first name in order whose value
is no attribute. -/
def ofMembers (members : Std.ExtTreeMap String Json.Value) : Except Error Record :=
  match members.toList.find? fun member => (Attribute.ofValue? member.2).isNone with
  | some member => .error (.invalidAttribute member.1)
  | none => .ok (members.filterMap fun _ value => Attribute.ofValue? value)

def ofValue : Json.Value → Except Error Record
  | .object members => ofMembers (Json.lastMembers members)
  | _ => .error .recordNotObject

/-- The members of an object, each read as an attribute. -/
def ofTerm? : Json.Term → Option Record
  | .object members => do
      let members ← Json.Fields.named? members
      let attributes ← members.mapM fun member =>
        (Attribute.ofTerm? member.2).map fun value => (member.1, value)
      some (Json.lastMembers attributes)
  | _ => none

def ofText (text : String) : Except Error Record :=
  match (Json.Term.parse? text).bind ofTerm? with
  | some record => .ok record
  | none => .error .unreadable

end Record

end Criteria
