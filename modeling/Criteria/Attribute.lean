/-
# Criteria.Attribute -- what is known about the subject of a rule

A record gives names their values, integers or texts. Every value has both
views: a text counts as 0 where an integer is compared, an integer as the empty
text where texts are. Records are kept in the order of their names, which is
the order of code points.
-/
import Std.Data.ExtTreeMap

namespace Criteria

set_option autoImplicit false

inductive Attribute where
  | integer (value : Int32)
  | text (value : String)
deriving DecidableEq, Repr

namespace Attribute

def asInteger : Attribute → Int32
  | integer value => value
  | text _ => 0

def asText : Attribute → String
  | integer _ => ""
  | text value => value

end Attribute

/-- The attributes of one subject by name. -/
abbrev Record := Std.ExtTreeMap String Attribute

end Criteria
