/-
# Criteria.Rule.Evaluation -- the truth of a rule

The left side is evaluated first. If its value settles the connective, the
right side is not looked at and cannot fail.
-/
import Criteria.Clause
import Criteria.Rule.Basic

namespace Criteria.Rule

set_option autoImplicit false

def evaluate (record : Record) : Rule → Except Error Bool
  | leaf _ clause => Clause.holds record clause
  | node _ _ connective left right =>
      match left.evaluate record with
      | .error error => .error error
      | .ok value => if value = connective.absorbing then .ok value else right.evaluate record

end Criteria.Rule
