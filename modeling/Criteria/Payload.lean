/-
# Criteria.Payload -- a rule and a record in one JSON object

The member `rule` holds the rule text, every other member is an attribute. The
rule text is not read here, so a payload may well hold one that has no reading.
-/
import Criteria.Attribute.Json

namespace Criteria

set_option autoImplicit false

structure Payload where
  rule : String
  record : Record

namespace Payload

/-- The name of the member that holds the rule text. -/
def ruleField : String := "rule"

def ofMembers (members : Std.ExtTreeMap String Json.Value) : Except Error Payload :=
  match members[ruleField]? with
  | some (.string rule) => do
      let record ← Record.ofMembers (members.erase ruleField)
      return { rule, record }
  | _ => .error .payloadWithoutRule

def parse (text : String) : Except Error Payload :=
  match Json.Value.parse? text with
  | none => .error .unreadable
  | some (.object members) => ofMembers (Json.lastMembers members)
  | some _ => .error .payloadNotObject

end Payload

end Criteria
