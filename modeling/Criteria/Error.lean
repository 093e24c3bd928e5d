/-
# Criteria.Error -- why a rule, a record or a document is refused

Each constructor is a cause; the wording of all of them is in `Error.message?`.
A text that is refused for its JSON form alone has no wording of its own
(`Error.unreadable`), so `message?` answers `none` for it and for nothing else
(`message?_eq_none_iff`).
-/

namespace Criteria

set_option autoImplicit false

/-- The greatest number of nodes on a path from the root of a rule to a leaf. -/
def maxHeight : Nat := 256

/-- What is wrong with the order of clauses, connectives and parentheses. -/
inductive StructureFault where
  | missingOperand
  | unmatchedClosing
  | tooDeep
  | surplusOperands
  | noExpression
deriving DecidableEq, Repr

/-- What is wrong with a node document whose members all have the right type. -/
inductive NodeFault where
  /-- A clause node without a clause, or with children. -/
  | operandShape
  /-- A connective node that lacks a child, or has a clause. -/
  | connectiveShape
  /-- The node would stand on more than `maxHeight` levels. -/
  | tooTall
deriving DecidableEq, Repr

inductive Error where
  | malformedClause (clause : String)
  | unknownOperator (symbol : String)
  | missingAttribute (name : String)
  /-- The rule text has no reading; `operands` subtrees were at hand when that showed. -/
  | badStructure (fault : StructureFault) (operands : Nat)
  | nestingTooDeep
  | nothingToCombine
  | unknownConnective (text : String)
  | invalidAttribute (name : String)
  /-- The text is not JSON, or not JSON of the wanted form. -/
  | unreadable
  | recordNotObject
  | payloadNotObject
  | payloadWithoutRule
  | inconsistentNode (fault : NodeFault)
deriving DecidableEq, Repr

def StructureFault.reason : StructureFault → String
  | .missingOperand => "connective is missing an operand"
  | .unmatchedClosing => "closing parenthesis without a pending connective"
  | .tooDeep => "rule nests too deeply"
  | .surplusOperands => "too many operands"
  | .noExpression => "no expression found"

/-- The sentence for a rule that has too many levels. -/
def tooDeepText : String :=
  "Rule nests deeper than " ++ toString maxHeight ++ " levels"

def NodeFault.reason : NodeFault → String
  | .operandShape => "Serialization error: OPERAND node needs a clause and no children"
  | .connectiveShape => "Serialization error: AND/OR node needs left and right and no clause"
  | .tooTall => tooDeepText

namespace Error

/-- The text shown to a user. -/
def message? : Error → Option String
  | malformedClause clause => some ("Malformed clause: " ++ clause)
  | unknownOperator symbol => some ("Unknown operator: " ++ symbol)
  | missingAttribute name => some ("Missing attribute: " ++ name)
  | badStructure fault operands =>
      some ("Invalid rule structure: " ++ fault.reason ++
        " (" ++ toString operands ++ " operands on stack)")
  | nestingTooDeep => some tooDeepText
  | nothingToCombine => some "Cannot combine an empty list of rules"
  | unknownConnective text => some ("Unknown connective: " ++ text)
  | invalidAttribute name =>
      some ("Invalid attribute value for " ++ name ++ ": expected integer or string")
  | unreadable => none
  | recordNotObject => some "Serialization error: attributes must be a JSON object"
  | payloadNotObject => some "Serialization error: evaluation payload must be a JSON object"
  | payloadWithoutRule => some "Serialization error: payload has no \"rule\" string"
  | inconsistentNode fault => some ("Serialization error: " ++ fault.reason)

theorem message?_eq_none_iff {error : Error} : error.message? = none ↔ error = unreadable := by
  cases error <;> simp [message?]

end Error

end Criteria
