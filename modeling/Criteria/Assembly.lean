/-
# Criteria.Assembly -- a rule text put together token by token

Reading goes once from left to right over two stacks: rules that are finished,
and connectives that could not be applied when they were met. Words collect
into a clause until a connective or a closing parenthesis ends it. Opening
parentheses do nothing: grouping shows only through the number of operands at
the next closing parenthesis or connective.

`Rule.parse` runs the tokens of a text through `Assembly.take`, applies what is
still deferred, the newest first, and tags the one rule that must remain.
-/
import Criteria.Rule.Basic
import Criteria.Token

namespace Criteria

set_option autoImplicit false

/-- The state between two tokens. -/
structure Assembly where
  /-- Finished rules, the newest first. -/
  operands : List Rule
  /-- Connectives that wait for an operand, the newest first. -/
  deferred : List Connective
  /-- Words of the clause under way, the newest first. -/
  words : List String
deriving DecidableEq, Repr

namespace Assembly

def start : Assembly := ⟨[], [], []⟩

/-- The two newest operands replaced by one rule over both. -/
def reduce (connective : Connective) : List Rule → Except Error (List Rule)
  | right :: left :: below =>
      match Rule.join connective left right with
      | .ok rule => .ok (rule :: below)
      | .error _ => .error (.badStructure .tooDeep (below.length + 2))
  | operands => .error (.badStructure .missingOperand operands.length)

/-- Makes an operand of the words collected so far, if there are any. -/
def endClause (a : Assembly) : Assembly :=
  if a.words = [] then a
  else
    { a with
      operands := Rule.ofClause (" ".intercalate a.words.reverse) :: a.operands
      words := [] }

/-- Applies a connective at once if nothing is deferred and two operands are at
hand, and otherwise puts it off. -/
def connect (a : Assembly) (connective : Connective) : Except Error Assembly :=
  if a.deferred ≠ [] ∨ a.operands.length < 2 then
    .ok { a with deferred := connective :: a.deferred }
  else
    (reduce connective a.operands).map fun operands => { a with operands }

/-- Applies the newest deferred connective if two operands are at hand. -/
def close (a : Assembly) : Except Error Assembly :=
  if a.operands.length < 2 then .ok a
  else
    match a.deferred with
    | [] => .error (.badStructure .unmatchedClosing a.operands.length)
    | connective :: deferred =>
        (reduce connective a.operands).map fun operands => { a with operands, deferred }

def take (a : Assembly) : Token → Except Error Assembly
  | .opening => .ok a
  | .closing => a.endClause.close
  | .connective connective => a.endClause.connect connective
  | .word text => .ok { a with words := text :: a.words }

/-- The operands that are left when all deferred connectives are applied. -/
def drain : List Connective → List Rule → Except Error (List Rule)
  | [], operands => .ok operands
  | connective :: deferred, operands => do drain deferred (← reduce connective operands)

def finish (a : Assembly) : Except Error Rule := do
  match ← drain a.endClause.deferred a.endClause.operands with
  | [] => .error (.badStructure .noExpression 0)
  | [rule] => .ok rule
  | operands => .error (.badStructure .surplusOperands operands.length)

end Assembly

namespace Rule

/-- The tag of the root of a rule that was read from a text. -/
def rootTag : UInt32 := 1

def ofTokens (tokens : List Token) : Except Error Rule := do
  (← tokens.foldlM Assembly.take Assembly.start).finish

/-- Reads a rule text. -/
def parse (text : String) : Except Error Rule :=
  (ofTokens (Token.ofText text)).map (retag rootTag)

end Rule

end Criteria
