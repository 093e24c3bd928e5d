/-
# Criteria.Rule.Combination -- several rules under one connective

A list is joined from the left: `[a, b, c]` becomes `((a op b) op c)`. Each
rule after the first adds a level above those before it. Texts are all read
before any two are joined, so the first text without a reading decides.
-/
import Criteria.Assembly

namespace Criteria.Rule

set_option autoImplicit false

def joinAll (connective : Connective) : List Rule → Except Error Rule
  | [] => .error .nothingToCombine
  | first :: rest => rest.foldlM (join connective) first

/-- The rules of a list of texts, or the error of the first that has none. -/
def parseAll : List String → Except Error (List Rule)
  | [] => .ok []
  | text :: texts => do return (← parse text) :: (← parseAll texts)

def combine (connective : Connective) (texts : List String) : Except Error Rule := do
  joinAll connective (← parseAll texts)

end Criteria.Rule
