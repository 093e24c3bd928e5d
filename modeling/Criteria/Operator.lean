/-
# Criteria.Operator -- the comparisons a clause may ask for

`Magnitude` compares the integer views of two values and `Likeness` their text
views; an operator symbol names one test of one of the two.
-/

namespace Criteria

set_option autoImplicit false

inductive Magnitude where
  | greater
  | less
  | atLeast
  | atMost
deriving DecidableEq, Repr

inductive Likeness where
  | same
  | different
deriving DecidableEq, Repr

inductive Operator where
  | magnitude (test : Magnitude)
  | likeness (test : Likeness)
deriving DecidableEq, Repr

def Magnitude.holds (actual threshold : Int32) : Magnitude → Bool
  | greater => threshold < actual
  | less => actual < threshold
  | atLeast => threshold ≤ actual
  | atMost => actual ≤ threshold

def Likeness.holds (actual wanted : String) : Likeness → Bool
  | same => actual == wanted
  | different => actual != wanted

/-- The operator a symbol stands for; `=` is a second spelling of `==`. -/
def Operator.ofSymbol? : String → Option Operator
  | ">" => some (.magnitude .greater)
  | "<" => some (.magnitude .less)
  | ">=" => some (.magnitude .atLeast)
  | "<=" => some (.magnitude .atMost)
  | "==" => some (.likeness .same)
  | "=" => some (.likeness .same)
  | "!=" => some (.likeness .different)
  | _ => none

end Criteria
