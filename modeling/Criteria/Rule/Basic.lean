/-
# Criteria.Rule.Basic -- rules as trees

A leaf holds a clause, an inner node a connective over two rules. Every node
has a tag, which `retag` sets to its depth, and an inner node keeps its height,
so that `join` refuses a rule of more than `maxHeight` levels without walking
it (`join_eq_ok_iff`, `join_eq_error_iff`). `text` writes a rule with every
connective in parentheses.
-/
import Criteria.Connective

namespace Criteria

set_option autoImplicit false

inductive Rule where
  | leaf (tag : UInt32) (clause : String)
  | node (tag : UInt32) (height : Nat) (connective : Connective) (left right : Rule)
deriving DecidableEq, Repr

/-- What a node of a rule is. -/
inductive Kind where
  | operand
  | joined (connective : Connective)
deriving DecidableEq, Repr

def Kind.name : Kind → String
  | operand => "OPERAND"
  | joined connective => connective.name

/-- One step down a rule. -/
inductive Branch where
  | left
  | right
deriving DecidableEq, Repr

namespace Rule

def tag : Rule → UInt32
  | leaf tag _ => tag
  | node tag _ _ _ _ => tag

/-- The number of levels, as recorded in the root. -/
def height : Rule → Nat
  | leaf _ _ => 1
  | node _ height _ _ _ => height

def kind : Rule → Kind
  | leaf _ _ => .operand
  | node _ _ connective _ _ => .joined connective

def connective? : Rule → Option Connective
  | leaf _ _ => none
  | node _ _ connective _ _ => some connective

def clause? : Rule → Option String
  | leaf _ clause => some clause
  | node _ _ _ _ _ => none

def child? : Rule → Branch → Option Rule
  | leaf _ _, _ => none
  | node _ _ _ left _, .left => some left
  | node _ _ _ _ right, .right => some right

/-- A leaf that no depth has been assigned to. -/
def ofClause (clause : String) : Rule := leaf 0 clause

/-- Both rules under one connective, unless that takes too many levels. -/
def join (connective : Connective) (left right : Rule) : Except Error Rule :=
  if 1 + max left.height right.height > maxHeight then .error .nestingTooDeep
  else .ok (node 0 (1 + max left.height right.height) connective left right)

theorem join_eq_ok_iff {connective : Connective} {left right result : Rule} :
    join connective left right = .ok result ↔
      1 + max left.height right.height ≤ maxHeight ∧
        result = node 0 (1 + max left.height right.height) connective left right := by
  unfold join
  split
  · simp only [reduceCtorEq, false_iff]; omega
  · simp only [Except.ok.injEq, eq_comm]
    constructor
    · intro same; exact ⟨by omega, same⟩
    · exact And.right

theorem join_eq_error_iff {connective : Connective} {left right : Rule} {error : Error} :
    join connective left right = .error error ↔
      maxHeight < 1 + max left.height right.height ∧ error = .nestingTooDeep := by
  unfold join
  split
  · simp only [Except.error.injEq, eq_comm]
    constructor
    · intro same; exact ⟨by omega, same⟩
    · exact And.right
  · simp only [reduceCtorEq, false_iff]; omega

/-- The rule with a tag of its own in place of the root's. -/
def withTag (tag : UInt32) : Rule → Rule
  | leaf _ clause => leaf tag clause
  | node _ height connective left right => node tag height connective left right

/-- Tags every node with its depth, counted from `start` at the root. -/
def retag (start : UInt32) : Rule → Rule
  | leaf _ clause => leaf start clause
  | node _ height connective left right =>
      node start height connective (left.retag (start + 1)) (right.retag (start + 1))

@[simp] theorem height_retag (rule : Rule) (start : UInt32) :
    (rule.retag start).height = rule.height := by
  cases rule <;> rfl

/-- The rule as a rule text. -/
def text : Rule → String
  | leaf _ clause => clause
  | node _ _ connective left right =>
      "(" ++ left.text ++ " " ++ connective.name ++ " " ++ right.text ++ ")"

end Rule

end Criteria
