/-
# Criteria.Rule.Cursor -- a place inside a rule

A cursor is a rule together with the branches taken from its root. It is moved
by `child?`, which only follows branches that exist, so the path of a cursor
that started at a root always leads to a node (`child?_eq_some_iff` is the step
of that argument).
-/
import Criteria.Rule.Basic

namespace Criteria.Rule

set_option autoImplicit false

structure Cursor where
  root : Rule
  /-- The branches from the root, the first one taken first. -/
  path : List Branch
deriving DecidableEq, Repr

/-- The node reached by following the path as far as it leads. -/
def descend : Rule → List Branch → Rule
  | rule, [] => rule
  | rule, branch :: path =>
      match rule.child? branch with
      | some child => child.descend path
      | none => rule

namespace Cursor

def atRoot (rule : Rule) : Cursor := ⟨rule, []⟩

def rule (cursor : Cursor) : Rule := cursor.root.descend cursor.path

/-- The cursor one branch further down, if that branch exists. -/
def child? (cursor : Cursor) (branch : Branch) : Option Cursor :=
  (cursor.rule.child? branch).map fun _ => { cursor with path := cursor.path ++ [branch] }

theorem child?_eq_some_iff {cursor next : Cursor} {branch : Branch} :
    cursor.child? branch = some next ↔
      (cursor.rule.child? branch).isSome ∧
        next = ⟨cursor.root, cursor.path ++ [branch]⟩ := by
  unfold child?
  cases cursor.rule.child? branch <;> simp [eq_comm]

end Cursor

end Criteria.Rule
