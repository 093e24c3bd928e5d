/-
# Criteria.Proofs.Rule.Inorder -- a rule read from left to right

`inorder` reads a rule as it was written, clauses and connectives in turn and
without the grouping; `clauses` and `connectives` are its two halves. A rule has
one clause more than connectives, and no more levels than clauses, which is why
a bound on the clauses of a text bounds the height of whatever is read from it.
-/
import Criteria.Rule.Basic

namespace Criteria.Rule

set_option autoImplicit false

/-- The clauses and connectives of a rule from left to right. -/
def inorder : Rule → List (String ⊕ Connective)
  | leaf _ clause => [.inl clause]
  | node _ _ connective left right => left.inorder ++ .inr connective :: right.inorder

/-- The clauses at the leaves from left to right. -/
def clauses : Rule → List String
  | leaf _ clause => [clause]
  | node _ _ _ left right => left.clauses ++ right.clauses

/-- The connectives at the inner nodes. -/
def connectives : Rule → List Connective
  | leaf _ _ => []
  | node _ _ connective left right => left.connectives ++ connective :: right.connectives

theorem clauses_eq_inorder (rule : Rule) : rule.clauses = rule.inorder.filterMap Sum.getLeft? := by
  induction rule with
  | leaf => rfl
  | node tag height connective left right ihLeft ihRight =>
      simp [clauses, inorder, ihLeft, ihRight, List.filterMap_cons]

theorem length_clauses (rule : Rule) : rule.clauses.length = rule.connectives.length + 1 := by
  induction rule with
  | leaf => rfl
  | node tag height connective left right ihLeft ihRight =>
      simp only [clauses, connectives, List.length_append, List.length_cons]
      omega

@[simp] theorem inorder_retag (rule : Rule) (start : UInt32) :
    (rule.retag start).inorder = rule.inorder := by
  induction rule generalizing start with
  | leaf => rfl
  | node tag height connective left right ihLeft ihRight =>
      rw [retag, inorder, inorder, ihLeft, ihRight]

@[simp] theorem clauses_retag (rule : Rule) (start : UInt32) :
    (rule.retag start).clauses = rule.clauses := by
  rw [clauses_eq_inorder, inorder_retag, ← clauses_eq_inorder]

@[simp] theorem connectives_retag (rule : Rule) (start : UInt32) :
    (rule.retag start).connectives = rule.connectives := by
  induction rule generalizing start with
  | leaf => rfl
  | node tag height connective left right ihLeft ihRight =>
      rw [retag, connectives, connectives, ihLeft, ihRight]

end Criteria.Rule
