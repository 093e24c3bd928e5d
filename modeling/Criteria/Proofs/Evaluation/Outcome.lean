/-
# Criteria.Proofs.Evaluation.Outcome -- one outcome out of two, or out of a row

For a record a rule is true, false or refused. Under a connective the outcome of
the left side stands, a refusal included, unless it is the value that leaves all
to the other side (`Connective.neutral`); so `Connective.both` gives the outcome
of a node (`evaluate_node`). It is associative (`both_assoc`), although it stops
early and not everything it combines is a value: both groupings of three
outcomes come to the first that is not neutral. `settle` says this of a whole
row, and a row grouped from the left (`evaluate_joinAll`) or from the right
(`evaluate_chain`) comes to the same.
-/
import Criteria.Proofs.Rule.Chain
import Criteria.Rule.Evaluation

namespace Criteria

set_option autoImplicit false

namespace Connective

/-- The value of one side that leaves all to the other. -/
def neutral : Connective → Bool
  | and => true
  | or => false

def isNeutral (c : Connective) : Except Error Bool → Bool
  | .ok value => value == c.neutral
  | .error _ => false

/-- The first outcome, or the second where the first is neutral. -/
def both (c : Connective) (first second : Except Error Bool) : Except Error Bool :=
  if c.isNeutral first then second else first

/-- The first outcome of a row that is not neutral; the neutral value if all are. -/
def settle (c : Connective) (outcomes : List (Except Error Bool)) : Except Error Bool :=
  (outcomes.find? fun outcome => !c.isNeutral outcome).getD (.ok c.neutral)

variable {c : Connective} {outcome : Except Error Bool}

theorem isNeutral_iff : c.isNeutral outcome ↔ outcome = .ok c.neutral := by
  cases outcome <;> simp [isNeutral]

theorem eq_neutral_or_absorbing (c : Connective) (value : Bool) :
    value = c.neutral ∨ value = c.absorbing := by
  cases c <;> cases value <;> decide

theorem both_neutral (c : Connective) (outcome : Except Error Bool) :
    c.both outcome (.ok c.neutral) = outcome := by
  unfold both
  split
  · rename_i neutral
    exact (isNeutral_iff.1 neutral).symm
  · rfl

theorem both_assoc (c : Connective) (first second third : Except Error Bool) :
    c.both (c.both first second) third = c.both first (c.both second third) := by
  by_cases neutral : c.isNeutral first
  · simp only [both, if_pos neutral]
  · simp only [both, if_neg neutral]

theorem settle_nil (c : Connective) : c.settle [] = .ok c.neutral := rfl

theorem settle_cons (c : Connective) (outcome : Except Error Bool)
    (outcomes : List (Except Error Bool)) :
    c.settle (outcome :: outcomes) = c.both outcome (c.settle outcomes) := by
  rw [settle, List.find?_cons, both]
  cases c.isNeutral outcome <;> rfl

end Connective

namespace Rule

variable {record : Record}

theorem evaluate_node (record : Record) (tag : UInt32) (height : Nat) (c : Connective)
    (left right : Rule) : evaluate record (node tag height c left right) =
      c.both (evaluate record left) (evaluate record right) := by
  rw [evaluate]
  cases evaluate record left with
  | error error => rfl
  | ok value => cases c <;> cases value <;> rfl

/-- The outcome on the left is the outcome of the node, or leaves it to the right. -/
theorem evaluate_node_cases (record : Record) (tag : UInt32) (height : Nat) (c : Connective)
    (left right : Rule) :
    (∃ error, evaluate record left = .error error ∧
      evaluate record (node tag height c left right) = .error error) ∨
    (evaluate record left = .ok c.neutral ∧
      evaluate record (node tag height c left right) = evaluate record right) ∨
    (evaluate record left = .ok c.absorbing ∧
      evaluate record (node tag height c left right) = .ok c.absorbing) := by
  rw [evaluate_node]
  cases first : evaluate record left with
  | error error => exact .inl ⟨error, rfl, rfl⟩
  | ok value =>
      rcases c.eq_neutral_or_absorbing value with rfl | rfl
      · exact .inr (.inl ⟨rfl, if_pos (Connective.isNeutral_iff.2 rfl)⟩)
      · exact .inr (.inr ⟨rfl, by cases c <;> rfl⟩)

/-- Tags play no part in an evaluation. -/
@[simp] theorem evaluate_retag (record : Record) (rule : Rule) (start : UInt32) :
    evaluate record (rule.retag start) = evaluate record rule := by
  induction rule generalizing start with
  | leaf => rfl
  | node tag height c left right ihLeft ihRight =>
      rw [retag, evaluate_node, evaluate_node, ihLeft, ihRight]

theorem evaluate_foldlM {c : Connective} {rules : List Rule} {first rule : Rule}
    (joined : rules.foldlM (join c) first = .ok rule) : evaluate record rule =
      c.both (evaluate record first) (c.settle (rules.map (evaluate record))) := by
  induction rules generalizing first with
  | nil =>
      cases joined
      rw [List.map_nil, Connective.settle_nil, Connective.both_neutral]
  | cons next rules ih =>
      obtain ⟨pair, both, others⟩ := foldlM_cons_eq_ok_iff.1 joined
      obtain ⟨-, rfl⟩ := join_eq_ok_iff.1 both
      rw [ih others, evaluate_node, Connective.both_assoc, List.map_cons, Connective.settle_cons]

/-- A list joined from the left comes to what settles the row of its rules. -/
theorem evaluate_joinAll {c : Connective} {rules : List Rule} {rule : Rule}
    (joined : joinAll c rules = .ok rule) :
    evaluate record rule = c.settle (rules.map (evaluate record)) := by
  cases rules with
  | nil => cases joined
  | cons first rest =>
      rw [evaluate_foldlM joined, List.map_cons, Connective.settle_cons]

/-- So does a chain under one connective, which is grouped from the right. -/
theorem evaluate_chain (record : Record) (c : Connective) (rules : List Rule) (last : Rule) :
    evaluate record (chain (rules.map fun rule => (rule, c)) last) =
      c.settle ((rules ++ [last]).map (evaluate record)) := by
  induction rules with
  | nil =>
      rw [List.nil_append, List.map_singleton, Connective.settle_cons, Connective.settle_nil,
        Connective.both_neutral]
      rfl
  | cons rule rules ih =>
      rw [List.map_cons, chain, evaluate_node, ih, List.cons_append, List.map_cons,
        Connective.settle_cons]

end Rule

end Criteria
