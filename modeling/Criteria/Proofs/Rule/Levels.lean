/-
# Criteria.Proofs.Rule.Levels -- the height that a node records

A node stores its height, and `join` relies on what is stored. `levels` counts
the nodes on a longest path anew. A rule is `Sound` when every node of it stores
its true number of levels and none has more than `maxHeight`. Whatever builds or
changes a rule keeps that, and so does going down to a child; a fact about a joined
list has to be shown for one join only (`joinAll_induction`).
-/
import Criteria.Proofs.Refusal
import Criteria.Proofs.Rule.Inorder
import Criteria.Rule.Combination

namespace Criteria.Rule

set_option autoImplicit false

/-- The number of nodes on a longest path from the root to a leaf. -/
def levels : Rule → Nat
  | leaf _ _ => 1
  | node _ _ _ left right => 1 + max left.levels right.levels

/-- Every node stores its number of levels, and no more than are allowed. -/
def Sound : Rule → Prop
  | leaf _ _ => True
  | node tag height connective left right =>
      height = (node tag height connective left right).levels ∧ height ≤ maxHeight ∧
        left.Sound ∧ right.Sound

theorem one_le_levels (rule : Rule) : 1 ≤ rule.levels := by
  cases rule <;> simp [levels]

/-- Every level of a longest path but the last branches off a clause. -/
theorem levels_le_clauses (rule : Rule) : rule.levels ≤ rule.clauses.length := by
  induction rule with
  | leaf => exact Nat.le_refl 1
  | node tag height connective left right ihLeft ihRight =>
      have := left.one_le_levels
      have := right.one_le_levels
      simp only [levels, clauses, List.length_append]
      omega

theorem Sound.height_eq {rule : Rule} (sound : rule.Sound) : rule.height = rule.levels := by
  cases rule with
  | leaf => rfl
  | node => exact sound.1

theorem Sound.levels_le {rule : Rule} (sound : rule.Sound) : rule.levels ≤ maxHeight := by
  cases rule with
  | leaf => show 1 ≤ maxHeight; decide
  | node => rw [← sound.1]; exact sound.2.1

theorem sound_node_iff {tag : UInt32} {height : Nat} {connective : Connective}
    {left right : Rule} : (node tag height connective left right).Sound ↔
      height = 1 + max left.height right.height ∧ height ≤ maxHeight ∧
        left.Sound ∧ right.Sound := by
  constructor
  · rintro ⟨same, bound, soundLeft, soundRight⟩
    rw [soundLeft.height_eq, soundRight.height_eq]
    exact ⟨same, bound, soundLeft, soundRight⟩
  · rintro ⟨same, bound, soundLeft, soundRight⟩
    rw [soundLeft.height_eq, soundRight.height_eq] at same
    exact ⟨same, bound, soundLeft, soundRight⟩

/-- Over two sound rules stand no more levels than they have clauses. -/
theorem Sound.height_join_le {left right : Rule} (soundLeft : left.Sound)
    (soundRight : right.Sound) :
    1 + max left.height right.height ≤ left.clauses.length + right.clauses.length := by
  have fewLeft := left.levels_le_clauses
  have fewRight := right.levels_le_clauses
  have := left.one_le_levels
  have := right.one_le_levels
  rw [soundLeft.height_eq, soundRight.height_eq]
  omega

/-! ## What keeps a rule sound -/

theorem sound_ofClause (clause : String) : (ofClause clause).Sound := trivial

theorem Sound.join {connective : Connective} {left right result : Rule} (soundLeft : left.Sound)
    (soundRight : right.Sound) (joined : Rule.join connective left right = .ok result) :
    result.Sound := by
  obtain ⟨bound, rfl⟩ := join_eq_ok_iff.1 joined
  exact sound_node_iff.2 ⟨rfl, bound, soundLeft, soundRight⟩

theorem Sound.withTag {rule : Rule} (sound : rule.Sound) (tag : UInt32) :
    (rule.withTag tag).Sound := by
  cases rule <;> exact sound

theorem Sound.retag {rule : Rule} (sound : rule.Sound) (start : UInt32) :
    (rule.retag start).Sound := by
  induction rule generalizing start with
  | leaf => trivial
  | node tag height connective left right ihLeft ihRight =>
      obtain ⟨same, bound, soundLeft, soundRight⟩ := sound_node_iff.1 sound
      refine sound_node_iff.2 ⟨?_, bound, ihLeft soundLeft _, ihRight soundRight _⟩
      rw [height_retag, height_retag, same]

theorem Sound.child {rule child : Rule} {branch : Branch} (sound : rule.Sound)
    (found : rule.child? branch = some child) : child.Sound := by
  cases rule with
  | leaf => simp [child?] at found
  | node tag height connective left right =>
      cases branch with
      | left => cases found; exact sound.2.2.1
      | right => cases found; exact sound.2.2.2

/-- What holds of the rules of a list and passes from two sides to the rule over
both holds of the list joined. -/
theorem joinAll_induction {motive : Rule → Prop} {connective : Connective} {rules : List Rule}
    {result : Rule}
    (both : ∀ left right rule, motive left → motive right →
      join connective left right = .ok rule → motive rule)
    (all : ∀ rule ∈ rules, motive rule) (joined : joinAll connective rules = .ok result) :
    motive result := by
  rcases rules with _ | ⟨first, rest⟩
  · cases joined
  · rw [joinAll] at joined
    -- the induction is on the rules to come, for every rule joined so far
    induction rest generalizing first with
    | nil =>
        cases joined
        exact all _ List.mem_cons_self
    | cons rule rest ih =>
        obtain ⟨held, heldNext, later⟩ : motive first ∧ motive rule ∧ ∀ rule ∈ rest, motive rule := by
          simpa using all
        obtain ⟨pair, next, others⟩ := foldlM_cons_eq_ok_iff.1 joined
        exact ih pair (List.forall_mem_cons.2 ⟨both first rule pair held heldNext next, later⟩) others

theorem sound_joinAll {connective : Connective} {rules : List Rule} {result : Rule}
    (sound : ∀ rule ∈ rules, rule.Sound) (joined : joinAll connective rules = .ok result) :
    result.Sound :=
  joinAll_induction (fun _ _ _ soundLeft soundRight next => soundLeft.join soundRight next) sound
    joined

end Criteria.Rule
