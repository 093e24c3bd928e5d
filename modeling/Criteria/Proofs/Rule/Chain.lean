/-
# Criteria.Proofs.Rule.Chain -- rules joined one after the other to the right

`chain` is the rule that a row of rules with connectives between them stands
for when it is grouped from the right, and `chainText` is how the row is
written. The levels of a chain only grow towards its front, so what makes it too
tall is decided by its suffixes (`levels_chain_drop_le`). Tags do not matter for
any of this: `untagged` forgets them, and `retag` gives the same with and without.
-/
import Criteria.Proofs.Rule.Levels

namespace Criteria.Rule

set_option autoImplicit false

/-! ## Forgetting tags -/

/-- The rule with tag 0 at every node. -/
def untagged : Rule → Rule
  | leaf _ clause => leaf 0 clause
  | node _ height connective left right => node 0 height connective left.untagged right.untagged

@[simp] theorem height_untagged (rule : Rule) : rule.untagged.height = rule.height := by
  cases rule <;> rfl

@[simp] theorem levels_untagged (rule : Rule) : rule.untagged.levels = rule.levels := by
  induction rule with
  | leaf => rfl
  | node tag height connective left right ihLeft ihRight =>
      rw [untagged, levels, levels, ihLeft, ihRight]

theorem Sound.untagged {rule : Rule} (sound : rule.Sound) : rule.untagged.Sound := by
  induction rule with
  | leaf => trivial
  | node tag height connective left right ihLeft ihRight =>
      obtain ⟨same, bound, soundLeft, soundRight⟩ := sound_node_iff.1 sound
      refine sound_node_iff.2 ⟨?_, bound, ihLeft soundLeft, ihRight soundRight⟩
      rw [height_untagged, height_untagged, same]

@[simp] theorem retag_untagged (rule : Rule) (start : UInt32) :
    rule.untagged.retag start = rule.retag start := by
  induction rule generalizing start with
  | leaf => rfl
  | node tag height connective left right ihLeft ihRight =>
      rw [untagged, retag, retag, ihLeft, ihRight]

@[simp] theorem untagged_retag (rule : Rule) (start : UInt32) :
    (rule.retag start).untagged = rule.untagged := by
  induction rule generalizing start with
  | leaf => rfl
  | node tag height connective left right ihLeft ihRight =>
      rw [retag, untagged, untagged, ihLeft, ihRight]

/-- Of several taggings the last one counts. -/
@[simp] theorem retag_retag (rule : Rule) (first second : UInt32) :
    (rule.retag first).retag second = rule.retag second := by
  rw [← retag_untagged, untagged_retag, retag_untagged]

/-- Sound rules without tags are what `join` makes of their two sides. -/
theorem Sound.join_untagged {tag : UInt32} {height : Nat} {connective : Connective}
    {left right : Rule} (sound : (node tag height connective left right).Sound) :
    Rule.join connective left.untagged right.untagged =
      .ok (node tag height connective left right).untagged := by
  obtain ⟨same, bound, -, -⟩ := sound_node_iff.1 sound
  rw [join_eq_ok_iff, height_untagged, height_untagged, Rule.untagged, ← same]
  exact ⟨bound, rfl⟩

/-! ## Chains -/

/-- The rules under the connectives behind them, grouped from the right. -/
def chain : List (Rule × Connective) → Rule → Rule
  | [], last => last
  | (rule, c) :: links, last =>
      node 0 (1 + max rule.height (chain links last).height) c rule (chain links last)

/-- The texts of the rules with the connectives between them. -/
def chainText : List (Rule × Connective) → Rule → String
  | [], last => last.text
  | (rule, c) :: links, last => rule.text ++ " " ++ c.name ++ " " ++ chainText links last

theorem chain_snoc (links : List (Rule × Connective)) (rule last : Rule) (c : Connective) :
    chain (links ++ [(rule, c)]) last =
      chain links (node 0 (1 + max rule.height last.height) c rule last) := by
  induction links with
  | nil => rfl
  | cons link links ih => rw [List.cons_append, chain, chain, ih]

/-- A row of rules, all of them with tag 0 at every node. -/
def untagLinks (links : List (Rule × Connective)) : List (Rule × Connective) :=
  links.map fun link => (link.1.untagged, link.2)

theorem untagged_chain (links : List (Rule × Connective)) (last : Rule) :
    (chain links last).untagged = chain (untagLinks links) last.untagged := by
  induction links with
  | nil => rfl
  | cons link links ih =>
      have same : untagLinks (link :: links) = (link.1.untagged, link.2) :: untagLinks links := rfl
      rw [same, chain, chain, untagged, ← ih, height_untagged, height_untagged]

theorem levels_chain_drop_le (links : List (Rule × Connective)) (last : Rule) (k : Nat) :
    (chain (links.drop k) last).levels ≤ (chain links last).levels := by
  induction links generalizing k with
  | nil => exact Nat.le_of_eq (by rw [List.drop_nil])
  | cons link links ih =>
      cases k with
      | zero => exact Nat.le_refl _
      | succ k =>
          have shorter := ih k
          rw [List.drop_succ_cons, chain, levels]
          omega

/-! ## Chains that are too tall -/

/-- The chain from place `k` on takes too many levels, and no shorter one does. -/
structure TooTallFrom (links : List (Rule × Connective)) (last : Rule) (k : Nat) : Prop where
  tall : maxHeight < (chain (links.drop k) last).levels
  fits : ∀ j, k < j → (chain (links.drop j) last).levels ≤ maxHeight

variable {links : List (Rule × Connective)} {rule last : Rule} {c : Connective}

/-- A link at the end of a chain may be counted as part of the last rule. -/
theorem chain_drop_snoc (k : Nat) (few : k ≤ links.length) :
    chain ((links ++ [(rule, c)]).drop k) last =
      chain (links.drop k) (node 0 (1 + max rule.height last.height) c rule last) := by
  rw [List.drop_append_of_le_length few, chain_snoc]

theorem drop_snoc_eq_nil {k : Nat} (many : links.length < k) :
    (links ++ [(rule, c)]).drop k = [] := by
  rw [List.drop_eq_nil_iff, List.length_append]
  exact many

/-- The last link alone is too tall. -/
theorem tooTallFrom_snoc (low : last.levels ≤ maxHeight)
    (tall : maxHeight < 1 + max rule.levels last.levels) :
    TooTallFrom (links ++ [(rule, c)]) last links.length where
  tall := by
    rw [List.drop_left]
    exact tall
  fits j above := by
    rw [drop_snoc_eq_nil above]
    exact low

theorem TooTallFrom.snoc {k : Nat} (low : last.levels ≤ maxHeight)
    (lowBoth : 1 + max rule.levels last.levels ≤ maxHeight)
    (found : TooTallFrom links (node 0 (1 + max rule.height last.height) c rule last) k) :
    TooTallFrom (links ++ [(rule, c)]) last k := by
  have few : k ≤ links.length := by
    apply Nat.not_lt.1
    intro many
    have tall := found.tall
    rw [List.drop_of_length_le (Nat.le_of_lt many)] at tall
    exact absurd lowBoth (Nat.not_le.2 tall)
  refine ⟨?_, ?_⟩
  · rw [chain_drop_snoc k few]
    exact found.tall
  · intro j above
    by_cases fewer : j ≤ links.length
    · rw [chain_drop_snoc j fewer]
      exact found.fits j above
    · rw [drop_snoc_eq_nil (Nat.not_le.1 fewer)]
      exact low

theorem drop_untagLinks (links : List (Rule × Connective)) (k : Nat) :
    (untagLinks links).drop k = untagLinks (links.drop k) :=
  List.map_drop.symm

/-- Where a chain becomes too tall does not depend on its tags. -/
theorem tooTallFrom_untagged_iff {k : Nat} :
    TooTallFrom (untagLinks links) last.untagged k ↔ TooTallFrom links last k := by
  have same (j : Nat) : (chain ((untagLinks links).drop j) last.untagged).levels =
      (chain (links.drop j) last).levels := by
    rw [drop_untagLinks, ← untagged_chain, levels_untagged]
  constructor
  · rintro ⟨tall, fits⟩
    refine ⟨?_, ?_⟩
    · rw [← same]
      exact tall
    · intro j above
      rw [← same]
      exact fits j above
  · rintro ⟨tall, fits⟩
    refine ⟨?_, ?_⟩
    · rw [same]
      exact tall
    · intro j above
      rw [same]
      exact fits j above

end Criteria.Rule
