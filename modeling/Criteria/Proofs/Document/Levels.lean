/-
# Criteria.Proofs.Document.Levels -- how tall the rule of a document will be

A document has levels before there is a rule, counted in nodes down to the
lowest. A node lies in brackets of its own, so there are no more levels than the
text nests (`levels_le_depth`); the rule that a document builds has just as many
(`levels_of_toRule`), and only one with too many is refused for its height
(`lt_levels_of_tooTall`). What the nodes leave out or add besides their children
has no part in this.
-/
import Criteria.Proofs.Json.Fields
import Criteria.Proofs.Rule.Built

namespace Criteria.Document

set_option autoImplicit false

open Json (Term)

mutual

/-- The number of nodes on a longest path down from the root. -/
def levels : Document → Nat
  | node _ _ _ left? right? => 1 + max (levelsBelow left?) (levelsBelow right?)

def levelsBelow : Option Document → Nat
  | none => 0
  | some child => child.levels

end

/-! ## Levels of a text -/

/-- What is given for the fields of a node is less deep than the node. -/
theorem exists_given_of_ofTerm? {term : Term} {document : Document}
    (read : ofTerm? term = some document) : ∃ given, ofGiven? given = some document ∧
      ∀ part, some part ∈ given → part.depth < term.depth := by
  cases term with
  | object members =>
      rw [ofTerm?_object, Option.bind_eq_some_iff] at read
      obtain ⟨given, collected, fits⟩ := read
      refine ⟨given, fits, ?_⟩
      intro part member
      obtain ⟨pieces, written⟩ := Json.Fields.mem_of_ofObject? collected member
      exact Nat.lt_succ_of_le (Term.depth_le_of_mem_members written)
  | array items =>
      rw [ofTerm?_array, Option.bind_eq_some_iff] at read
      obtain ⟨given, collected, fits⟩ := read
      refine ⟨given, fits, ?_⟩
      intro part member
      exact Nat.lt_succ_of_le
        (Term.depth_le_of_mem_items (Json.Fields.mem_of_ofArray? collected member))
  | _ => cases read

/-- A child is what was given for its field. -/
theorem eq_of_readChild? {given : Option Term} {child : Document}
    (read : readChild? (given.map withDocument) = some (some child)) :
    ∃ part, given = some part ∧ ofTerm? part = some child := by
  cases given with
  | none => cases read
  | some part =>
      refine ⟨part, rfl, ?_⟩
      cases part with
      | null => cases read
      | _ => simpa [readChild?, withDocument] using read

theorem children_of_ofGiven? {given : List (Option Term)} {kind : Kind} {tag : UInt32}
    {clause? : Option String} {left? right? : Option Document}
    (read : ofGiven? given = some (node kind tag clause? left? right?)) (child : Document)
    (below : left? = some child ∨ right? = some child) :
    ∃ part, some part ∈ given ∧ ofTerm? part = some child := by
  obtain ⟨_, _, _, leftTerm?, rightTerm?, rfl, -, -, -, isLeft, isRight⟩ :=
    ofGiven?_eq_some_iff.1 read
  rcases below with rfl | rfl
  · obtain ⟨part, rfl, found⟩ := eq_of_readChild? isLeft
    exact ⟨part, by simp, found⟩
  · obtain ⟨part, rfl, found⟩ := eq_of_readChild? isRight
    exact ⟨part, by simp, found⟩

theorem levelsBelow_le {child? : Option Document} {n : Nat}
    (bound : ∀ child, child? = some child → child.levels ≤ n) : levelsBelow child? ≤ n := by
  cases child? with
  | none => exact Nat.zero_le n
  | some child => exact bound child rfl

/-- Every level of a document takes a pair of brackets. -/
theorem levels_le_depth {term : Term} {document : Document}
    (read : ofTerm? term = some document) : document.levels ≤ term.depth := by
  induction size : term.depth using Nat.strongRecOn generalizing term document with
  | _ depth ih =>
      subst size
      obtain ⟨given, fits, parts⟩ := exists_given_of_ofTerm? read
      have brackets : 0 < term.depth := by
        cases term with
        | object members => exact Nat.succ_pos _
        | array items => exact Nat.succ_pos _
        | _ => cases read
      obtain ⟨kind, tag, clause?, left?, right?⟩ := document
      have lower (child : Document) (below : left? = some child ∨ right? = some child) :
          child.levels ≤ term.depth - 1 := by
        obtain ⟨part, member, found⟩ := children_of_ofGiven? fits child below
        have smaller := parts part member
        have := ih part.depth smaller found rfl
        omega
      have left := levelsBelow_le fun child below => lower child (.inl below)
      have right := levelsBelow_le fun child below => lower child (.inr below)
      rw [levels]
      omega

/-! ## Levels of a rule -/

theorem levels_toDocument (rule : Rule) : rule.toDocument.levels = rule.levels := by
  induction rule with
  | leaf => rfl
  | node tag height connective left right ihLeft ihRight =>
      rw [Rule.toDocument, levels, levelsBelow, levelsBelow, ihLeft, ihRight, Rule.levels]

theorem levels_of_toRule {document : Document} {rule : Rule}
    (built : document.toRule = .ok rule) : rule.levels = document.levels := by
  rw [← (toRule_eq_ok_iff.1 built).2, levels_toDocument]

/-- Only a document with too many levels is refused for its height. -/
theorem lt_levels_of_tooTall {document : Document} (refused : document.toRule = .error .tooTall) :
    maxHeight < document.levels := by
  fun_induction toRule document with
  | case1 => cases refused
  | case2 => cases refused
  | case3 connective tag left right ihLeft ihRight =>
      have above : left.levels < (node (.joined connective) tag none (some left) (some right)).levels ∧
          right.levels < (node (.joined connective) tag none (some left) (some right)).levels := by
        simp only [levels, levelsBelow]
        omega
      rcases bind_eq_error_iff.1 refused with failed | ⟨ruleLeft, builtLeft, refused⟩
      · exact Nat.lt_trans (ihLeft failed) above.1
      · rcases bind_eq_error_iff.1 refused with failed | ⟨ruleRight, builtRight, refused⟩
        · exact Nat.lt_trans (ihRight failed) above.2
        · split at refused
          · cases refused
          · rename_i error joined
            have tall := (Rule.join_eq_error_iff.1 joined).1
            rwa [(sound_toRule builtLeft).height_eq, (sound_toRule builtRight).height_eq,
              levels_of_toRule builtLeft, levels_of_toRule builtRight] at tall
  | case4 => cases refused

end Criteria.Document
