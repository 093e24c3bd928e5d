/-
# Criteria.Proofs.Evaluation.Truth -- stopping early costs nothing

`truth` is the value of a rule as a formula: every leaf has a value, given by the
path to it, and every connective is applied by its truth table. Evaluation looks at
fewer leaves, and some of those that it passes by may have no value at all. A value
that it finds is still the value of the formula, however the leaves without one are
filled in (`truth_of_evaluate`).

When it is refused, the leaf to blame is settled by position alone: of the leaves
that stand in no skipped side it is the first without a value (`FirstFault`,
`evaluate_eq_error_iff`). A leaf is `Skipped` under a node whose left side has the
value that decides the connective. So a rule whose leaves all have values has one.
-/
import Criteria.Proofs.Evaluation.Outcome
import Criteria.Proofs.Rule.Paths

namespace Criteria

set_option autoImplicit false

/-! ## The value of a formula -/

/-- The truth table of a connective. -/
def Connective.apply : Connective → Bool → Bool → Bool
  | and, first, second => first && second
  | or, first, second => first || second

namespace Connective

theorem apply_neutral (c : Connective) (value : Bool) : c.apply c.neutral value = value := by
  cases c <;> rfl

theorem apply_absorbing (c : Connective) (value : Bool) :
    c.apply c.absorbing value = c.absorbing := by
  cases c <;> rfl

end Connective

namespace Rule

/-- The value of a rule as a formula. The leaf at the end of a path has the value
given to that path. -/
def truth (values : List Branch → Bool) : Rule → Bool
  | leaf _ _ => values []
  | node _ _ c left right =>
      c.apply (left.truth fun path => values (.left :: path))
        (right.truth fun path => values (.right :: path))

/-- The clause of the leaf at the end of a path. -/
def clauseAt? (rule : Rule) (path : List Branch) : Option String :=
  (rule.at? path).bind clause?

/-- Every leaf whose clause has a value is given that value. -/
def Agrees (record : Record) (rule : Rule) (values : List Branch → Bool) : Prop :=
  ∀ path clause value, rule.clauseAt? path = some clause →
    Clause.holds record clause = .ok value → values path = value

variable {record : Record} {tag : UInt32} {height : Nat} {c : Connective} {left right : Rule}
  {values : List Branch → Bool}

theorem clauseAt?_leaf_eq_some_iff {clause clause' : String} {path : List Branch} :
    (leaf tag clause).clauseAt? path = some clause' ↔ path = [] ∧ clause' = clause := by
  cases path with
  | nil => simp [clauseAt?, clause?, eq_comm]
  | cons branch path => simp [clauseAt?, at?, child?]

theorem Agrees.onLeft (agrees : (node tag height c left right).Agrees record values) :
    left.Agrees record fun path => values (.left :: path) := by
  intro path clause value here
  exact agrees (.left :: path) clause value here

theorem Agrees.onRight (agrees : (node tag height c left right).Agrees record values) :
    right.Agrees record fun path => values (.right :: path) := by
  intro path clause value here
  exact agrees (.right :: path) clause value here

/-- What evaluation finds does not depend on the leaves that have no value. -/
theorem truth_of_evaluate {rule : Rule} {value : Bool} (found : evaluate record rule = .ok value)
    (agrees : rule.Agrees record values) : rule.truth values = value := by
  induction rule generalizing value values with
  | leaf tag clause => exact agrees [] clause value rfl found
  | node tag height c left right ihLeft ihRight =>
      rw [truth]
      rcases evaluate_node_cases record tag height c left right with
        ⟨error, -, whole⟩ | ⟨first, whole⟩ | ⟨first, whole⟩
      · rw [whole] at found
        cases found
      · rw [whole] at found
        rw [ihLeft first agrees.onLeft, Connective.apply_neutral, ihRight found agrees.onRight]
      · -- the right side keeps whatever value it is given
        rw [whole, Except.ok.injEq] at found
        rw [ihLeft first agrees.onLeft, Connective.apply_absorbing, found]

/-! ## The leaf to blame -/

/-- The path leads into a right side whose left sibling decides their node. -/
def Skipped (record : Record) (rule : Rule) (path : List Branch) : Prop :=
  ∃ above below tag height c left right, path = above ++ .right :: below ∧
    rule.at? above = some (node tag height c left right) ∧
    evaluate record left = .ok c.absorbing

/-- Where the paths part, the first goes to the left and the second to the right. -/
def Precedes (first second : List Branch) : Prop :=
  ∃ above below below', first = above ++ .left :: below ∧ second = above ++ .right :: below'

/-- A leaf that evaluation gets past: it has a value, or is not looked at. -/
def Passed (record : Record) (rule : Rule) (path : List Branch) (clause : String) : Prop :=
  (∃ value, Clause.holds record clause = .ok value) ∨ rule.Skipped record path

/-- The first leaf that evaluation does not get past, and how its clause is refused. -/
structure FirstFault (record : Record) (rule : Rule) (path : List Branch) (clause : String)
    (error : Error) : Prop where
  here : rule.clauseAt? path = some clause
  refused : Clause.holds record clause = .error error
  visited : ¬ rule.Skipped record path
  before : ∀ earlier clause', Precedes earlier path → rule.clauseAt? earlier = some clause' →
    rule.Passed record earlier clause'

theorem precedes_left_right (first second : List Branch) :
    Precedes (.left :: first) (.right :: second) := ⟨[], first, second, rfl, rfl⟩

theorem Precedes.cons {first second : List Branch} (branch : Branch)
    (precedes : Precedes first second) : Precedes (branch :: first) (branch :: second) := by
  obtain ⟨above, below, below', rfl, rfl⟩ := precedes
  exact ⟨branch :: above, below, below', rfl, rfl⟩

theorem precedes_cons_iff {branch branch' : Branch} {first second : List Branch} :
    Precedes (branch :: first) (branch' :: second) ↔
      branch = .left ∧ branch' = .right ∨ branch = branch' ∧ Precedes first second := by
  constructor
  · rintro ⟨_ | ⟨top, above⟩, below, below', here, there⟩
    · cases here
      cases there
      exact .inl ⟨rfl, rfl⟩
    · cases here
      cases there
      exact .inr ⟨rfl, above, below, below', rfl, rfl⟩
  · rintro (⟨rfl, rfl⟩ | ⟨rfl, precedes⟩)
    · exact precedes_left_right first second
    · exact precedes.cons branch

theorem not_skipped_leaf (clause : String) (path : List Branch) :
    ¬ (leaf tag clause).Skipped record path := by
  rintro ⟨above, below, _, _, _, _, _, -, found, -⟩
  cases above <;> cases found

theorem skipped_left_iff {path : List Branch} :
    (node tag height c left right).Skipped record (.left :: path) ↔ left.Skipped record path := by
  constructor
  · rintro ⟨_ | ⟨top, above⟩, below, tag', height', c', left', right', split, found, decides⟩
    · cases split
    · cases split
      exact ⟨above, below, tag', height', c', left', right', rfl, found, decides⟩
  · rintro ⟨above, below, tag', height', c', left', right', rfl, found, decides⟩
    exact ⟨.left :: above, below, tag', height', c', left', right', rfl, found, decides⟩

theorem skipped_right_iff {path : List Branch} :
    (node tag height c left right).Skipped record (.right :: path) ↔
      evaluate record left = .ok c.absorbing ∨ right.Skipped record path := by
  constructor
  · rintro ⟨_ | ⟨top, above⟩, below, tag', height', c', left', right', split, found, decides⟩
    · cases found
      exact .inl decides
    · cases split
      exact .inr ⟨above, below, tag', height', c', left', right', rfl, found, decides⟩
  · rintro (decides | ⟨above, below, tag', height', c', left', right', rfl, found, decides⟩)
    · exact ⟨[], path, tag, height, c, left, right, rfl, rfl, decides⟩
    · exact ⟨.right :: above, below, tag', height', c', left', right', rfl, found, decides⟩

variable {path : List Branch} {clause : String} {error : Error}

theorem passed_left_iff : (node tag height c left right).Passed record (.left :: path) clause ↔
    left.Passed record path clause := by
  rw [Passed, Passed, skipped_left_iff]

theorem passed_right_iff : (node tag height c left right).Passed record (.right :: path) clause ↔
    evaluate record left = .ok c.absorbing ∨ right.Passed record path clause := by
  rw [Passed, Passed, skipped_right_iff]
  exact or_left_comm

theorem FirstFault.not_passed {rule : Rule} (fault : rule.FirstFault record path clause error) :
    ¬ rule.Passed record path clause := by
  rintro (⟨value, found⟩ | skipped)
  · rw [fault.refused] at found
    cases found
  · exact fault.visited skipped

theorem firstFault_left_iff :
    (node tag height c left right).FirstFault record (.left :: path) clause error ↔
      left.FirstFault record path clause error := by
  constructor
  · intro fault
    refine ⟨fault.here, fault.refused, mt skipped_left_iff.2 fault.visited, ?_⟩
    intro earlier clause' precedes there
    exact passed_left_iff.1 (fault.before _ clause' (precedes.cons .left) there)
  · intro fault
    refine ⟨fault.here, fault.refused, mt skipped_left_iff.1 fault.visited, ?_⟩
    intro earlier clause' precedes there
    cases earlier with
    | nil => cases there
    | cons branch earlier =>
        rcases precedes_cons_iff.1 precedes with ⟨-, turned⟩ | ⟨rfl, sooner⟩
        · cases turned
        · exact passed_left_iff.2 (fault.before earlier clause' sooner there)

/-- On the right the leaves of the left side have to be passed as well. -/
theorem firstFault_right_iff :
    (node tag height c left right).FirstFault record (.right :: path) clause error ↔
      right.FirstFault record path clause error ∧ evaluate record left ≠ .ok c.absorbing ∧
        ∀ earlier clause', left.clauseAt? earlier = some clause' →
          left.Passed record earlier clause' := by
  constructor
  · intro fault
    have undecided : evaluate record left ≠ .ok c.absorbing := by
      intro decides
      exact fault.visited (skipped_right_iff.2 (.inl decides))
    refine ⟨⟨fault.here, fault.refused, ?_, ?_⟩, undecided, ?_⟩
    · intro skipped
      exact fault.visited (skipped_right_iff.2 (.inr skipped))
    · intro earlier clause' precedes there
      have passed := fault.before _ clause' (precedes.cons .right) there
      exact (passed_right_iff.1 passed).resolve_left undecided
    · intro earlier clause' there
      exact passed_left_iff.1 (fault.before _ clause' (precedes_left_right earlier path) there)
  · rintro ⟨fault, undecided, passed⟩
    refine ⟨fault.here, fault.refused, ?_, ?_⟩
    · intro skipped
      exact fault.visited ((skipped_right_iff.1 skipped).resolve_left undecided)
    · intro earlier clause' precedes there
      cases earlier with
      | nil => cases there
      | cons branch earlier =>
          rcases precedes_cons_iff.1 precedes with ⟨rfl, -⟩ | ⟨rfl, sooner⟩
          · exact passed_left_iff.2 (passed earlier clause' there)
          · exact passed_right_iff.2 (.inr (fault.before earlier clause' sooner there))

/-- Where a value is found, evaluation has got past every leaf. -/
theorem passed_of_evaluate {rule : Rule} {value : Bool} (found : evaluate record rule = .ok value)
    (here : rule.clauseAt? path = some clause) : rule.Passed record path clause := by
  induction rule generalizing value path with
  | leaf tag clause' =>
      obtain ⟨rfl, rfl⟩ := clauseAt?_leaf_eq_some_iff.1 here
      exact .inl ⟨value, found⟩
  | node tag height c left right ihLeft ihRight =>
      rcases evaluate_node_cases record tag height c left right with
        ⟨error, -, whole⟩ | ⟨first, whole⟩ | ⟨first, whole⟩
      · rw [whole] at found
        cases found
      · rw [whole] at found
        rcases path with _ | ⟨_ | _, path⟩
        · cases here
        · exact passed_left_iff.2 (ihLeft first here)
        · exact passed_right_iff.2 (.inr (ihRight found here))
      · rcases path with _ | ⟨_ | _, path⟩
        · cases here
        · exact passed_left_iff.2 (ihLeft first here)
        · exact passed_right_iff.2 (.inl first)

theorem exists_firstFault {rule : Rule} (refused : evaluate record rule = .error error) :
    ∃ path clause, rule.FirstFault record path clause error := by
  induction rule with
  | leaf tag clause =>
      refine ⟨[], clause, rfl, refused, not_skipped_leaf clause [], ?_⟩
      rintro earlier clause' ⟨above, below, below', -, root⟩ -
      simp at root
  | node tag height c left right ihLeft ihRight =>
      rcases evaluate_node_cases record tag height c left right with
        ⟨fault, first, whole⟩ | ⟨first, whole⟩ | ⟨-, whole⟩
      · rw [whole, ← first] at refused
        obtain ⟨path, clause, fault⟩ := ihLeft refused
        exact ⟨.left :: path, clause, firstFault_left_iff.2 fault⟩
      · rw [whole] at refused
        obtain ⟨path, clause, fault⟩ := ihRight refused
        refine ⟨.right :: path, clause, firstFault_right_iff.2 ⟨fault, ?_, ?_⟩⟩
        · rw [first]
          cases c <;> decide
        · intro earlier clause' there
          exact passed_of_evaluate first there
      · rw [whole] at refused
        cases refused

/-- Of two leaves of a rule one stands before the other. -/
theorem eq_or_precedes {rule : Rule} {path' : List Branch} {clause' : String}
    (here : rule.clauseAt? path = some clause) (there : rule.clauseAt? path' = some clause') :
    path = path' ∨ Precedes path path' ∨ Precedes path' path := by
  induction rule generalizing path path' with
  | leaf tag _ =>
      obtain ⟨rfl, -⟩ := clauseAt?_leaf_eq_some_iff.1 here
      obtain ⟨rfl, -⟩ := clauseAt?_leaf_eq_some_iff.1 there
      exact .inl rfl
  | node tag height c left right ihLeft ihRight =>
      rcases path with _ | ⟨_ | _, path⟩
      · cases here
      · rcases path' with _ | ⟨_ | _, path'⟩
        · cases there
        · rcases ihLeft here there with rfl | first | second
          · exact .inl rfl
          · exact .inr (.inl (first.cons .left))
          · exact .inr (.inr (second.cons .left))
        · exact .inr (.inl (precedes_left_right path path'))
      · rcases path' with _ | ⟨_ | _, path'⟩
        · cases there
        · exact .inr (.inr (precedes_left_right path' path))
        · rcases ihRight here there with rfl | first | second
          · exact .inl rfl
          · exact .inr (.inl (first.cons .right))
          · exact .inr (.inr (second.cons .right))

theorem FirstFault.unique {rule : Rule} {path' : List Branch} {clause' : String} {error' : Error}
    (fault : rule.FirstFault record path clause error)
    (fault' : rule.FirstFault record path' clause' error') : error = error' := by
  rcases eq_or_precedes fault.here fault'.here with rfl | first | second
  · obtain rfl := Option.some.inj (fault.here.symm.trans fault'.here)
    exact Except.error.inj (fault.refused.symm.trans fault'.refused)
  · exact absurd (fault'.before path clause first fault.here) fault.not_passed
  · exact absurd (fault.before path' clause' second fault'.here) fault'.not_passed

/-- A rule is refused for its first fault, and for nothing else. -/
theorem evaluate_eq_error_iff {rule : Rule} : evaluate record rule = .error error ↔
    ∃ path clause, rule.FirstFault record path clause error := by
  constructor
  · exact exists_firstFault
  · rintro ⟨path, clause, fault⟩
    cases outcome : evaluate record rule with
    | ok value => exact absurd (passed_of_evaluate outcome fault.here) fault.not_passed
    | error other =>
        obtain ⟨path', clause', fault'⟩ := exists_firstFault outcome
        rw [fault.unique fault']

/-! ## Stopping early against going through all leaves -/

/-- A value that evaluation finds is the value of the formula for all values of the
leaves that agree with their clauses, those that have none being free; it finds one
if all leaves have one; and it is refused exactly like the first leaf that has none
and is in no side that was skipped. -/
theorem evaluate_agrees (record : Record) (rule : Rule) :
    (∀ value, evaluate record rule = .ok value →
      ∀ values, rule.Agrees record values → rule.truth values = value) ∧
    ((∀ path clause, rule.clauseAt? path = some clause →
      ∃ value, Clause.holds record clause = .ok value) → ∃ value, evaluate record rule = .ok value) ∧
    ∀ error, evaluate record rule = .error error ↔
      ∃ path clause, rule.FirstFault record path clause error := by
  refine ⟨?_, ?_, ?_⟩
  · intro value found values agrees
    exact truth_of_evaluate found agrees
  · intro all
    cases outcome : evaluate record rule with
    | ok value => exact ⟨value, rfl⟩
    | error error =>
        obtain ⟨path, clause, fault⟩ := exists_firstFault outcome
        obtain ⟨value, found⟩ := all path clause fault.here
        exact absurd (.inl ⟨value, found⟩) fault.not_passed
  · intro error
    exact evaluate_eq_error_iff

/-- For adults the clause that has no reading is skipped. -/
def minorOrRoman : Rule :=
  node 1 3 .or (node 2 2 .and (leaf 3 "age < 18") (leaf 3 "minor")) (leaf 2 "city = 'Rome'")

def adult : Record := (∅ : Record).insert "age" (.integer 40)

/-- Whatever value the skipped clause is given, an adult in Rome is found; and an
adult without a city is refused for the city. -/
theorem evaluate_agrees_minorOrRoman :
    (∀ values, minorOrRoman.Agrees (adult.insert "city" (.text "Rome")) values →
      minorOrRoman.truth values = true) ∧
    ∃ path clause, minorOrRoman.FirstFault adult path clause (.missingAttribute "city") := by
  have found : evaluate (adult.insert "city" (.text "Rome")) minorOrRoman = .ok true := rfl
  have refused : evaluate adult minorOrRoman = .error (.missingAttribute "city") := rfl
  exact ⟨(evaluate_agrees _ minorOrRoman).1 true found,
    ((evaluate_agrees adult minorOrRoman).2.2 _).1 refused⟩

end Rule

end Criteria
