/-
# Criteria.Proofs.Evaluation.Duality -- a rule and its dual come to opposite outcomes

The dual of a rule has the other connective at every node, and in every clause with
an operator the symbol that says the opposite; a clause without one stays as it is.
For every record the outcome of the dual is the `opposed` one: the other truth value,
or the same refusal, in which a malformed clause is shown as it stands in the dual.

Only the second part of a clause is exchanged, and it is looked at last but for the
threshold, so both clauses get past the same checks (`Clause.holds_dual`). What is
neutral for a connective is opposed to what is neutral for the other one, so both
rules skip the same sides (`evaluate_dual`), and are refused at the same leaf
(`FirstFault.dual`).
-/
import Criteria.Proofs.Evaluation.Threshold
import Criteria.Proofs.Evaluation.Truth
import Mathlib.Data.List.DropRight

namespace Criteria

set_option autoImplicit false

/-! ## Operators -/

namespace Magnitude

/-- The comparison that holds where this one does not. -/
def opposite : Magnitude → Magnitude
  | greater => atMost
  | less => atLeast
  | atLeast => less
  | atMost => greater

theorem holds_opposite (actual threshold : Int32) (test : Magnitude) :
    test.opposite.holds actual threshold = !test.holds actual threshold := by
  cases test <;> simp [opposite, holds, ← decide_not, Int32.not_le, Int32.not_lt]

end Magnitude

namespace Likeness

def opposite : Likeness → Likeness
  | same => different
  | different => same

theorem holds_opposite (actual wanted : String) (test : Likeness) :
    test.opposite.holds actual wanted = !test.holds actual wanted := by
  cases test <;> simp [opposite, holds, bne]

end Likeness

def Operator.opposite : Operator → Operator
  | magnitude test => magnitude test.opposite
  | likeness test => likeness test.opposite

/-- The symbol that says the opposite of a symbol. -/
def oppositeSymbol? : String → Option String
  | ">" => some "<="
  | "<" => some ">="
  | ">=" => some "<"
  | "<=" => some ">"
  | "==" => some "!="
  | "=" => some "!="
  | "!=" => some "=="
  | _ => none

variable {symbol other : String}

theorem ofSymbol?_of_opposite (named : oppositeSymbol? symbol = some other) :
    ' ' ∉ other.toList ∧ ∃ operator, Operator.ofSymbol? symbol = some operator ∧
      Operator.ofSymbol? other = some operator.opposite := by
  unfold oppositeSymbol? at named
  split at named
  case h_8 => cases named
  all_goals
    cases named
    exact ⟨by decide, _, rfl, rfl⟩

theorem ofSymbol?_eq_none (unnamed : oppositeSymbol? symbol = none) :
    Operator.ofSymbol? symbol = none := by
  unfold oppositeSymbol? at unnamed
  split at unnamed
  case h_8 => unfold Operator.ofSymbol?; split <;> simp_all
  all_goals cases unnamed

/-! ## The parts of a clause -/

/-- No part is left with what it was split at. -/
theorem not_mem_of_mem_splitOn {α : Type} [BEq α] [LawfulBEq α] {x : α} {xs part : List α}
    (inside : part ∈ xs.splitOn x) : x ∉ part := by
  induction xs generalizing part with
  | nil =>
      rw [List.splitOn_nil, List.mem_singleton] at inside
      simp [inside]
  | cons y ys ih =>
      rw [List.splitOn_cons_eq_if_modifyHead] at inside
      split at inside
      · rcases List.mem_cons.1 inside with rfl | later
        · exact List.not_mem_nil
        · exact ih later
      · rename_i other
        obtain ⟨first, others, split⟩ := List.exists_cons_of_ne_nil (List.splitOn_ne_nil x ys)
        rw [split] at inside ih
        rcases List.mem_cons.1 inside with rfl | later
        · rw [List.mem_cons, not_or]
          refine ⟨?_, ih List.mem_cons_self⟩
          rintro rfl
          exact other (beq_self_eq_true x)
        · exact ih (List.mem_cons_of_mem _ later)

namespace Clause

/-- The spaces at the end of a clause, which do not count. -/
def trailing (clause : String) : String := String.ofList (clause.toList.rtakeWhile (· == ' '))

theorem dropTrailingSpaces_append_spaces {spaces : List Char} (blank : ∀ c ∈ spaces, c = ' ')
    (chars : List Char) : dropTrailingSpaces (chars ++ spaces) = dropTrailingSpaces chars := by
  have blank' : ∀ c ∈ spaces.reverse, (c == ' ') = true := by simpa using blank
  rw [dropTrailingSpaces, List.reverse_append, List.dropWhile_append_of_pos blank',
    dropTrailingSpaces]

theorem dropTrailingSpaces_ne_concat (chars init : List Char) :
    dropTrailingSpaces chars ≠ init ++ [' '] := by
  intro same
  have kept : chars.rdropWhile (· == ' ') = init ++ [' '] := same
  have last := List.rdropWhile_last_not (· == ' ') chars (by rw [kept]; simp)
  simp [kept] at last

theorem parts_append_trailing (text clause : String) :
    parts (text ++ trailing clause) = parts text := by
  rw [parts, String.toList_append, trailing, String.toList_ofList,
    dropTrailingSpaces_append_spaces, parts]
  intro c inside
  exact eq_of_beq (List.mem_rtakeWhile_imp (p := (· == ' ')) inside)

theorem space_not_mem_of_mem_parts {clause part : String} (inside : part ∈ parts clause) :
    ' ' ∉ part.toList := by
  obtain ⟨chars, split, rfl⟩ := List.mem_map.1 inside
  rw [String.toList_ofList]
  exact not_mem_of_mem_splitOn split

/-- The space before an empty last part would be at the end, and dropped. -/
theorem value_ne_empty_of_parts {clause name symbol value : String}
    (shape : parts clause = [name, symbol, value]) : value ≠ "" := by
  rintro rfl
  have split : (dropTrailingSpaces clause.toList).splitOn ' ' =
      [name.toList, symbol.toList, []] := by
    have chars := congrArg (List.map String.toList) shape
    simpa [parts, Function.comp_def] using chars
  have joined : [' '].intercalate ((dropTrailingSpaces clause.toList).splitOn ' ') =
      dropTrailingSpaces clause.toList := List.intercalate_splitOn ' '
  rw [split] at joined
  apply dropTrailingSpaces_ne_concat clause.toList (name.toList ++ ' ' :: symbol.toList)
  simpa using joined.symm

/-- The clause with the opposite symbol in place of its own, if it has three parts of
which the second stands for an operator. -/
def dual (clause : String) : String :=
  match parts clause with
  | [name, symbol, value] =>
      match oppositeSymbol? symbol with
      | some other => name ++ " " ++ other ++ " " ++ value ++ trailing clause
      | none => clause
  | _ => clause

variable {clause name value : String}

/-- Where there is a symbol to exchange, nothing else changes. -/
theorem parts_dual (shape : parts clause = [name, symbol, value])
    (named : oppositeSymbol? symbol = some other) : parts (dual clause) = [name, other, value] := by
  have solid : ∀ part ∈ [name, symbol, value], ' ' ∉ part.toList := by
    rw [← shape]
    intro part
    exact space_not_mem_of_mem_parts
  have solidName : ' ' ∉ name.toList := solid name (by simp)
  have solidOther : ' ' ∉ other.toList := (ofSymbol?_of_opposite named).1
  have solidValue : ' ' ∉ value.toList := solid value (by simp)
  have some : value ≠ "" := value_ne_empty_of_parts shape
  simp only [dual, shape, named]
  rw [parts_append_trailing]
  exact parts_of_three rfl solidName solidOther solidValue some

theorem dual_eq_self (unnamed : ∀ name symbol value, parts clause = [name, symbol, value] →
    oppositeSymbol? symbol = none) : dual clause = clause := by
  unfold dual
  split
  · rename_i shape
    simp only [unnamed _ _ _ shape]
  · rfl

end Clause

/-! ## Opposed outcomes -/

/-- The refusal of the dual: what is missing or unknown is the same, and a malformed
clause is shown as it stands there. -/
def Error.dual : Error → Error
  | malformedClause clause => malformedClause (Clause.dual clause)
  | error => error

/-- The other truth value, or the refusal of the dual. -/
def opposed : Except Error Bool → Except Error Bool
  | .ok value => .ok !value
  | .error error => .error error.dual

theorem opposed_eq_ok_iff {outcome : Except Error Bool} {value : Bool} :
    opposed outcome = .ok value ↔ outcome = .ok !value := by
  cases outcome with
  | error error => simp [opposed]
  | ok found => simp [opposed, Bool.not_eq_eq_eq_not]

namespace Clause

variable {clause name value : String}

theorem holds_dual_of_opposite (record : Record) (shape : parts clause = [name, symbol, value])
    (named : oppositeSymbol? symbol = some other) :
    holds record (dual clause) = opposed (holds record clause) := by
  have shape' := parts_dual shape named
  obtain ⟨-, operator, known, known'⟩ := ofSymbol?_of_opposite named
  cases found : record[name]? with
  | none =>
      simp only [holds, shape, shape', found]
      rfl
  | some actual =>
      cases operator with
      | likeness test =>
          simp only [holds, shape, shape', found, known, known', Operator.opposite,
            Likeness.holds_opposite, opposed]
      | magnitude test =>
          -- the value is the same, and so are the thresholds
          simp only [holds, shape, shape', found, known, known', Operator.opposite]
          cases Decimal.int32? (unquote value) with
          | none => rfl
          | some threshold => simp only [Magnitude.holds_opposite, opposed]

/-- A clause that stays as it is has no value for any record. -/
theorem holds_dual_of_none (record : Record) (unnamed : ∀ name symbol value,
    parts clause = [name, symbol, value] → oppositeSymbol? symbol = none) :
    holds record (dual clause) = opposed (holds record clause) := by
  have same := dual_eq_self unnamed
  rw [same]
  unfold holds
  split
  · rename_i name symbol value shape
    simp only [ofSymbol?_eq_none (unnamed name symbol value shape)]
    cases record[name]? <;> rfl
  · simp only [opposed, Error.dual, same]

theorem holds_dual (record : Record) (clause : String) :
    holds record (dual clause) = opposed (holds record clause) := by
  by_cases exchanged : ∃ name symbol value other, parts clause = [name, symbol, value] ∧
      oppositeSymbol? symbol = some other
  · obtain ⟨name, symbol, value, other, shape, named⟩ := exchanged
    exact holds_dual_of_opposite record shape named
  · apply holds_dual_of_none
    intro name symbol value shape
    rw [Option.eq_none_iff_forall_ne_some]
    intro other named
    exact exchanged ⟨name, symbol, value, other, shape, named⟩

/-- A malformed clause is shown as it is. -/
theorem eq_of_holds_malformed {record : Record} {shown : String}
    (refused : holds record clause = .error (.malformedClause shown)) : shown = clause := by
  rw [holds_eq_iff rfl] at refused
  generalize parts clause = words at refused
  cases refused <;> rfl

end Clause

namespace Connective

/-- The other connective. -/
def dual : Connective → Connective
  | and => or
  | or => and

variable (c : Connective)

theorem absorbing_dual : c.dual.absorbing = !c.absorbing := by
  cases c <;> rfl

theorem isNeutral_opposed (outcome : Except Error Bool) :
    c.dual.isNeutral (opposed outcome) = c.isNeutral outcome := by
  cases outcome with
  | error error => rfl
  | ok value => cases c <;> cases value <;> rfl

theorem both_opposed (first second : Except Error Bool) :
    c.dual.both (opposed first) (opposed second) = opposed (c.both first second) := by
  rw [both, isNeutral_opposed, both, apply_ite opposed]

end Connective

/-! ## Rules -/

namespace Rule

/-- The rule with the other connective at every node and the dual of every clause. -/
def dual : Rule → Rule
  | leaf tag clause => leaf tag (Clause.dual clause)
  | node tag height c left right => node tag height c.dual left.dual right.dual

theorem evaluate_dual (record : Record) (rule : Rule) :
    evaluate record rule.dual = opposed (evaluate record rule) := by
  induction rule with
  | leaf tag clause => exact Clause.holds_dual record clause
  | node tag height c left right ihLeft ihRight =>
      rw [dual, evaluate_node, ihLeft, ihRight, Connective.both_opposed, evaluate_node]

/-! ## The leaf to blame -/

theorem child?_dual (rule : Rule) (branch : Branch) :
    rule.dual.child? branch = (rule.child? branch).map dual := by
  cases rule with
  | leaf => rfl
  | node => cases branch <;> rfl

theorem at?_dual (rule : Rule) (path : List Branch) :
    rule.dual.at? path = (rule.at? path).map dual :=
  at?_of_child? (fun _ => child?_dual) 0 rule path

theorem clauseAt?_dual (rule : Rule) (path : List Branch) :
    rule.dual.clauseAt? path = (rule.clauseAt? path).map Clause.dual := by
  rw [clauseAt?, clauseAt?, at?_dual]
  cases rule.at? path with
  | none => rfl
  | some node => cases node <;> rfl

variable {record : Record} {rule : Rule} {path : List Branch} {clause : String} {error : Error}

/-- Both rules skip the same sides. -/
theorem skipped_dual_iff : rule.dual.Skipped record path ↔ rule.Skipped record path := by
  constructor
  · rintro ⟨above, below, tag, height, c', left', right', split, found, decides⟩
    rw [at?_dual, Option.map_eq_some_iff] at found
    obtain ⟨_ | ⟨tag, height, c, left, right⟩, found, same⟩ := found
    · cases same
    · cases same
      rw [evaluate_dual, opposed_eq_ok_iff, Connective.absorbing_dual, Bool.not_not] at decides
      exact ⟨above, below, _, _, c, left, right, split, found, decides⟩
  · rintro ⟨above, below, tag, height, c, left, right, split, found, decides⟩
    have found' := rule.at?_dual above
    rw [found, Option.map_some, dual] at found'
    have decides' : evaluate record left.dual = .ok c.dual.absorbing := by
      rw [evaluate_dual, decides, Connective.absorbing_dual, opposed]
    exact ⟨above, below, _, _, _, _, _, split, found', decides'⟩

theorem Passed.dual (passed : rule.Passed record path clause) :
    rule.dual.Passed record path (Clause.dual clause) := by
  rcases passed with ⟨value, found⟩ | skipped
  · exact .inl ⟨!value, by rw [Clause.holds_dual, found, opposed]⟩
  · exact .inr (skipped_dual_iff.2 skipped)

/-- The first fault of the dual is at the same leaf. -/
theorem FirstFault.dual (fault : rule.FirstFault record path clause error) :
    rule.dual.FirstFault record path (Clause.dual clause) error.dual where
  here := by rw [clauseAt?_dual, fault.here, Option.map_some]
  refused := by rw [Clause.holds_dual, fault.refused, opposed]
  visited := mt skipped_dual_iff.1 fault.visited
  before earlier clause' precedes there := by
    rw [clauseAt?_dual, Option.map_eq_some_iff] at there
    obtain ⟨clause, there, rfl⟩ := there
    exact (fault.before earlier clause precedes there).dual

/-- Where a rule has a value its dual has the other one; where it is refused, the dual
is refused at the same leaf and for the same reason, with the clause of that leaf in
the dual if the clause is malformed. -/
theorem evaluate_opposite (record : Record) (rule : Rule) :
    (∀ value, evaluate record rule = .ok value → evaluate record rule.dual = .ok !value) ∧
    ∀ error, evaluate record rule = .error error →
      ∃ path clause, rule.FirstFault record path clause error ∧
        rule.dual.FirstFault record path (Clause.dual clause) error.dual ∧
        evaluate record rule.dual = .error error.dual ∧
        ∀ shown, error = .malformedClause shown → shown = clause := by
  refine ⟨?_, ?_⟩
  · intro value found
    rw [evaluate_dual, found, opposed]
  · intro error refused
    obtain ⟨path, clause, fault⟩ := exists_firstFault refused
    refine ⟨path, clause, fault, fault.dual, ?_, ?_⟩
    · rw [evaluate_dual, refused, opposed]
    · rintro shown rfl
      exact Clause.eq_of_holds_malformed fault.refused

/-- The last clause asks for a number and gives none, but a minor in Rome does not get
that far. -/
def minorOrUnread : Rule :=
  node 1 3 .or (node 2 2 .and (leaf 3 "age < 18") (leaf 3 "city = 'Rome'")) (leaf 2 "age >= x ")

/-- The city is skipped for an adult in the dual as well, and the fault behind it is
that of the same leaf. -/
theorem evaluate_opposite_minorOrUnread :
    evaluate ((∅ : Record).insert "age" (.integer 10) |>.insert "city" (.text "Rome"))
        minorOrUnread.dual = .ok false ∧
      evaluate adult minorOrUnread.dual = .error (.malformedClause "age < x ") := by
  have found : evaluate ((∅ : Record).insert "age" (.integer 10) |>.insert "city" (.text "Rome"))
      minorOrUnread = .ok true := rfl
  have refused : evaluate adult minorOrUnread = .error (.malformedClause "age >= x ") := rfl
  obtain ⟨-, -, -, -, refused', -⟩ := (evaluate_opposite adult minorOrUnread).2 _ refused
  have shown : (Error.malformedClause "age >= x ").dual = .malformedClause "age < x " := by decide
  exact ⟨(evaluate_opposite _ minorOrUnread).1 true found, shown ▸ refused'⟩

end Rule

end Criteria
