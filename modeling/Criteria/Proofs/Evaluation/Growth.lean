/-
# Criteria.Proofs.Evaluation.Growth -- what further attributes can change

A clause looks up one name, and only a clause of three parts does. So two records
that agree on that name give it one outcome (`holds_congr`), and a record that
only gains entries gives the outcome it gave before, unless the name was missing
and is there now (`holds_of_within`). What a connective looks at is decided by
the outcome on the left alone: outcomes that stay let the same sides be visited,
and a refusal on the left, supplied or not, hides all that comes behind it. That
carries the statement from the leaves to the whole rule (`evaluate_growth`).
-/
import Criteria.Proofs.Evaluation.Meaning
import Criteria.Proofs.Evaluation.Outcome

namespace Criteria

set_option autoImplicit false

/-- The larger record has every entry of the record unchanged, and maybe others. -/
def Record.Within (record larger : Record) : Prop :=
  ∀ (name : String) (value : Attribute), record[name]? = some value → larger[name]? = some value

variable {record larger : Record}

theorem Record.within_insert {name : String} (new : name ∉ record) (value : Attribute) :
    record.Within (record.insert name value) := by
  intro other known found
  have apart : name ≠ other := by
    rintro rfl
    rw [Std.ExtTreeMap.getElem?_eq_none new] at found
    cases found
  rw [Std.ExtTreeMap.getElem?_insert, if_neg (by simpa using apart)]
  exact found

/-! ## Clauses -/

namespace Clause

variable {clause name : String}

/-- Of a record only the entry of the name in front of a clause matters. -/
theorem holds_congr (same : ∀ name symbol value, parts clause = [name, symbol, value] →
    record[name]? = larger[name]?) : holds record clause = holds larger clause := by
  unfold holds
  split
  · rename_i name symbol value shape
    simp only [same name symbol value shape]
  · rfl

theorem holds_eq_missing_iff : holds record clause = .error (.missingAttribute name) ↔
    ∃ symbol value, parts clause = [name, symbol, value] ∧ record[name]? = none := by
  rw [holds_eq_iff rfl]
  constructor
  · intro means
    generalize parts clause = words at means ⊢
    cases means with
    | missing absent => exact ⟨_, _, rfl, absent⟩
  · rintro ⟨symbol, value, shape, absent⟩
    rw [shape]
    exact .missing absent

end Clause

/-! ## Outcomes -/

/-- The outcome has stayed, or an attribute was missing that is there now. -/
def Unmoved (larger : Record) (before after : Except Error Bool) : Prop :=
  after = before ∨ ∃ name, before = .error (.missingAttribute name) ∧ name ∈ larger

theorem Clause.holds_of_within (within : record.Within larger) (clause : String) :
    Unmoved larger (holds record clause) (holds larger clause) := by
  by_cases supplied : ∃ name symbol value,
      parts clause = [name, symbol, value] ∧ record[name]? = none ∧ name ∈ larger
  · obtain ⟨name, symbol, value, shape, missing, present⟩ := supplied
    exact .inr ⟨name, holds_eq_missing_iff.2 ⟨symbol, value, shape, missing⟩, present⟩
  · left
    apply holds_congr
    intro name symbol value shape
    cases found : record[name]? with
    | some actual => exact within name actual found
    | none =>
        have absent : name ∉ larger := by
          intro present
          exact supplied ⟨name, symbol, value, shape, found, present⟩
        exact Std.ExtTreeMap.getElem?_eq_none absent

/-- Outcomes that stay are combined to one that stays. -/
theorem Unmoved.both {first first' second second' : Except Error Bool} (c : Connective)
    (unmoved : Unmoved larger first first') (unmoved' : Unmoved larger second second') :
    Unmoved larger (c.both first second) (c.both first' second') := by
  rcases unmoved with rfl | ⟨name, rfl, present⟩
  · by_cases neutral : c.isNeutral first'
    · simpa only [Connective.both, if_pos neutral] using unmoved'
    · simp only [Connective.both, if_neg neutral]
      exact .inl rfl
  · -- the refusal on the left is the outcome of the whole
    exact .inr ⟨name, rfl, present⟩

/-! ## Rules -/

namespace Rule

theorem evaluate_of_within (within : record.Within larger) (rule : Rule) :
    Unmoved larger (evaluate record rule) (evaluate larger rule) := by
  induction rule with
  | leaf tag clause => exact Clause.holds_of_within within clause
  | node tag height c left right ihLeft ihRight =>
      rw [evaluate_node, evaluate_node]
      exact ihLeft.both c ihRight

/-- A rule is refused for one of its clauses. -/
theorem exists_clause_of_evaluate_error {rule : Rule} {error : Error}
    (refused : evaluate record rule = .error error) :
    ∃ clause ∈ rule.clauses, Clause.holds record clause = .error error := by
  induction rule with
  | leaf tag clause => exact ⟨clause, List.mem_singleton.2 rfl, refused⟩
  | node tag height c left right ihLeft ihRight =>
      rw [evaluate_node, Connective.both] at refused
      split at refused
      · obtain ⟨clause, inside, here⟩ := ihRight refused
        exact ⟨clause, List.mem_append_right _ inside, here⟩
      · obtain ⟨clause, inside, here⟩ := ihLeft refused
        exact ⟨clause, List.mem_append_left _ inside, here⟩

/-- A record that gains entries and loses none gives the outcome it gave before, a
refusal included, unless what was missing is now there; and what is missing is
the name in front of a clause, and is not in the record. -/
theorem evaluate_growth (rule : Rule) (within : record.Within larger) :
    (evaluate larger rule = evaluate record rule ∨
      ∃ name, evaluate record rule = .error (.missingAttribute name) ∧ name ∈ larger) ∧
    ∀ name, evaluate record rule = .error (.missingAttribute name) →
      name ∉ record ∧ ∃ clause ∈ rule.clauses, (Clause.parts clause).head? = some name := by
  refine ⟨evaluate_of_within within rule, ?_⟩
  intro name refused
  obtain ⟨clause, inside, missing⟩ := exists_clause_of_evaluate_error refused
  obtain ⟨symbol, value, shape, absent⟩ := Clause.holds_eq_missing_iff.1 missing
  refine ⟨?_, clause, inside, by rw [shape]; rfl⟩
  intro present
  rw [Std.ExtTreeMap.mem_iff_isSome_getElem?, absent] at present
  cases present

/-- A record that gives no department. -/
def seller : Record := (∅ : Record).insert "age" (.integer 40)

/-- A city does not make up for the missing department. -/
theorem evaluate_growth_seller :
    seller.Within (seller.insert "city" (.text "Rome")) ∧
      evaluate (seller.insert "city" (.text "Rome"))
        (node 1 2 .and (leaf 2 "age > 30") (leaf 2 "dept = 'Sales'")) =
          .error (.missingAttribute "dept") ∧ "dept" ∉ seller := by
  have new : "city" ∉ seller := by decide
  have within := Record.within_insert new (.text "Rome")
  have refused : evaluate seller (node 1 2 .and (leaf 2 "age > 30") (leaf 2 "dept = 'Sales'")) =
      .error (.missingAttribute "dept") := rfl
  obtain ⟨stays | ⟨name, missing, present⟩, absent⟩ :=
    evaluate_growth (node 1 2 .and (leaf 2 "age > 30") (leaf 2 "dept = 'Sales'")) within
  · exact ⟨within, stays.trans refused, (absent _ refused).1⟩
  · obtain rfl : "dept" = name := by simpa [refused] using missing
    exact absurd present (by decide)

end Rule

end Criteria
