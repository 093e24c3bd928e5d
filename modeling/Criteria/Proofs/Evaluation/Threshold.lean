/-
# Criteria.Proofs.Evaluation.Threshold -- thresholds are compared as integers

Behind one of the order symbols a clause needs the literal of a signed 32-bit integer,
once the quotation marks are gone. It has a value if and only if that is what stands
there, and the value is then the comparison of two integers, what the attribute is as
one and what the literal is worth, without a bound on the digits or a detour through
words; anything else, by however little it misses the range, makes the clause
malformed (`holds_threshold`).
-/
import Criteria.Proofs.Evaluation.Meaning

namespace Criteria.Clause

set_option autoImplicit false

variable {record : Record} {clause name symbol value : String} {actual : Attribute}
  {compare : Int → Int → Bool}

theorem space_not_mem_of_order (order : (symbol, compare) ∈ orders) : ' ' ∉ symbol.toList := by
  simp only [orders, List.mem_cons, Prod.mk.injEq, List.not_mem_nil, or_false] at order
  rcases order with ⟨rfl, -⟩ | ⟨rfl, -⟩ | ⟨rfl, -⟩ | ⟨rfl, -⟩
  all_goals decide

theorem parts_of_three (spelled : clause = name ++ " " ++ symbol ++ " " ++ value)
    (solidName : ' ' ∉ name.toList) (solidSymbol : ' ' ∉ symbol.toList)
    (solidValue : ' ' ∉ value.toList) (some : value ≠ "") :
    parts clause = [name, symbol, value] := by
  have joined : clause = " ".intercalate ([name, symbol] ++ [value]) := by
    simp [spelled, String.intercalate_cons_cons, String.append_assoc]
  rw [joined]
  apply parts_intercalate
  · simpa using ⟨solidName, solidSymbol, solidValue⟩
  · exact some

/-- The clause of a name, an order symbol and a value has a value for a record with
that name if and only if the value is a literal, up to quotation marks. It is then the
comparison of the integers, an attribute that is a text being 0, and the clause is
malformed otherwise. What is written for a word is the literal of its integer, wherever
quotation marks are put in. -/
theorem holds_threshold (present : record[name]? = some actual) (solidName : ' ' ∉ name.toList)
    (order : (symbol, compare) ∈ orders) (some : value ≠ "") (solidValue : ' ' ∉ value.toList)
    (spelled : clause = name ++ " " ++ symbol ++ " " ++ value) :
    ((∃ truth, holds record clause = .ok truth) ↔
      ∃ threshold, Decimal.Literal (unquote value) threshold) ∧
    (∀ number threshold, actual.IntegerView number →
      Decimal.Literal (unquote value) threshold →
      holds record clause = .ok (compare number threshold)) ∧
    ((∀ threshold, ¬ Decimal.Literal (unquote value) threshold) →
      holds record clause = .error (.malformedClause clause)) ∧
    ∀ (w : Int32) (number : Int), actual.IntegerView number → unquote value = toString w →
      holds record clause = .ok (compare number w.toInt) := by
  have shape := parts_of_three spelled solidName (space_not_mem_of_order order) solidValue some
  have compared : ∀ number threshold, actual.IntegerView number →
      Decimal.Literal (unquote value) threshold →
      holds record clause = .ok (compare number threshold) := by
    intro number threshold view literal
    exact (holds_eq_iff shape).2 (.compared present view order literal)
  have refused (unread : ∀ threshold, ¬ Decimal.Literal (unquote value) threshold) :
      holds record clause = .error (.malformedClause clause) :=
    (holds_eq_iff shape).2 (.unread present order unread)
  refine ⟨⟨?_, ?_⟩, compared, refused, ?_⟩
  · rintro ⟨truth, found⟩
    by_contra unread
    rw [refused (not_exists.1 unread)] at found
    cases found
  · rintro ⟨threshold, literal⟩
    exact ⟨_, compared _ threshold (Attribute.integerView_iff.2 rfl) literal⟩
  · intro w number view written
    exact compared number w.toInt view (written ▸ Decimal.literal_toString w)

/-- The least word, for itself and for its text, which is 0; and the integer below it. -/
theorem holds_threshold_at_the_bound :
    holds ((∅ : Record).insert "" (.integer (-2147483648))) " <= -'2147483648'" = .ok true ∧
      holds ((∅ : Record).insert "" (.text "-2147483648")) " <= -'2147483648'" = .ok false ∧
      holds ((∅ : Record).insert "" (.integer 7)) " > -'2147483648'" = .ok true ∧
      holds ((∅ : Record).insert "" (.integer 7)) " > -2147483649" =
        .error (.malformedClause " > -2147483649") := by
  have present (value : Attribute) : ((∅ : Record).insert "" value)[""]? = some value :=
    Std.ExtTreeMap.getElem?_insert_self
  have atMost : ("<=", fun actual threshold => decide (actual ≤ threshold)) ∈ orders := by
    simp [orders]
  have greater : (">", fun actual threshold => decide (threshold < actual)) ∈ orders := .head _
  have unread : ∀ threshold, ¬ Decimal.Literal (unquote "-2147483649") threshold := by
    apply Decimal.int32?_eq_none_iff.1
    decide +kernel
  obtain ⟨-, -, -, least⟩ := holds_threshold (present (.integer (-2147483648))) (by decide) atMost
    (by decide : "-'2147483648'" ≠ "") (by decide) rfl
  obtain ⟨-, -, -, text⟩ := holds_threshold (present (.text "-2147483648")) (by decide) atMost
    (by decide : "-'2147483648'" ≠ "") (by decide) rfl
  obtain ⟨-, -, -, above⟩ := holds_threshold (present (.integer 7)) (by decide) greater
    (by decide : "-'2147483648'" ≠ "") (by decide) rfl
  obtain ⟨-, -, refused, -⟩ := holds_threshold (present (.integer 7)) (by decide) greater
    (by decide : "-2147483649" ≠ "") (by decide) rfl
  exact ⟨least (-2147483648) _ (.integer _) rfl, text (-2147483648) _ (.text _) rfl,
    above (-2147483648) _ (.integer _) rfl, refused unread⟩

end Criteria.Clause
