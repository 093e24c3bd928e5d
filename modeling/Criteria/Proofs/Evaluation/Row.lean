/-
# Criteria.Proofs.Evaluation.Row -- rules joined, and texts joined, mean the same

Texts may be put under a connective in two ways: by reading each and joining the
rules, which groups them from the left, or by writing the rules that were read in
a row with the connective between them (`rowText`) and reading that, which groups
them from the right. Both rules, where there are both, come to the first outcome
of the row that settles the connective (`evaluate_combined`).
-/
import Criteria.Proofs.Assembly.Account
import Criteria.Proofs.Evaluation.Outcome

namespace Criteria.Rule

set_option autoImplicit false

variable {texts : List String} {rules : List Rule} {record : Record}

/-! ## Texts that are read one by one -/

theorem parseAll_of_map_parse (read : texts.map parse = rules.map .ok) :
    parseAll texts = .ok rules := by
  induction texts generalizing rules with
  | nil =>
      obtain rfl := List.map_eq_nil_iff.1 read.symm
      rfl
  | cons text texts ih =>
      obtain ⟨first, rest, rfl, readFirst, readRest⟩ := List.map_eq_cons_iff.1 read.symm
      have others := ih readRest.symm
      exact bind_eq_ok_iff.2 ⟨first, readFirst.symm, bind_eq_ok_iff.2 ⟨rest, others, rfl⟩⟩

/-- Each of the rules is read from one of the texts. -/
theorem exists_parse_of_mem (read : texts.map parse = rules.map .ok) {rule : Rule}
    (member : rule ∈ rules) : ∃ text, parse text = .ok rule := by
  have listed : (.ok rule : Except Error Rule) ∈ texts.map parse := by
    rw [read]
    exact List.mem_map_of_mem member
  obtain ⟨text, -, same⟩ := List.mem_map.1 listed
  exact ⟨text, same⟩

theorem evaluate_combine {c : Connective} {rule : Rule} (read : texts.map parse = rules.map .ok)
    (combined : combine c texts = .ok rule) :
    evaluate record rule = c.settle (rules.map (evaluate record)) := by
  rw [combine, parseAll_of_map_parse read] at combined
  exact evaluate_joinAll combined

/-! ## Rules written in a row -/

/-- The texts of some rules with a connective between each two. -/
def rowText (c : Connective) (rules : List Rule) : String :=
  (" " ++ c.name ++ " ").intercalate (rules.map text)

theorem rowText_concat (c : Connective) (rules : List Rule) (last : Rule) :
    rowText c (rules ++ [last]) = chainText (rules.map fun rule => (rule, c)) last := by
  induction rules with
  | nil => exact String.intercalate_singleton
  | cons rule rules ih =>
      have more : (rules ++ [last]).map text ≠ [] := by simp
      rw [List.map_cons, chainText, ← ih, rowText, List.cons_append, List.map_cons,
        String.intercalate_cons_of_ne_nil more, ← rowText]
      simp only [String.append_assoc]

theorem evaluate_parse_rowText {c : Connective} {rule : Rule} (some : rules ≠ [])
    (sound : ∀ rule ∈ rules, rule.Sound) (clean : ∀ rule ∈ rules, rule.Clean)
    (read : parse (rowText c rules) = .ok rule) :
    evaluate record rule = c.settle (rules.map (evaluate record)) := by
  rw [← List.dropLast_concat_getLast some] at sound clean read ⊢
  generalize rules.dropLast = init at sound clean read ⊢
  generalize rules.getLast some = last at sound clean read ⊢
  simp only [List.forall_mem_append, List.forall_mem_singleton] at sound clean
  rw [rowText_concat] at read
  have same := eq_chain_of_parse (List.forall_mem_map.2 sound.1) sound.2
    (List.forall_mem_map.2 clean.1) clean.2 read
  rw [same, evaluate_retag, evaluate_chain]

/-- Whether the rules of some texts are joined or written in a row, the outcome
is the first that is not true under AND, or not false under OR. -/
theorem evaluate_combined (some : texts ≠ []) (read : texts.map parse = rules.map .ok)
    (c : Connective) (record : Record) :
    (∀ rule, combine c texts = .ok rule →
      evaluate record rule = c.settle (rules.map (evaluate record))) ∧
    (∀ rule, parse (rowText c rules) = .ok rule →
      evaluate record rule = c.settle (rules.map (evaluate record))) := by
  refine ⟨?_, ?_⟩
  · intro rule combined
    exact evaluate_combine read combined
  · intro rule readRow
    have listed : rules ≠ [] := by
      rintro rfl
      exact some (List.map_eq_nil_iff.1 read)
    refine evaluate_parse_rowText listed ?_ ?_ readRow
    · intro rule member
      obtain ⟨text, read⟩ := exists_parse_of_mem read member
      exact parse_sound read
    · intro rule member
      obtain ⟨text, read⟩ := exists_parse_of_mem read member
      exact clean_of_parse read

/-- Three texts, the second of which has no truth value for any record. -/
def rowWithFault : List Rule :=
  [node 1 2 .and (leaf 2 "a > 5") (leaf 2 "b"), leaf 1 "c", leaf 1 "a < 5"]

/-- The first rule is false, so the fault of the second comes before the truth of
the third in either grouping. -/
theorem evaluate_combined_with_fault :
    ["a > 5 and b", "c", "a < 5"] ≠ [] ∧
      ["a > 5 and b", "c", "a < 5"].map parse = rowWithFault.map .ok ∧
      ∃ fromLeft fromRight, combine .or ["a > 5 and b", "c", "a < 5"] = .ok fromLeft ∧
        parse (rowText .or rowWithFault) = .ok fromRight ∧ fromLeft.height = 4 ∧
        fromRight.height = 3 ∧
        evaluate ((∅ : Record).insert "a" (.integer 0)) fromLeft = .error (.malformedClause "c") ∧
        evaluate ((∅ : Record).insert "a" (.integer 0)) fromRight =
          .error (.malformedClause "c") := by
  have some : ["a > 5 and b", "c", "a < 5"] ≠ [] := by decide
  have first : parse "a > 5 and b" = .ok (node 1 2 .and (leaf 2 "a > 5") (leaf 2 "b")) :=
    toOption_eq_some_iff.1 (by decide +kernel)
  have second : parse "c" = .ok (leaf 1 "c") := toOption_eq_some_iff.1 (by decide +kernel)
  have third : parse "a < 5" = .ok (leaf 1 "a < 5") := toOption_eq_some_iff.1 (by decide +kernel)
  have read : ["a > 5 and b", "c", "a < 5"].map parse = rowWithFault.map .ok := by
    simp [rowWithFault, first, second, third]
  have combined : combine .or ["a > 5 and b", "c", "a < 5"] =
      .ok (node 0 4 .or (node 0 3 .or (node 1 2 .and (leaf 2 "a > 5") (leaf 2 "b")) (leaf 1 "c"))
        (leaf 1 "a < 5")) := by
    rw [combine, parseAll_of_map_parse read]
    rfl
  have readRow : parse (rowText .or rowWithFault) =
      .ok (node 1 3 .or (node 2 2 .and (leaf 3 "a > 5") (leaf 3 "b"))
        (node 2 2 .or (leaf 3 "c") (leaf 3 "a < 5"))) := toOption_eq_some_iff.1 (by decide +kernel)
  have settled : Connective.settle .or
      (rowWithFault.map (evaluate ((∅ : Record).insert "a" (.integer 0)))) =
        .error (.malformedClause "c") := rfl
  obtain ⟨joined, written⟩ :=
    evaluate_combined some read .or ((∅ : Record).insert "a" (.integer 0))
  exact ⟨some, read, _, _, combined, readRow, rfl, rfl, (joined _ combined).trans settled,
    (written _ readRow).trans settled⟩

end Criteria.Rule
