/-
# Criteria.Proofs.Assembly.Account -- a rule accounts for its text

Parentheses and connectives in odd places only move the grouping: a connective
may be applied to operands that it does not stand between. Whatever is read
still has the clauses of the text from left to right, each made of clean words,
and every connective as often as it is written (`parse_accounts`).
-/
import Criteria.Proofs.Assembly.Outcome
import Criteria.Proofs.Assembly.Reload

namespace Criteria

set_option autoImplicit false

open Token (CleanClause clauseTexts)

/-- The clauses of a text are made of its words. -/
theorem Token.cleanClause_of_mem_clauseTexts {text clause : String}
    (listed : clause ∈ clauseTexts (ofText text)) : CleanClause clause := by
  obtain ⟨words, segment, rfl⟩ := List.mem_map.1 listed
  obtain ⟨run, some⟩ := List.mem_filter.1 segment
  refine ⟨words, by simpa using some, ?_, rfl⟩
  intro lexeme member
  exact cleanWord_of_mem_ofText (word_mem_of_mem_runs run lexeme member)

namespace Rule

variable {text : String} {rule : Rule}

theorem clauses_of_parse (read : parse text = .ok rule) :
    rule.clauses = clauseTexts (Token.ofText text) := by
  obtain ⟨untagged, built, rfl⟩ := parse_eq_ok_iff.1 read
  have holds := ofTokens_holds built
  rw [clauses_retag, ← holds.clauses]
  exact (List.append_nil _).symm

theorem connectives_of_parse (read : parse text = .ok rule) :
    rule.connectives.Perm (Token.connectives (Token.ofText text)) := by
  obtain ⟨untagged, built, rfl⟩ := parse_eq_ok_iff.1 read
  have applied := (ofTokens_holds built).connectives
  rw [List.append_nil, List.flatMap_cons, List.flatMap_nil, List.append_nil] at applied
  rw [connectives_retag]
  exact applied

theorem clean_of_parse (read : parse text = .ok rule) : rule.Clean := by
  intro clause listed
  rw [clauses_of_parse read] at listed
  exact Token.cleanClause_of_mem_clauseTexts listed

/-- Nothing that a text says is lost, written twice or made up. -/
theorem parse_accounts (read : parse text = .ok rule) :
    rule.clauses = clauseTexts (Token.ofText text) ∧
      rule.connectives.Perm (Token.connectives (Token.ofText text)) ∧
      ∀ clause ∈ rule.clauses, CleanClause clause :=
  ⟨clauses_of_parse read, connectives_of_parse read, clean_of_parse read⟩

/-- One connective stands in front of its operands and one behind them. -/
theorem parse_accounts_outOfOrder :
    parse "or a) b > 1) (c And" =
        .ok (node 1 3 .and (node 2 2 .or (leaf 3 "a") (leaf 3 "b > 1")) (leaf 2 "c")) ∧
      ["a", "b > 1", "c"] = clauseTexts (Token.ofText "or a) b > 1) (c And") ∧
      [Connective.or, .and].Perm (Token.connectives (Token.ofText "or a) b > 1) (c And")) ∧
      ∀ clause ∈ ["a", "b > 1", "c"], CleanClause clause := by
  have cut : Token.ofText "or a) b > 1) (c And" = [.connective .or, .word "a", .closing,
      .word "b", .word ">", .word "1", .closing, .opening, .word "c", .connective .and] := by
    decide +kernel
  have read : parse "or a) b > 1) (c And" =
      .ok (node 1 3 .and (node 2 2 .or (leaf 3 "a") (leaf 3 "b > 1")) (leaf 2 "c")) := by
    rw [parse, cut]
    rfl
  exact ⟨read, parse_accounts read⟩

end Rule

end Criteria
