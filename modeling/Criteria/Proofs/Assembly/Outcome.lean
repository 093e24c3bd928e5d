/-
# Criteria.Proofs.Assembly.Outcome -- what each outcome says about the text

With S clauses and C connectives in a text there is one operand for each clause
and one less for each connective that has been applied. So the end of reading is
decided by S and C: one rule is left only if S = C + 1, and each fault has its
own relation between the two (`Explains`). No text fails in another way, and
since every fault needs such a relation, a text to which none applies is read.
-/
import Criteria.Proofs.Assembly.Content

namespace Criteria

set_option autoImplicit false

open Token (clauseTexts clauseCount connectiveCount)

namespace Assembly

variable {operands result : List Rule} {deferred applied : List Connective} {texts : List String}

/-! ## Applying what is deferred -/

theorem Holds.drain (holds : Holds operands deferred texts applied)
    (drained : Assembly.drain deferred operands = .ok result) : Holds result [] texts applied := by
  induction deferred generalizing operands with
  | nil => cases drained; exact holds
  | cons c deferred ih =>
      obtain ⟨next, reduced, others⟩ := bind_eq_ok_iff.1 drained
      exact ih (holds.reduce reduced) others

theorem Holds.drain_error (holds : Holds operands deferred texts applied) {error : Error}
    (failed : Assembly.drain deferred operands = .error error) :
    (operands.length ≤ deferred.length ∧ 1 ≤ deferred.length ∧
        error = .badStructure .missingOperand (min operands.length 1)) ∨
      maxHeight < texts.length ∧ ∃ n, 2 ≤ n ∧ error = .badStructure .tooDeep n := by
  induction deferred generalizing operands with
  | nil => cases failed
  | cons c deferred ih =>
      rcases bind_eq_error_iff.1 failed with here | ⟨next, reduced, later⟩
      · rcases reduce_eq_error here with ⟨few, rfl⟩ | ⟨right, left, below, rfl, tall, rfl⟩
        · refine .inl ⟨?_, ?_, ?_⟩
          · simp only [List.length_cons]; omega
          · simp only [List.length_cons]; omega
          · rw [Nat.min_eq_left (by omega)]
        · exact .inr ⟨holds.maxHeight_lt tall, _, by simp, rfl⟩
      · have next := ih (holds.reduce reduced) later
        obtain ⟨right, left, below, rule, rfl, -, rfl⟩ := reduce_eq_ok_iff.1 reduced
        rcases next with ⟨few, -, same⟩ | tall
        · refine .inl ⟨?_, ?_, ?_⟩
          · simp only [List.length_cons] at few ⊢; omega
          · simp only [List.length_cons]; omega
          · rw [same]
            simp
        · exact .inr tall

theorem Holds.finish {a : Assembly} {rule : Rule}
    (holds : Holds a.endClause.operands a.deferred texts applied) (finished : a.finish = .ok rule) :
    Holds [rule] [] texts applied :=
  holds.drain (finish_eq_ok_iff.1 finished)

end Assembly

namespace Rule

open Assembly

/-- Whatever is read contains the clauses of the text in order, and its connectives. -/
theorem ofTokens_holds {tokens : List Token} {rule : Rule} (read : ofTokens tokens = .ok rule) :
    Holds [rule] [] (clauseTexts tokens) (Token.connectives tokens) := by
  obtain ⟨a, run, finished⟩ := ofTokens_eq_ok_iff.1 read
  exact (holds_of_run run).finish finished

theorem parse_sound {text : String} {rule : Rule} (read : parse text = .ok rule) : rule.Sound := by
  obtain ⟨untagged, built, rfl⟩ := parse_eq_ok_iff.1 read
  exact ((ofTokens_holds built).sound untagged List.mem_cons_self).retag _

/-! ## Faults -/

/-- What a fault, found with so many operands at hand, says about the tokens. -/
def Explains (tokens : List Token) : StructureFault → Nat → Prop
  | .noExpression, operands =>
      clauseCount tokens = 0 ∧ connectiveCount tokens = 0 ∧ operands = 0
  | .missingOperand, operands =>
      1 ≤ connectiveCount tokens ∧ clauseCount tokens ≤ connectiveCount tokens ∧
        operands = min (clauseCount tokens) 1
  | .surplusOperands, operands =>
      connectiveCount tokens + 2 ≤ clauseCount tokens ∧
        operands = clauseCount tokens - connectiveCount tokens
  | .unmatchedClosing, operands =>
      ∃ before after, tokens = before ++ .closing :: after ∧
        connectiveCount before + 2 ≤ clauseCount before ∧
        operands = clauseCount before - connectiveCount before
  | .tooDeep, operands => maxHeight < clauseCount tokens ∧ 2 ≤ operands

theorem balance_of_run {a : Assembly} {tokens : List Token}
    (run : tokens.foldlM Assembly.take start = .ok a) :
    clauseCount tokens + a.deferred.length =
      a.endClause.operands.length + connectiveCount tokens := by
  rw [← Token.length_clauseTexts]
  exact (holds_of_run run).balance

/-- A token is refused for what stands in front of it. -/
theorem take_explains {a : Assembly} {before after : List Token} {token : Token} {error : Error}
    (run : before.foldlM Assembly.take start = .ok a) (refused : a.take token = .error error) :
    ∃ fault operands, error = .badStructure fault operands ∧
      Explains (before ++ token :: after) fault operands := by
  have holds := holds_of_run run
  have balance := balance_of_run run
  rcases take_eq_error refused with ⟨rfl, idle, enough, rfl⟩ | ⟨ends, enough, c, failed⟩
  · rw [idle] at balance
    simp only [List.length_nil] at balance
    exact ⟨.unmatchedClosing, _, rfl, before, after, rfl, by omega, by omega⟩
  · rcases reduce_eq_error failed with ⟨few, -⟩ | ⟨right, left, below, same, tall, rfl⟩
    · omega
    · refine ⟨.tooDeep, _, rfl, ?_, enough⟩
      rw [same] at holds
      have many := holds.maxHeight_lt tall
      rw [Token.length_clauseTexts] at many
      exact Nat.lt_of_lt_of_le many (Token.clauseCount_le_append_end ends before after)

/-- The end of a text is refused for the whole of it. -/
theorem finish_explains {a : Assembly} {tokens : List Token} {error : Error}
    (run : tokens.foldlM Assembly.take start = .ok a) (refused : a.finish = .error error) :
    ∃ fault operands, error = .badStructure fault operands ∧ Explains tokens fault operands := by
  have holds := holds_of_run run
  have balance := balance_of_run run
  have none := holds.operands_eq_nil_iff
  have applied := holds.connectives.length_eq
  rw [Token.length_clauseTexts] at none
  rw [List.length_append] at applied
  rcases finish_eq_error_iff.1 refused with failed | ⟨left, drained, wrong⟩
  · rcases holds.drain_error failed with ⟨few, waiting, rfl⟩ | ⟨tall, n, enough, rfl⟩
    · have same : min a.endClause.operands.length 1 = min (clauseCount tokens) 1 := by
        rw [← List.length_eq_zero_iff] at none
        omega
      refine ⟨.missingOperand, _, rfl, ?_, by omega, same⟩
      rw [connectiveCount]
      omega
    · rw [Token.length_clauseTexts] at tall
      exact ⟨.tooDeep, n, rfl, tall, enough⟩
  · have rest := holds.drain drained
    have restBalance := rest.balance
    have restNone := rest.operands_eq_nil_iff
    rw [Token.length_clauseTexts] at restBalance restNone
    simp only [List.length_nil, Nat.add_zero] at restBalance
    rcases wrong with ⟨rfl, rfl⟩ | ⟨two, rfl⟩
    · have empty := restNone.1 rfl
      simp only [List.length_nil] at restBalance
      refine ⟨.noExpression, 0, rfl, empty, ?_, rfl⟩
      rw [connectiveCount]
      omega
    · refine ⟨.surplusOperands, _, rfl, ?_, ?_⟩
      · rw [connectiveCount]
        omega
      · rw [connectiveCount]
        omega

theorem ofTokens_explains {tokens : List Token} {error : Error}
    (refused : ofTokens tokens = .error error) :
    ∃ fault operands, error = .badStructure fault operands ∧ Explains tokens fault operands := by
  rcases ofTokens_eq_error_iff.1 refused with failed | ⟨a, run, failed⟩
  · obtain ⟨before, token, after, a, rfl, run, failed⟩ := foldlM_eq_error failed
    exact take_explains run failed
  · exact finish_explains run failed

theorem parse_explains {text : String} {error : Error} (refused : parse text = .error error) :
    ∃ fault operands, error = .badStructure fault operands ∧
      Explains (Token.ofText text) fault operands :=
  ofTokens_explains (parse_eq_error_iff.1 refused)

theorem clauseCount_of_parse {text : String} {rule : Rule} (read : parse text = .ok rule) :
    clauseCount (Token.ofText text) = connectiveCount (Token.ofText text) + 1 := by
  obtain ⟨untagged, built, -⟩ := parse_eq_ok_iff.1 read
  have balance := (ofTokens_holds built).balance
  rw [Token.length_clauseTexts] at balance
  simp only [List.length_nil, List.length_singleton, Nat.add_zero] at balance
  rw [balance, connectiveCount, Nat.add_comm]

/-- No closing parenthesis is met while two clauses more than connectives have
been read. -/
def ClosesInTime (tokens : List Token) : Prop :=
  ∀ before after, tokens = before ++ .closing :: after →
    clauseCount before < connectiveCount before + 2

/-- Every way in which the reading of a text ends, told by counting its clauses
and connectives, and what is said where it fails. -/
theorem parse_outcome (text : String) :
    (∀ rule, parse text = .ok rule →
      clauseCount (Token.ofText text) = connectiveCount (Token.ofText text) + 1) ∧
    (∀ error, parse text = .error error → ∃ fault operands,
      error = .badStructure fault operands ∧ Explains (Token.ofText text) fault operands) ∧
    (parse text = .error (.badStructure .noExpression 0) ↔
      clauseCount (Token.ofText text) = 0 ∧ connectiveCount (Token.ofText text) = 0) ∧
    (clauseCount (Token.ofText text) = connectiveCount (Token.ofText text) + 1 →
      clauseCount (Token.ofText text) ≤ maxHeight → ClosesInTime (Token.ofText text) →
      ∃ rule, parse text = .ok rule) ∧
    StructureFault.noExpression.reason = "no expression found" ∧
    StructureFault.missingOperand.reason = "connective is missing an operand" ∧
    StructureFault.surplusOperands.reason = "too many operands" ∧
    StructureFault.unmatchedClosing.reason =
      "closing parenthesis without a pending connective" ∧
    StructureFault.tooDeep.reason = "rule nests too deeply" ∧
    ∀ fault operands, (Error.badStructure fault operands).message? =
      some ("Invalid rule structure: " ++ fault.reason ++
        " (" ++ toString operands ++ " operands on stack)") := by
  refine ⟨?_, ?_, ⟨?_, ?_⟩, ?_, rfl, rfl, rfl, rfl, rfl, fun _ _ => rfl⟩
  · intro rule read
    exact clauseCount_of_parse read
  · intro error refused
    exact parse_explains refused
  · intro refused
    obtain ⟨fault, operands, same, explains⟩ := parse_explains refused
    cases same
    exact ⟨explains.1, explains.2.1⟩
  · rintro ⟨noClause, noConnective⟩
    cases outcome : parse text with
    | ok rule =>
        have := clauseCount_of_parse outcome
        omega
    | error error =>
        obtain ⟨fault, operands, rfl, explains⟩ := parse_explains outcome
        cases fault with
        | noExpression => rw [explains.2.2]
        | missingOperand => have := explains.1; omega
        | surplusOperands => have := explains.1; omega
        | tooDeep => have := explains.1; omega
        | unmatchedClosing =>
            -- two clauses in front of the parenthesis are two clauses of the text
            obtain ⟨before, after, same, enough, -⟩ := explains
            have ends : Token.endsClause .closing := rfl
            have := Token.clauseCount_le_append_end ends before after
            rw [← same] at this
            omega
  · intro balanced few inTime
    cases outcome : parse text with
    | ok rule => exact ⟨rule, rfl⟩
    | error error =>
        exfalso
        obtain ⟨fault, operands, rfl, explains⟩ := parse_explains outcome
        cases fault with
        | noExpression => have := explains.1; omega
        | missingOperand => have := explains.2.1; omega
        | surplusOperands => have := explains.1; omega
        | tooDeep => have := explains.1; omega
        | unmatchedClosing =>
            obtain ⟨before, after, same, enough, -⟩ := explains
            have := inTime before after same
            omega

end Rule

end Criteria
