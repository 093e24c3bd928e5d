/-
# Criteria.Proofs.Assembly.Content -- nothing is lost on the two stacks

`Holds` says what two stacks contain: sound rules whose clauses, from the oldest
operand to the newest, are the given ones, and the given connectives in some
order, applied or deferred. Reducing keeps it (`Holds.reduce`), whichever
operands a connective is applied to.

`Reads` is the invariant of a run: what a state holds, together with the words
under way and any tokens to come, makes the clauses of the whole text. From it
follows how many operands there are at each moment (`Holds.balance`), and that a
rule too tall takes more clauses than `maxHeight` (`Holds.maxHeight_lt`).
-/
import Criteria.Proofs.Assembly.Step
import Criteria.Proofs.Rule.Levels

namespace Criteria.Assembly

set_option autoImplicit false

open Token (clauseTexts connectives segments endsClause)

/-- The clauses of a stack of operands, the oldest operand first. -/
def clausesOf (operands : List Rule) : List String := operands.reverse.flatMap Rule.clauses

/-- The words under way, as the tokens they came from. -/
def pending (a : Assembly) : List Token := a.words.reverse.map .word

/-- The two stacks contain these clauses in this order, and these connectives. -/
structure Holds (operands : List Rule) (deferred : List Connective) (texts : List String)
    (applied : List Connective) : Prop where
  sound : ∀ rule ∈ operands, rule.Sound
  clauses : clausesOf operands = texts
  connectives : (operands.flatMap Rule.connectives ++ deferred).Perm applied

theorem clausesOf_cons (rule : Rule) (below : List Rule) :
    clausesOf (rule :: below) = clausesOf below ++ rule.clauses := by
  simp [clausesOf]

variable {operands result : List Rule} {deferred applied : List Connective} {texts : List String}

namespace Holds

theorem empty : Holds [] [] [] [] where
  sound := by simp
  clauses := rfl
  connectives := .refl _

theorem push (holds : Holds operands deferred texts applied) (clause : String) :
    Holds (Rule.ofClause clause :: operands) deferred (texts ++ [clause]) applied where
  sound := by simpa using ⟨Rule.sound_ofClause clause, holds.sound⟩
  clauses := by rw [clausesOf_cons, holds.clauses]; rfl
  connectives := holds.connectives

theorem defer (holds : Holds operands deferred texts applied) (c : Connective) :
    Holds operands (c :: deferred) texts (applied ++ [c]) where
  sound := holds.sound
  clauses := holds.clauses
  connectives := by
    have moved : (operands.flatMap Rule.connectives ++ c :: deferred).Perm
        (operands.flatMap Rule.connectives ++ deferred ++ [c]) := by
      rw [List.append_assoc]
      exact (List.perm_append_singleton c deferred).symm.append_left _
    exact moved.trans (holds.connectives.append_right [c])

/-- Applying a connective changes neither the clauses nor the connectives. -/
theorem reduce {c : Connective} (holds : Holds operands (c :: deferred) texts applied)
    (reduced : Assembly.reduce c operands = .ok result) : Holds result deferred texts applied := by
  obtain ⟨right, left, below, rule, rfl, joined, rfl⟩ := reduce_eq_ok_iff.1 reduced
  have soundRight := holds.sound right (by simp)
  have soundLeft := holds.sound left (by simp)
  refine ⟨?_, ?_, ?_⟩
  · have soundBelow : ∀ other ∈ below, other.Sound := by
      intro other member
      apply holds.sound
      simp [member]
    simpa using ⟨soundLeft.join soundRight joined, soundBelow⟩
  · obtain ⟨-, rfl⟩ := Rule.join_eq_ok_iff.1 joined
    rw [← holds.clauses]
    simp [clausesOf_cons, Rule.clauses]
  · obtain ⟨-, rfl⟩ := Rule.join_eq_ok_iff.1 joined
    -- the connective moves from the deferred ones into the rule, so only counts agree
    refine List.Perm.trans ?_ holds.connectives
    rw [List.perm_iff_count]
    intro other
    simp only [List.flatMap_cons, Rule.connectives, List.count_append, List.count_cons]
    omega

theorem length_texts (holds : Holds operands deferred texts applied) :
    texts.length = (operands.flatMap Rule.connectives).length + operands.length := by
  rw [← holds.clauses]
  clear holds
  induction operands with
  | nil => rfl
  | cons rule below ih =>
      have := rule.length_clauses
      simp only [clausesOf_cons, List.length_append, List.flatMap_cons, List.length_cons] at ih ⊢
      omega

/-- Every clause adds an operand and every connective takes one away, if not now
then when it is applied. -/
theorem balance (holds : Holds operands deferred texts applied) :
    texts.length + deferred.length = operands.length + applied.length := by
  have := holds.length_texts
  have := holds.connectives.length_eq
  rw [List.length_append] at this
  omega

theorem operands_eq_nil_iff (holds : Holds operands deferred texts applied) :
    operands = [] ↔ texts.length = 0 := by
  constructor
  · rintro rfl
    simp [← holds.clauses, clausesOf]
  · intro none
    have := holds.length_texts
    exact List.length_eq_zero_iff.1 (by omega)

/-- Two operands that make too tall a rule contain more clauses than levels are
allowed. -/
theorem maxHeight_lt {left right : Rule} {below : List Rule}
    (holds : Holds (right :: left :: below) deferred texts applied)
    (tall : maxHeight < 1 + max left.height right.height) : maxHeight < texts.length := by
  have soundRight := holds.sound right (by simp)
  have soundLeft := holds.sound left (by simp)
  have low := soundLeft.height_join_le soundRight
  rw [← holds.clauses]
  simp only [clausesOf_cons, List.length_append]
  omega

end Holds

/-! ## A run of tokens -/

theorem clauseTexts_pending (a : Assembly) : clauseTexts a.pending =
    if a.words = [] then [] else [" ".intercalate a.words.reverse] := by
  rw [clauseTexts, pending, Token.segments_words]
  by_cases none : a.words = [] <;> simp [none]

theorem Holds.endClause {a : Assembly} (holds : Holds a.operands a.deferred texts applied) :
    Holds a.endClause.operands a.deferred (texts ++ clauseTexts a.pending) applied := by
  rw [clauseTexts_pending, Assembly.endClause]
  split
  · rw [List.append_nil]; exact holds
  · exact holds.push _

/-- What has been read is on the stacks or among the words under way. -/
structure Reads (a : Assembly) (read : List Token) : Prop where
  holds : Holds a.operands a.deferred (clausesOf a.operands) (connectives read)
  whole : ∀ rest, clausesOf a.operands ++ clauseTexts (a.pending ++ rest) =
    clauseTexts (read ++ rest)

theorem reads_start : Reads start [] where
  holds := Holds.empty
  whole _ := rfl

namespace Reads

variable {a b : Assembly} {read tokens : List Token} {token : Token}

/-- Once the clause under way is ended, the stacks hold all that has been read. -/
theorem ended (reads : Reads a read) :
    Holds a.endClause.operands a.deferred (clauseTexts read) (connectives read) := by
  have same := reads.whole []
  rw [List.append_nil, List.append_nil] at same
  rw [← same]
  exact reads.holds.endClause

/-- Behind the end of a clause, stacks that hold all that has been read account
for it. -/
theorem of_holds (ends : endsClause token)
    (holds : Holds operands deferred (clauseTexts read) (connectives (read ++ [token]))) :
    Reads ⟨operands, deferred, []⟩ (read ++ [token]) where
  holds := by
    rw [holds.clauses]
    exact holds
  whole rest := by
    rw [List.append_assoc, List.singleton_append, Token.clauseTexts_append_end ends, ← holds.clauses]
    rfl

theorem take (reads : Reads a read) (taken : a.take token = .ok b) : Reads b (read ++ [token]) := by
  have ended := reads.ended
  have closing : connectives (read ++ [.closing]) = connectives read := by
    rw [Token.connectives_snoc]
    exact List.append_nil _
  have connective (c : Connective) :
      connectives (read ++ [.connective c]) = connectives read ++ [c] := Token.connectives_snoc _ _
  cases take_eq_ok_iff.1 taken with
  | opening =>
      refine ⟨?_, ?_⟩
      · rw [Token.connectives_snoc]
        simpa [Token.connective?] using reads.holds
      · intro rest
        rw [reads.whole rest, List.append_assoc, List.singleton_append,
          Token.clauseTexts_append_opening]
  | word text =>
      refine ⟨?_, ?_⟩
      · rw [Token.connectives_snoc]
        simpa [Token.connective?] using reads.holds
      · intro rest
        rw [List.append_assoc, List.singleton_append, ← reads.whole]
        simp [pending]
  | ignored _ =>
      rw [← closing] at ended
      have ends : endsClause .closing := rfl
      have reads := of_holds ends ended
      rwa [← a.endClause_words, ← a.endClause_deferred] at reads
  | closed waiting reduced =>
      rw [waiting] at ended
      exact of_holds rfl (closing ▸ ended.reduce reduced)
  | @putOff c _ => exact of_holds rfl (connective c ▸ ended.defer c)
  | @applied c _ idle reduced =>
      rw [idle] at ended
      exact of_holds rfl (connective c ▸ (ended.defer c).reduce reduced)

theorem run (reads : Reads a read) (taken : tokens.foldlM Assembly.take a = .ok b) :
    Reads b (read ++ tokens) := by
  induction tokens generalizing a read with
  | nil => cases taken; rw [List.append_nil]; exact reads
  | cons token tokens ih =>
      obtain ⟨next, first, others⟩ := foldlM_cons_eq_ok_iff.1 taken
      have := ih (reads.take first) others
      rwa [List.append_assoc] at this

end Reads

/-- At the end of a run the stacks hold the clauses and the connectives read. -/
theorem holds_of_run {a : Assembly} {tokens : List Token}
    (taken : tokens.foldlM take start = .ok a) :
    Holds a.endClause.operands a.deferred (clauseTexts tokens) (connectives tokens) :=
  (reads_start.run taken).ended

end Criteria.Assembly
