/-
# Criteria.Proofs.Assembly.Infix -- parentheses never reorder an infix text

A text is infix when its clauses and connectives alternate, however parentheses
are strewn over it, as long as none closes between a connective and the clause
behind it (`infixTokens`). In such a text there is always one operand more than
deferred connectives, and both stacks read together from the bottom up give the
text so far (`Aligned`). Reducing the two newest operands keeps that reading, so
every closing parenthesis does, and so does applying what is left at the end.
-/
import Criteria.Proofs.Assembly.Step
import Criteria.Proofs.Rule.Levels

namespace Criteria

set_option autoImplicit false

namespace Token

/-! ## Infix texts -/

/-- The words of a clause, and the closing parentheses behind them. -/
structure Operand where
  words : List String
  words_ne_nil : words ≠ []
  closings : Nat

namespace Operand

def clause (operand : Operand) : String := " ".intercalate operand.words

def tokens (operand : Operand) : List Token :=
  operand.words.map word ++ List.replicate operand.closings closing

end Operand

/-- Connectives, each with an operand directly behind it. -/
def linkTokens : List (Connective × Operand) → List Token
  | [] => []
  | (c, operand) :: rest => connective c :: (operand.tokens ++ linkTokens rest)

/-- An infix text that starts with its first clause. -/
def infixTokens (first : Operand) (rest : List (Connective × Operand)) : List Token :=
  first.tokens ++ linkTokens rest

def linkReading : List (Connective × Operand) → List (String ⊕ Connective)
  | [] => []
  | (c, operand) :: rest => .inr c :: .inl operand.clause :: linkReading rest

/-- The clauses and connectives of an infix text, in order. -/
def infixReading (first : Operand) (rest : List (Connective × Operand)) :
    List (String ⊕ Connective) :=
  .inl first.clause :: linkReading rest

end Token

namespace Assembly

open Token (Operand infixTokens infixReading linkTokens linkReading)

/-! ## What the stacks read -/

/-- The clauses of a reading. -/
def leaves (reading : List (String ⊕ Connective)) : List String :=
  reading.filterMap Sum.getLeft?

theorem leaves_append (first second : List (String ⊕ Connective)) :
    leaves (first ++ second) = leaves first ++ leaves second :=
  List.filterMap_append

theorem leaves_inorder (rule : Rule) : leaves rule.inorder = rule.clauses :=
  rule.clauses_eq_inorder.symm

theorem leaves_join (left right : Rule) (c : Connective) :
    leaves (left.inorder ++ .inr c :: right.inorder) = left.clauses ++ right.clauses := by
  rw [leaves_append, leaves_inorder, ← leaves_inorder right]
  rfl

theorem length_leaves_infixReading (first : Operand) (rest : List (Connective × Operand)) :
    (leaves (infixReading first rest)).length = rest.length + 1 := by
  have links : (leaves (linkReading rest)).length = rest.length := by
    induction rest with
    | nil => rfl
    | cons link rest ih => exact congrArg Nat.succ ih
  exact congrArg Nat.succ links

/-- From the bottom up, operands and deferred connectives alternate and read so. -/
inductive Aligned : List Rule → List Connective → List (String ⊕ Connective) → Prop
  | one {rule : Rule} (sound : rule.Sound) : Aligned [rule] [] rule.inorder
  | more {operands : List Rule} {deferred : List Connective} {reading : List (String ⊕ Connective)}
      {c : Connective} {rule : Rule} (below : Aligned operands deferred reading)
      (sound : rule.Sound) :
      Aligned (rule :: operands) (c :: deferred) (reading ++ .inr c :: rule.inorder)

/-- Rules with few clauses between them can be joined. -/
theorem join_of_few {c : Connective} {left right : Rule} (soundLeft : left.Sound)
    (soundRight : right.Sound) (few : left.clauses.length + right.clauses.length ≤ maxHeight) :
    Rule.join c left right = .ok (.node 0 (1 + max left.height right.height) c left right) := by
  have low := soundLeft.height_join_le soundRight
  apply Rule.join_eq_ok_iff.2
  exact ⟨Nat.le_trans low few, rfl⟩

namespace Aligned

variable {operands : List Rule} {deferred : List Connective} {c : Connective}
  {reading : List (String ⊕ Connective)}

theorem length_eq (aligned : Aligned operands deferred reading) :
    operands.length = deferred.length + 1 := by
  induction aligned with
  | one => rfl
  | more below sound ih => rw [List.length_cons, List.length_cons, ih]

/-- Applying the newest connective changes the grouping and nothing else. -/
theorem reduce (aligned : Aligned operands (c :: deferred) reading)
    (few : (leaves reading).length ≤ maxHeight) :
    ∃ result, Assembly.reduce c operands = .ok result ∧ Aligned result deferred reading := by
  cases aligned with
  | @more _ _ _ _ right below soundRight =>
      -- below the two operands there is either nothing or another connective
      cases below with
      | @one left soundLeft =>
          rw [leaves_join, List.length_append] at few
          have joined := join_of_few (c := c) soundLeft soundRight few
          exact ⟨_, reduce_eq_ok_iff.2 ⟨right, left, [], _, rfl, joined, rfl⟩,
            .one (soundLeft.join soundRight joined)⟩
      | @more operands deferred lower b left below soundLeft =>
          have grouped : (lower ++ .inr b :: left.inorder) ++ .inr c :: right.inorder =
              lower ++ .inr b :: (left.inorder ++ .inr c :: right.inorder) :=
            List.append_assoc _ _ _
          have clauses : leaves (lower ++ .inr b :: (left.inorder ++ .inr c :: right.inorder)) =
              leaves lower ++ (left.clauses ++ right.clauses) := by
            rw [leaves_append, ← leaves_join left right c]
            rfl
          rw [grouped, clauses, List.length_append, List.length_append] at few
          have joined := join_of_few (c := c) soundLeft soundRight (by omega)
          refine ⟨_, reduce_eq_ok_iff.2 ⟨right, left, operands, _, rfl, joined, rfl⟩, ?_⟩
          rw [grouped]
          exact .more below (soundLeft.join soundRight joined)

theorem drain (aligned : Aligned operands deferred reading)
    (few : (leaves reading).length ≤ maxHeight) :
    ∃ rule, Assembly.drain deferred operands = .ok [rule] ∧ rule.inorder = reading := by
  induction deferred generalizing operands with
  | nil =>
      cases aligned with
      | @one rule => exact ⟨rule, rfl, rfl⟩
  | cons c deferred ih =>
      obtain ⟨result, reduced, kept⟩ := aligned.reduce few
      obtain ⟨rule, drained, same⟩ := ih kept
      exact ⟨rule, bind_eq_ok_iff.2 ⟨result, reduced, drained⟩, same⟩

end Aligned

/-! ## Runs over an infix text -/

/-- What a state reads once the clause under way is ended. -/
def ReadsAs (a : Assembly) (reading : List (String ⊕ Connective)) : Prop :=
  Aligned a.endClause.operands a.deferred reading

variable {a : Assembly} {reading : List (String ⊕ Connective)}

theorem ReadsAs.close (reads : a.ReadsAs reading) (few : (leaves reading).length ≤ maxHeight) :
    ∃ b, a.take .closing = .ok b ∧ b.ReadsAs reading := by
  cases waiting : a.deferred with
  | nil =>
      have single : a.endClause.operands.length < 2 := by
        rw [reads.length_eq, waiting]
        exact Nat.one_lt_two
      refine ⟨a.endClause, take_eq_ok_iff.2 (.ignored single), ?_⟩
      rw [ReadsAs, endClause_endClause, endClause_deferred]
      exact reads
  | cons c deferred =>
      rw [ReadsAs, waiting] at reads
      obtain ⟨result, reduced, kept⟩ := reads.reduce few
      exact ⟨⟨result, deferred, []⟩, take_eq_ok_iff.2 (.closed waiting reduced), kept⟩

theorem ReadsAs.closings (reads : a.ReadsAs reading) (few : (leaves reading).length ≤ maxHeight)
    (n : Nat) : ∃ b, (List.replicate n Token.closing).foldlM take a = .ok b ∧ b.ReadsAs reading :=
  foldlM_take_closings (fun _ reads => ReadsAs.close reads few) reads n

/-- An operand is put on top of the stack, which is then closed some times. -/
theorem run_operand {operands : List Rule} {deferred : List Connective} (operand : Operand)
    (aligned : Aligned (Rule.ofClause operand.clause :: operands) deferred reading)
    (few : (leaves reading).length ≤ maxHeight) :
    ∃ b, operand.tokens.foldlM take ⟨operands, deferred, []⟩ = .ok b ∧ b.ReadsAs reading := by
  have collected := foldlM_take_words ⟨operands, deferred, []⟩ operand.words
  rw [List.append_nil] at collected
  have reads : (Assembly.mk operands deferred operand.words.reverse).ReadsAs reading := by
    have some : operand.words.reverse ≠ [] := by simpa using operand.words_ne_nil
    rw [ReadsAs, endClause, if_neg some, List.reverse_reverse]
    exact aligned
  obtain ⟨b, closed, reads⟩ := reads.closings few operand.closings
  exact ⟨b, foldlM_append_eq_ok_iff.2 ⟨_, collected, closed⟩, reads⟩

theorem ReadsAs.link (reads : a.ReadsAs reading) (c : Connective) (operand : Operand)
    (few : (leaves (reading ++ [.inr c, .inl operand.clause])).length ≤ maxHeight) :
    ∃ b, (Token.connective c :: operand.tokens).foldlM take a = .ok b ∧
      b.ReadsAs (reading ++ [.inr c, .inl operand.clause]) := by
  have putOff := take_connective reads.length_eq c
  have aligned := reads.more (c := c) (Rule.sound_ofClause operand.clause)
  obtain ⟨b, others, reads⟩ := run_operand operand aligned few
  exact ⟨b, (foldlM_take_cons putOff).trans others, reads⟩

theorem ReadsAs.links (reads : a.ReadsAs reading) (rest : List (Connective × Operand))
    (few : (leaves (reading ++ linkReading rest)).length ≤ maxHeight) :
    ∃ b, (linkTokens rest).foldlM take a = .ok b ∧ b.ReadsAs (reading ++ linkReading rest) := by
  induction rest generalizing a reading with
  | nil => exact ⟨a, rfl, by rw [linkReading, List.append_nil]; exact reads⟩
  | cons link rest ih =>
      obtain ⟨c, operand⟩ := link
      have split : reading ++ linkReading ((c, operand) :: rest) =
          (reading ++ [.inr c, .inl operand.clause]) ++ linkReading rest := by
        rw [List.append_assoc]
        rfl
      rw [split] at few ⊢
      have fewHere : (leaves (reading ++ [.inr c, .inl operand.clause])).length ≤ maxHeight := by
        rw [leaves_append, List.length_append] at few
        omega
      obtain ⟨next, linked, reads⟩ := reads.link c operand fewHere
      obtain ⟨b, others, reads⟩ := ih reads few
      exact ⟨b, foldlM_append_eq_ok_iff.2 ⟨next, linked, others⟩, reads⟩

theorem run_closings (n : Nat) : (List.replicate n Token.closing).foldlM take start = .ok start := by
  obtain ⟨a, closed, rfl⟩ :=
    foldlM_take_closings (motive := (· = start)) (by rintro a rfl; exact ⟨start, rfl, rfl⟩) rfl n
  exact closed

theorem ReadsAs.finish (reads : a.ReadsAs reading) (few : (leaves reading).length ≤ maxHeight) :
    ∃ rule, a.finish = .ok rule ∧ rule.inorder = reading := by
  obtain ⟨rule, drained, same⟩ := reads.drain few
  exact ⟨rule, finish_eq_ok_iff.2 drained, same⟩

end Assembly

namespace Rule

open Assembly
open Token (Operand infixTokens infixReading)

theorem ofTokens_infix (before : Nat) (first : Operand) (rest : List (Connective × Operand))
    (few : (leaves (infixReading first rest)).length ≤ maxHeight) :
    ∃ rule, ofTokens (List.replicate before .closing ++ infixTokens first rest) = .ok rule ∧
      rule.inorder = infixReading first rest := by
  have one : (leaves (ofClause first.clause).inorder).length ≤ maxHeight :=
    Nat.one_le_iff_ne_zero.2 (by decide)
  obtain ⟨a, ran, reads⟩ := run_operand first (.one (sound_ofClause first.clause)) one
  obtain ⟨b, others, reads⟩ := reads.links rest few
  obtain ⟨rule, finished, same⟩ := reads.finish few
  have run : (List.replicate before Token.closing ++ infixTokens first rest).foldlM take start =
      .ok b :=
    foldlM_append_eq_ok_iff.2 ⟨start, run_closings before,
      foldlM_append_eq_ok_iff.2 ⟨a, ran, others⟩⟩
  exact ⟨rule, ofTokens_eq_ok_iff.2 ⟨b, run, finished⟩, same⟩

/-- However parentheses are placed in an infix text, what is read from it has the
clauses and connectives of the text in their order. -/
theorem parse_infix {text : String} {before : Nat} {first : Operand}
    {rest : List (Connective × Operand)}
    (shape : (Token.ofText text).filter (· ≠ .opening) =
      List.replicate before .closing ++ infixTokens first rest)
    (few : rest.length + 1 ≤ maxHeight) :
    ∃ rule, parse text = .ok rule ∧ rule.inorder = infixReading first rest := by
  have fewLeaves : (leaves (infixReading first rest)).length ≤ maxHeight := by
    rw [length_leaves_infixReading]
    exact few
  obtain ⟨untagged, read, same⟩ := ofTokens_infix before first rest fewLeaves
  have unfiltered : ofTokens (Token.ofText text) = .ok untagged := by
    rw [← ofTokens_filter, shape]
    exact read
  refine ⟨untagged.retag rootTag, parse_eq_ok_iff.2 ⟨untagged, unfiltered, rfl⟩, ?_⟩
  rw [inorder_retag, same]

/-- Three closing parentheses too many, and one that is never closed. -/
theorem parse_infix_unbalanced :
    ∃ rule, parse ") a > 1 )) OR ( b AND c )" = .ok rule ∧
      rule.inorder = [.inl "a > 1", .inr .or, .inl "b", .inr .and, .inl "c"] := by
  have shape : (Token.ofText ") a > 1 )) OR ( b AND c )").filter (· ≠ .opening) =
      List.replicate 1 .closing ++ infixTokens ⟨["a", ">", "1"], by decide, 2⟩
        [(.or, ⟨["b"], by decide, 0⟩), (.and, ⟨["c"], by decide, 1⟩)] := by decide +kernel
  exact parse_infix shape (by decide)

end Rule

end Criteria
