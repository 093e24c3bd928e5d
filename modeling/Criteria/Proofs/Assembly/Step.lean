/-
# Criteria.Proofs.Assembly.Step -- everything one token can do

`Step` lists what a token may do to a state, one constructor for each way, and
`take_eq_ok_iff` says that `take` does just that. Whatever a run of tokens keeps
is proved by cases on `Step`; nothing else looks into `take`, `connect` or
`close`. `take_eq_error` lists the two ways in which a token is refused, and
`finish_eq_ok_iff` and `finish_eq_error_iff` say what the end of a text does.
-/
import Criteria.Assembly
import Criteria.Proofs.Refusal
import Criteria.Proofs.Token.Segments

namespace Criteria.Assembly

set_option autoImplicit false

/-! ## One reduction -/

theorem reduce_eq_ok_iff {c : Connective} {operands result : List Rule} :
    reduce c operands = .ok result ↔ ∃ right left below rule,
      operands = right :: left :: below ∧ Rule.join c left right = .ok rule ∧
        result = rule :: below := by
  rcases operands with _ | ⟨right, _ | ⟨left, below⟩⟩
  · simp [reduce]
  · simp [reduce]
  · cases joined : Rule.join c left right with
    | error error =>
        simp only [reduce, joined, reduceCtorEq, false_iff]
        rintro ⟨_, _, _, rule, same, joined', -⟩
        cases same
        simp [joined] at joined'
    | ok rule =>
        simp only [reduce, joined, Except.ok.injEq]
        constructor
        · rintro rfl; exact ⟨right, left, below, rule, rfl, joined, rfl⟩
        · rintro ⟨_, _, _, rule', same, joined', rfl⟩
          cases same
          rw [joined] at joined'
          cases joined'
          rfl

theorem reduce_eq_error {c : Connective} {operands : List Rule} {error : Error}
    (failed : reduce c operands = .error error) :
    (operands.length < 2 ∧ error = .badStructure .missingOperand operands.length) ∨
      ∃ right left below, operands = right :: left :: below ∧
        maxHeight < 1 + max left.height right.height ∧
        error = .badStructure .tooDeep operands.length := by
  rcases operands with _ | ⟨right, _ | ⟨left, below⟩⟩
  · cases failed; exact .inl ⟨Nat.zero_lt_two, rfl⟩
  · cases failed; exact .inl ⟨Nat.one_lt_two, rfl⟩
  · cases joined : Rule.join c left right with
    | error error =>
        simp only [reduce, joined, Except.error.injEq] at failed
        exact .inr ⟨right, left, below, rfl, (Rule.join_eq_error_iff.1 joined).1, failed.symm⟩
    | ok rule => simp [reduce, joined] at failed

/-! ## Ending a clause -/

@[simp] theorem endClause_words (a : Assembly) : a.endClause.words = [] := by
  unfold endClause
  split
  · assumption
  · rfl

@[simp] theorem endClause_deferred (a : Assembly) : a.endClause.deferred = a.deferred := by
  unfold endClause
  split <;> rfl

theorem endClause_of_words_eq_nil {a : Assembly} (ended : a.words = []) : a.endClause = a :=
  if_pos ended

@[simp] theorem endClause_endClause (a : Assembly) : a.endClause.endClause = a.endClause :=
  endClause_of_words_eq_nil a.endClause_words

/-! ## One token -/

/-- What a token does to a state that takes it. -/
inductive Step : Assembly → Token → Assembly → Prop
  | opening (a : Assembly) : Step a .opening a
  | word (a : Assembly) (text : String) : Step a (.word text) { a with words := text :: a.words }
  /-- A closing parenthesis with nothing to apply a connective to. -/
  | ignored {a : Assembly} (few : a.endClause.operands.length < 2) : Step a .closing a.endClause
  | closed {a : Assembly} {c : Connective} {deferred : List Connective} {operands : List Rule}
      (waiting : a.deferred = c :: deferred)
      (reduced : reduce c a.endClause.operands = .ok operands) :
      Step a .closing ⟨operands, deferred, []⟩
  | putOff {a : Assembly} {c : Connective}
      (early : a.deferred ≠ [] ∨ a.endClause.operands.length < 2) :
      Step a (.connective c) ⟨a.endClause.operands, c :: a.deferred, []⟩
  | applied {a : Assembly} {c : Connective} {operands : List Rule}
      (idle : a.deferred = []) (reduced : reduce c a.endClause.operands = .ok operands) :
      Step a (.connective c) ⟨operands, [], []⟩

theorem two_le_of_reduce {c : Connective} {operands result : List Rule}
    (reduced : reduce c operands = .ok result) : ¬ operands.length < 2 := by
  obtain ⟨right, left, below, rule, rfl, -, -⟩ := reduce_eq_ok_iff.1 reduced
  simp

theorem take_eq_ok_iff {a b : Assembly} {token : Token} : a.take token = .ok b ↔ Step a token b := by
  constructor
  · intro taken
    cases token with
    | opening => cases taken; exact .opening a
    | word text => cases taken; exact .word a text
    | closing =>
        simp only [take, close, endClause_deferred, endClause_words] at taken
        split at taken
        · rename_i few; cases taken; exact .ignored few
        · cases waiting : a.deferred with
          | nil => simp [waiting] at taken
          | cons c deferred =>
              rw [waiting] at taken
              obtain ⟨operands, reduced, rfl⟩ := map_eq_ok_iff.1 taken
              exact .closed waiting reduced
    | connective c =>
        simp only [take, connect, endClause_deferred, endClause_words] at taken
        split at taken
        · rename_i early
          cases taken
          exact .putOff early
        · rename_i late
          have idle : a.deferred = [] := Classical.not_not.1 (not_or.1 late).1
          obtain ⟨operands, reduced, rfl⟩ := map_eq_ok_iff.1 taken
          rw [idle]
          exact .applied idle reduced
  · intro step
    cases step with
    | opening => rfl
    | word => rfl
    | ignored few => simp [take, close, few]
    | closed waiting reduced =>
        simp [take, close, two_le_of_reduce reduced, waiting, reduced, Except.map]
    | putOff early => simp only [take, connect, endClause_deferred, endClause_words, if_pos early]
    | applied idle reduced =>
        simp [take, connect, two_le_of_reduce reduced, idle, reduced, Except.map]

/-- With one operand more than deferred connectives, a connective is put off. -/
theorem take_connective {a : Assembly}
    (alternate : a.endClause.operands.length = a.deferred.length + 1) (c : Connective) :
    a.take (.connective c) = .ok ⟨a.endClause.operands, c :: a.deferred, []⟩ := by
  have early : a.deferred ≠ [] ∨ a.endClause.operands.length < 2 := by
    by_cases idle : a.deferred = []
    · right
      rw [alternate, idle]
      exact Nat.one_lt_two
    · exact .inl idle
  exact take_eq_ok_iff.2 (.putOff early)

theorem foldlM_take_cons {a b : Assembly} {token : Token} {tokens : List Token}
    (taken : a.take token = .ok b) :
    (token :: tokens).foldlM take a = tokens.foldlM take b := by
  rw [List.foldlM_cons, taken]
  rfl

/-- Words only collect. -/
theorem foldlM_take_words (a : Assembly) (words : List String) :
    (words.map Token.word).foldlM take a = .ok { a with words := words.reverse ++ a.words } := by
  induction words generalizing a with
  | nil => rfl
  | cons text words ih =>
      have first : a.take (.word text) = .ok { a with words := text :: a.words } := rfl
      rw [List.map_cons, foldlM_take_cons first, ih, List.reverse_cons, List.append_assoc,
        List.singleton_append]

/-- What one closing parenthesis keeps, any number of them keeps. -/
theorem foldlM_take_closings {motive : Assembly → Prop}
    (close : ∀ a, motive a → ∃ b, a.take .closing = .ok b ∧ motive b) {a : Assembly}
    (held : motive a) (n : Nat) :
    ∃ b, (List.replicate n Token.closing).foldlM take a = .ok b ∧ motive b := by
  induction n generalizing a with
  | zero => exact ⟨a, rfl, held⟩
  | succ n ih =>
      obtain ⟨next, closed, held⟩ := close a held
      obtain ⟨b, others, held⟩ := ih held
      exact ⟨b, (foldlM_take_cons closed).trans others, held⟩

/-- Opening parentheses may be left out. -/
theorem foldlM_take_filter (a : Assembly) (tokens : List Token) :
    (tokens.filter (· ≠ .opening)).foldlM take a = tokens.foldlM take a := by
  induction tokens generalizing a with
  | nil => rfl
  | cons token tokens ih =>
      by_cases opening : token = .opening
      · subst opening
        have nothing : a.take .opening = .ok a := rfl
        rw [List.filter_cons_of_neg (by simp), ih, foldlM_take_cons nothing]
      · rw [List.filter_cons_of_pos (by simpa using opening), List.foldlM_cons, List.foldlM_cons]
        apply bind_congr
        intro b
        exact ih b

/-- A token is refused if it closes a group that no connective waits for, or if
the connective that it applies gives too tall a rule. -/
theorem take_eq_error {a : Assembly} {token : Token} {error : Error}
    (refused : a.take token = .error error) :
    (token = .closing ∧ a.deferred = [] ∧ 2 ≤ a.endClause.operands.length ∧
        error = .badStructure .unmatchedClosing a.endClause.operands.length) ∨
      token.endsClause ∧ 2 ≤ a.endClause.operands.length ∧
        ∃ c, reduce c a.endClause.operands = .error error := by
  cases token with
  | opening => cases refused
  | word => cases refused
  | closing =>
      simp only [take, close, endClause_deferred] at refused
      split at refused
      · cases refused
      · rename_i enough
        cases waiting : a.deferred with
        | nil =>
            rw [waiting] at refused
            cases refused
            exact .inl ⟨rfl, rfl, Nat.not_lt.1 enough, rfl⟩
        | cons c deferred =>
            rw [waiting] at refused
            exact .inr ⟨rfl, Nat.not_lt.1 enough, c, map_eq_error_iff.1 refused⟩
  | connective c =>
      simp only [take, connect] at refused
      split at refused
      · cases refused
      · rename_i late
        exact .inr ⟨rfl, Nat.not_lt.1 (not_or.1 late).2, c, map_eq_error_iff.1 refused⟩

/-! ## The end of a text -/

theorem finish_eq_ok_iff {a : Assembly} {rule : Rule} :
    a.finish = .ok rule ↔ drain a.deferred a.endClause.operands = .ok [rule] := by
  constructor
  · intro finished
    obtain ⟨left, drained, one⟩ := bind_eq_ok_iff.1 finished
    rw [endClause_deferred] at drained
    rcases left with _ | ⟨first, _ | ⟨second, others⟩⟩
    · cases one
    · cases one
      exact drained
    · cases one
  · intro drained
    rw [← endClause_deferred] at drained
    exact bind_eq_ok_iff.2 ⟨[rule], drained, rfl⟩

/-- Nothing may be left, or more than one rule, or the connectives cannot be applied. -/
theorem finish_eq_error_iff {a : Assembly} {error : Error} : a.finish = .error error ↔
    drain a.deferred a.endClause.operands = .error error ∨
      ∃ left, drain a.deferred a.endClause.operands = .ok left ∧
        (left = [] ∧ error = .badStructure .noExpression 0 ∨
          2 ≤ left.length ∧ error = .badStructure .surplusOperands left.length) := by
  rw [finish, bind_eq_error_iff, endClause_deferred]
  apply or_congr_right
  apply exists_congr
  intro left
  apply and_congr_right
  intro _
  rcases left with _ | ⟨first, _ | ⟨second, others⟩⟩
  · simp [eq_comm]
  · simp
  · simp [eq_comm]

end Criteria.Assembly

namespace Criteria.Rule

open Assembly

/-! ## A whole text -/

theorem ofTokens_eq_ok_iff {tokens : List Token} {rule : Rule} : ofTokens tokens = .ok rule ↔
    ∃ a, tokens.foldlM take start = .ok a ∧ a.finish = .ok rule :=
  bind_eq_ok_iff

theorem ofTokens_filter (tokens : List Token) :
    ofTokens (tokens.filter (· ≠ .opening)) = ofTokens tokens := by
  rw [ofTokens, foldlM_take_filter, ofTokens]

theorem ofTokens_eq_error_iff {tokens : List Token} {error : Error} :
    ofTokens tokens = .error error ↔ tokens.foldlM take start = .error error ∨
      ∃ a, tokens.foldlM take start = .ok a ∧ a.finish = .error error :=
  bind_eq_error_iff

theorem parse_eq_ok_iff {text : String} {rule : Rule} : parse text = .ok rule ↔
    ∃ untagged, ofTokens (Token.ofText text) = .ok untagged ∧ untagged.retag rootTag = rule :=
  map_eq_ok_iff

theorem parse_eq_error_iff {text : String} {error : Error} :
    parse text = .error error ↔ ofTokens (Token.ofText text) = .error error :=
  map_eq_error_iff

end Criteria.Rule
