/-
# Criteria.Proofs.Assembly.Reload -- the text of a rule is read back as the rule

Parentheses push nothing, so what a closing one does depends on how many
operands and deferred connectives lie below. As long as both stacks are of one
size when the text of a rule starts, reading it puts the rule on top and leaves
what is below alone (`readFrom_text`), whatever that is and whatever follows. A
connective behind it then makes the stacks even again, so a chain leaves all its
rules and connectives on them, and they are joined from the right at the end.
-/
import Criteria.Proofs.Assembly.Step
import Criteria.Proofs.Rule.Chain
import Criteria.Proofs.Token.Lexemes

namespace Criteria

set_option autoImplicit false

open Text (Ends)
open Token (CleanWord CleanClause)

/-- Rules with clauses that a text can spell. -/
def Rule.Clean (rule : Rule) : Prop := ∀ clause ∈ rule.clauses, CleanClause clause

theorem Rule.clean_node_iff {tag : UInt32} {height : Nat} {connective : Connective}
    {left right : Rule} :
    (node tag height connective left right).Clean ↔ left.Clean ∧ right.Clean := by
  simp only [Clean, clauses, List.mem_append, or_imp, forall_and]

theorem Rule.Clean.join {c : Connective} {left right result : Rule} (cleanLeft : left.Clean)
    (cleanRight : right.Clean) (joined : Rule.join c left right = .ok result) : result.Clean := by
  obtain ⟨-, rfl⟩ := join_eq_ok_iff.1 joined
  exact clean_node_iff.2 ⟨cleanLeft, cleanRight⟩

theorem Rule.Clean.retag {rule : Rule} (clean : rule.Clean) (start : UInt32) :
    (rule.retag start).Clean := by
  rw [Clean, clauses_retag]
  exact clean

namespace Assembly

/-! ## Reading a text piece by piece -/

/-- What a state becomes over the tokens of a text. -/
def readFrom (a : Assembly) (chars : List Char) : Except Error Assembly :=
  ((Token.lexemes chars).map Token.ofLexeme).foldlM take a

variable {a b : Assembly} {rest : List Char}

theorem readFrom_nil : a.readFrom [] = .ok a := by
  rw [readFrom, Token.lexemes_nil]
  rfl

theorem readFrom_space : a.readFrom (' ' :: rest) = a.readFrom rest := by
  rw [readFrom, Token.lexemes_blank rfl, readFrom]

theorem readFrom_opening : a.readFrom ('(' :: rest) = a.readFrom rest := by
  rw [readFrom, Token.lexemes_parenthesis rfl]
  exact foldlM_take_cons rfl

theorem readFrom_closing (taken : a.take .closing = .ok b) :
    a.readFrom (')' :: rest) = b.readFrom rest := by
  rw [readFrom, Token.lexemes_parenthesis rfl]
  exact foldlM_take_cons taken

theorem readFrom_name {c : Connective} (taken : a.take (.connective c) = .ok b)
    (ends : Ends Token.isWordChar rest) : a.readFrom (c.name.toList ++ rest) = b.readFrom rest := by
  have some : c.name.toList ≠ [] := by cases c <;> decide
  have inside : c.name.toList.all Token.isWordChar := by cases c <;> rfl
  have lexeme : Token.ofLexeme c.name = .connective c := by cases c <;> rfl
  rw [readFrom, Token.lexemes_word some (List.all_eq_true.1 inside) ends, String.ofList_toList,
    List.map_cons, lexeme]
  exact foldlM_take_cons taken

theorem readFrom_word {word : String} (clean : CleanWord word)
    (ends : Ends Token.isWordChar rest) :
    a.readFrom (word.toList ++ rest) = { a with words := word :: a.words }.readFrom rest := by
  obtain ⟨some, inside, -⟩ := Token.cleanWord_iff.1 clean
  have chars : word.toList ≠ [] := by simpa using some
  rw [readFrom, Token.lexemes_word chars inside ends, String.ofList_toList, List.map_cons,
    clean.ofLexeme_eq]
  exact foldlM_take_cons rfl

theorem readFrom_words {words : List String} (clean : ∀ word ∈ words, CleanWord word)
    (some : words ≠ []) (ends : Ends Token.isWordChar rest) :
    a.readFrom ((" ".intercalate words).toList ++ rest) =
      { a with words := words.reverse ++ a.words }.readFrom rest := by
  induction words generalizing a with
  | nil => exact absurd rfl some
  | cons word words ih =>
      have first := clean word List.mem_cons_self
      have others : ∀ other ∈ words, CleanWord other := by
        intro other member
        exact clean other (List.mem_cons_of_mem word member)
      by_cases single : words = []
      · rw [single, String.intercalate_singleton]
        exact readFrom_word first ends
      · have spelled : (" ".intercalate (word :: words)).toList ++ rest =
            word.toList ++ ' ' :: ((" ".intercalate words).toList ++ rest) := by
          rw [String.intercalate_cons_of_ne_nil single, String.toList_append, String.toList_append,
            List.append_assoc, List.append_assoc]
          rfl
        rw [spelled, readFrom_word first (Token.ends_space _), readFrom_space, ih others single,
          List.reverse_cons, List.append_assoc]
        rfl

/-- Behind an operand on even stacks, a connective makes them even again. -/
theorem readFrom_connective {rule : Rule} {operands : List Rule} {deferred : List Connective}
    (ended : a.endClause = ⟨rule :: operands, deferred, []⟩)
    (even : operands.length = deferred.length) (c : Connective) :
    a.readFrom (' ' :: (c.name.toList ++ ' ' :: rest)) =
      (Assembly.mk (rule :: operands) (c :: deferred) []).readFrom rest := by
  have waiting : a.deferred = deferred := by rw [← endClause_deferred, ended]
  have alternate : a.endClause.operands.length = a.deferred.length + 1 := by
    rw [ended, waiting, List.length_cons, even]
  have putOff := take_connective alternate c
  rw [ended, waiting] at putOff
  rw [readFrom_space, readFrom_name putOff (Token.ends_space _), readFrom_space]

/-! ## Rules and chains -/

/-- The text of a rule pushes the rule onto even stacks and moves nothing below. -/
theorem readFrom_text {rule : Rule} (sound : rule.Sound) (clean : rule.Clean)
    (even : a.operands.length = a.deferred.length) (ended : a.words = [])
    (ends : Ends Token.isWordChar rest) :
    ∃ b : Assembly, b.endClause = ⟨rule.untagged :: a.operands, a.deferred, []⟩ ∧
      a.readFrom (rule.text.toList ++ rest) = b.readFrom rest := by
  induction rule generalizing a rest with
  | leaf tag clause =>
      obtain ⟨words, some, cleanWords, rfl⟩ := clean clause (List.mem_singleton.2 rfl)
      refine ⟨{ a with words := words.reverse ++ a.words }, ?_, readFrom_words cleanWords some ends⟩
      have reversed : words.reverse ≠ [] := by simpa using some
      rw [ended, List.append_nil, endClause, if_neg reversed, List.reverse_reverse]
      rfl
  | node tag height c left right ihLeft ihRight =>
      obtain ⟨-, -, soundLeft, soundRight⟩ := Rule.sound_node_iff.1 sound
      obtain ⟨cleanLeft, cleanRight⟩ := Rule.clean_node_iff.1 clean
      have spelled : (Rule.node tag height c left right).text.toList ++ rest =
          '(' :: (left.text.toList ++ ' ' :: (c.name.toList ++
            ' ' :: (right.text.toList ++ ')' :: rest))) := by
        simp [Rule.text]
      have close : Ends Token.isWordChar (')' :: rest) := Text.ends_cons.2 rfl
      obtain ⟨b, endLeft, readLeft⟩ := ihLeft soundLeft cleanLeft even ended (Token.ends_space _)
      -- the left side is one more operand below, the connective one more deferred
      have evenAgain : (left.untagged :: a.operands).length = (c :: a.deferred).length := by
        rw [List.length_cons, List.length_cons, even]
      obtain ⟨b', endRight, readRight⟩ :=
        ihRight (a := ⟨_, _, []⟩) soundRight cleanRight evenAgain rfl close
      have closed : b'.take .closing =
          .ok ⟨(Rule.node tag height c left right).untagged :: a.operands, a.deferred, []⟩ := by
        have waiting : b'.deferred = c :: a.deferred := by rw [← endClause_deferred, endRight]
        refine take_eq_ok_iff.2 (.closed waiting (reduce_eq_ok_iff.2 ?_))
        rw [endRight]
        exact ⟨_, _, _, _, rfl, sound.join_untagged, rfl⟩
      refine ⟨⟨_, _, []⟩, rfl, ?_⟩
      rw [spelled, readFrom_opening, readLeft, readFrom_connective endLeft even, readRight,
        readFrom_closing closed]

/-- A chain leaves all its rules and connectives on the stacks. -/
theorem readFrom_chainText {links : List (Rule × Connective)} {last : Rule}
    (sound : ∀ link ∈ links, link.1.Sound) (soundLast : last.Sound)
    (clean : ∀ link ∈ links, link.1.Clean) (cleanLast : last.Clean)
    (even : a.operands.length = a.deferred.length) (ended : a.words = []) :
    ∃ b : Assembly, b.endClause =
        ⟨last.untagged :: ((Rule.untagLinks links).reverse.map Prod.fst ++ a.operands),
          (Rule.untagLinks links).reverse.map Prod.snd ++ a.deferred, []⟩ ∧
      a.readFrom (Rule.chainText links last).toList = .ok b := by
  induction links generalizing a with
  | nil =>
      obtain ⟨b, same, read⟩ := readFrom_text soundLast cleanLast even ended Text.ends_nil
      rw [List.append_nil, readFrom_nil] at read
      exact ⟨b, same, read⟩
  | cons link links ih =>
      obtain ⟨rule, c⟩ := link
      obtain ⟨soundRule, soundLinks⟩ := List.forall_mem_cons.1 sound
      obtain ⟨cleanRule, cleanLinks⟩ := List.forall_mem_cons.1 clean
      have spelled : (Rule.chainText ((rule, c) :: links) last).toList =
          rule.text.toList ++ ' ' :: (c.name.toList ++
            ' ' :: (Rule.chainText links last).toList) := by
        simp [Rule.chainText]
      obtain ⟨b, endRule, readRule⟩ := readFrom_text soundRule cleanRule even ended (Token.ends_space _)
      have evenAgain : (rule.untagged :: a.operands).length = (c :: a.deferred).length := by
        rw [List.length_cons, List.length_cons, even]
      obtain ⟨b', same, read⟩ := ih (a := ⟨_, _, []⟩) soundLinks cleanLinks evenAgain rfl
      refine ⟨b', ?_, ?_⟩
      · have row : (Rule.untagLinks ((rule, c) :: links)).reverse =
            (Rule.untagLinks links).reverse ++ [(rule.untagged, c)] := List.reverse_cons
        rw [same, row, List.map_append, List.map_append, List.append_assoc, List.append_assoc]
        rfl
      · rw [spelled, readRule, readFrom_connective endRule even, read]

/-! ## Joining what is left -/

variable {row : List (Rule × Connective)} {last : Rule}

theorem reduce_of_fits {c : Connective} {left right : Rule} {below : List Rule}
    (fits : 1 + max left.height right.height ≤ maxHeight) :
    reduce c (right :: left :: below) =
      .ok (.node 0 (1 + max left.height right.height) c left right :: below) := by
  have joined : Rule.join c left right =
      .ok (.node 0 (1 + max left.height right.height) c left right) :=
    Rule.join_eq_ok_iff.2 ⟨fits, rfl⟩
  apply reduce_eq_ok_iff.2
  exact ⟨right, left, below, _, rfl, joined, rfl⟩

theorem reduce_of_tall {c : Connective} {left right : Rule} {below : List Rule}
    (tall : maxHeight < 1 + max left.height right.height) :
    reduce c (right :: left :: below) = .error (.badStructure .tooDeep (below.length + 2)) := by
  rw [reduce, Rule.join_eq_error_iff.2 ⟨tall, rfl⟩]

/-- The connectives of a row, the newest first, join it from the right. -/
theorem drain_of_fits (sound : ∀ link ∈ row, link.1.Sound) (soundLast : last.Sound)
    (fits : (Rule.chain row.reverse last).levels ≤ maxHeight) :
    drain (row.map Prod.snd) (last :: row.map Prod.fst) = .ok [Rule.chain row.reverse last] := by
  induction row generalizing last with
  | nil => rfl
  | cons link row ih =>
      obtain ⟨rule, c⟩ := link
      obtain ⟨soundRule, soundRow⟩ := List.forall_mem_cons.1 sound
      rw [List.reverse_cons] at fits ⊢
      have low : 1 + max rule.height last.height ≤ maxHeight := by
        have suffix := Rule.levels_chain_drop_le (row.reverse ++ [(rule, c)]) last row.reverse.length
        rw [List.drop_left] at suffix
        rw [soundRule.height_eq, soundLast.height_eq]
        exact Nat.le_trans suffix fits
      have soundBoth : (Rule.node 0 (1 + max rule.height last.height) c rule last).Sound :=
        Rule.sound_node_iff.2 ⟨rfl, low, soundRule, soundLast⟩
      rw [Rule.chain_snoc] at fits ⊢
      exact bind_eq_ok_iff.2 ⟨_, reduce_of_fits low, ih soundRow soundBoth fits⟩

/-- If the row is too tall, the connective that makes it so is the last to be applied. -/
theorem drain_of_tall (sound : ∀ link ∈ row, link.1.Sound) (soundLast : last.Sound)
    (tall : maxHeight < (Rule.chain row.reverse last).levels) :
    ∃ k, Rule.TooTallFrom row.reverse last k ∧
      drain (row.map Prod.snd) (last :: row.map Prod.fst) =
        .error (.badStructure .tooDeep (k + 2)) := by
  induction row generalizing last with
  | nil => exact absurd soundLast.levels_le (Nat.not_le.2 tall)
  | cons link row ih =>
      obtain ⟨rule, c⟩ := link
      obtain ⟨soundRule, soundRow⟩ := List.forall_mem_cons.1 sound
      rw [List.reverse_cons] at tall ⊢
      by_cases low : 1 + max rule.height last.height ≤ maxHeight
      · have soundBoth : (Rule.node 0 (1 + max rule.height last.height) c rule last).Sound :=
          Rule.sound_node_iff.2 ⟨rfl, low, soundRule, soundLast⟩
        rw [Rule.chain_snoc] at tall
        obtain ⟨k, found, failed⟩ := ih soundRow soundBoth tall
        have lowBoth := soundBoth.levels_le
        refine ⟨k, found.snoc soundLast.levels_le lowBoth, ?_⟩
        exact bind_eq_error_iff.2 (.inr ⟨_, reduce_of_fits low, failed⟩)
      · have tallBoth : maxHeight < 1 + max rule.levels last.levels := by
          rw [← soundRule.height_eq, ← soundLast.height_eq]
          exact Nat.not_le.1 low
        refine ⟨row.reverse.length, Rule.tooTallFrom_snoc soundLast.levels_le tallBoth, ?_⟩
        have failed : reduce c (last :: rule :: row.map Prod.fst) =
            .error (.badStructure .tooDeep (row.reverse.length + 2)) := by
          rw [reduce_of_tall (Nat.not_le.1 low), List.length_map, List.length_reverse]
        exact bind_eq_error_iff.2 (.inl failed)

/-- Whatever the connectives of a row join it to, it is joined from the right. -/
theorem eq_chain_of_drain {operands : List Rule}
    (drained : drain (row.map Prod.snd) (last :: row.map Prod.fst) = .ok operands) :
    operands = [Rule.chain row.reverse last] := by
  induction row generalizing last with
  | nil => cases drained; rfl
  | cons link row ih =>
      obtain ⟨rule, c⟩ := link
      obtain ⟨next, reduced, others⟩ := bind_eq_ok_iff.1 drained
      obtain ⟨right, left, below, both, same, joined, rfl⟩ := reduce_eq_ok_iff.1 reduced
      cases same
      obtain ⟨-, rfl⟩ := Rule.join_eq_ok_iff.1 joined
      rw [List.reverse_cons, Rule.chain_snoc]
      exact ih others

end Assembly

namespace Rule

open Assembly

/-- The text of a rule is read as the rule, tagged anew. -/
theorem parse_text {rule : Rule} (sound : rule.Sound) (clean : rule.Clean) :
    parse rule.text = .ok (rule.retag rootTag) := by
  obtain ⟨a, ended, read⟩ := readFrom_text (a := start) sound clean rfl rfl Text.ends_nil
  rw [List.append_nil, readFrom_nil] at read
  have waiting : a.deferred = [] := by
    rw [← endClause_deferred, ended]
    rfl
  refine parse_eq_ok_iff.2 ⟨_, ofTokens_eq_ok_iff.2 ⟨a, read, ?_⟩, retag_untagged _ _⟩
  rw [finish_eq_ok_iff, waiting, ended]
  rfl

/-- Nothing but the chain is ever read from its text. -/
theorem eq_chain_of_parse {links : List (Rule × Connective)} {last rule : Rule}
    (sound : ∀ link ∈ links, link.1.Sound) (soundLast : last.Sound)
    (clean : ∀ link ∈ links, link.1.Clean) (cleanLast : last.Clean)
    (read : parse (chainText links last) = .ok rule) : rule = (chain links last).retag rootTag := by
  obtain ⟨a, ended, stacked⟩ :=
    readFrom_chainText (a := start) sound soundLast clean cleanLast rfl rfl
  obtain ⟨untagged', built, rfl⟩ := parse_eq_ok_iff.1 read
  obtain ⟨b, taken, finished⟩ := ofTokens_eq_ok_iff.1 built
  obtain rfl : a = b := Except.ok.inj (stacked.symm.trans taken)
  rw [finish_eq_ok_iff, ← endClause_deferred, ended] at finished
  simp only [start, List.append_nil] at finished
  have joined := eq_chain_of_drain finished
  rw [List.reverse_reverse, ← untagged_chain, List.singleton_inj] at joined
  rw [joined, retag_untagged]

/-- The text of a chain is read as the chain, or refused at the first place, seen
from its end, where it takes too many levels; that is then what the fault says. -/
theorem parse_chainText {links : List (Rule × Connective)} {last : Rule}
    (sound : ∀ link ∈ links, link.1.Sound) (soundLast : last.Sound)
    (clean : ∀ link ∈ links, link.1.Clean) (cleanLast : last.Clean) :
    ((chain links last).levels ≤ maxHeight →
      parse (chainText links last) = .ok ((chain links last).retag 1)) ∧
    (maxHeight < (chain links last).levels →
      ∃ k, TooTallFrom links last k ∧
        parse (chainText links last) = .error (.badStructure .tooDeep (k + 2))) ∧
    StructureFault.tooDeep.reason = "rule nests too deeply" := by
  obtain ⟨a, ended, read⟩ := readFrom_chainText (a := start) sound soundLast clean cleanLast rfl rfl
  simp only [start, List.append_nil] at ended
  have waiting : a.deferred = (untagLinks links).reverse.map Prod.snd := by
    rw [← endClause_deferred, ended]
  have soundRow : ∀ link ∈ (untagLinks links).reverse, link.1.Sound := by
    intro link member
    obtain ⟨original, listed, rfl⟩ := List.mem_map.1 (List.mem_reverse.1 member)
    exact (sound original listed).untagged
  have same : chain (untagLinks links).reverse.reverse last.untagged =
      (chain links last).untagged := by
    rw [List.reverse_reverse, untagged_chain]
  refine ⟨?_, ?_, rfl⟩
  · intro fits
    rw [← levels_untagged, ← same] at fits
    have drained := drain_of_fits soundRow soundLast.untagged fits
    rw [same] at drained
    refine parse_eq_ok_iff.2 ⟨_, ofTokens_eq_ok_iff.2 ⟨a, read, ?_⟩, retag_untagged _ _⟩
    rw [finish_eq_ok_iff, waiting, ended]
    exact drained
  · intro tall
    rw [← levels_untagged, ← same] at tall
    obtain ⟨k, found, failed⟩ := drain_of_tall soundRow soundLast.untagged tall
    rw [List.reverse_reverse] at found
    refine ⟨k, tooTallFrom_untagged_iff.1 found, parse_eq_error_iff.2 ?_⟩
    refine ofTokens_eq_error_iff.2 (.inr ⟨a, read, finish_eq_error_iff.2 (.inl ?_)⟩)
    rw [waiting, ended]
    exact failed

/-- A chain that fits, and one clause more than fits. -/
theorem parse_chainText_at_the_bound :
    parse "a > 1 AND b OR (c AND d)" =
      .ok (node 1 4 .and (leaf 2 "a > 1") (node 2 3 .or (leaf 3 "b")
        (node 3 2 .and (leaf 4 "c") (leaf 4 "d")))) ∧
    ∃ k, TooTallFrom (List.replicate 256 (leaf 0 "b", .or)) (leaf 0 "b") k ∧
      parse (chainText (List.replicate 256 (leaf 0 "b", .or)) (leaf 0 "b")) =
        .error (.badStructure .tooDeep (k + 2)) := by
  have long : CleanClause "a > 1" := ⟨["a", ">", "1"], by decide, by decide, rfl⟩
  have short : ∀ word ∈ ["b", "c", "d"], CleanClause word := by
    intro word listed
    refine ⟨[word], by simp, ?_, String.intercalate_singleton.symm⟩
    revert word
    decide
  refine ⟨?_, ?_⟩
  · refine (@parse_chainText [(leaf 0 "a > 1", .and), (leaf 0 "b", .or)]
      (node 0 2 .and (leaf 0 "c") (leaf 0 "d")) ?_ ?_ ?_ ?_).1 (by decide)
    · simp [Sound]
    · exact sound_node_iff.2 ⟨rfl, by decide, trivial, trivial⟩
    · simp [Clean, clauses, long, short]
    · simp [Clean, clauses, short]
  · refine (@parse_chainText (List.replicate 256 (leaf 0 "b", .or)) (leaf 0 "b")
      ?_ trivial ?_ ?_).2.1 (by decide +kernel)
    · intro link listed
      rw [List.eq_of_mem_replicate listed]
      trivial
    · intro link listed
      rw [List.eq_of_mem_replicate listed]
      simp [Clean, clauses, short]
    · simp [Clean, clauses, short]

end Rule

end Criteria
