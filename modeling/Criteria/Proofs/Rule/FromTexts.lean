/-
# Criteria.Proofs.Rule.FromTexts -- rules made of texts, written and read again

`FromTexts` are the rules that come of reading texts, joining what was read and
tagging it, in any order and under any connectives. Their clauses are clauses of
some text, however messy that text was, so each can stand in a text again
(`FromTexts.clean`); and as their heights are true, the text of such a rule is
read back as the rule with the tags of a rule just read. Nothing but the tags can
have changed, and they have not if the rule itself was read from a text.
-/
import Criteria.Proofs.Assembly.Account
import Criteria.Proofs.Evaluation.Outcome
import Criteria.Proofs.Rule.Built

namespace Criteria.Rule

set_option autoImplicit false

/-- The rules that texts lead to, without a document or a clause of one's own. -/
inductive FromTexts : Rule → Prop
  | parse {text : String} {result : Rule} (read : parse text = .ok result) : FromTexts result
  | join {connective : Connective} {left right result : Rule} (ofLeft : FromTexts left)
      (ofRight : FromTexts right) (joined : join connective left right = .ok result) :
      FromTexts result
  | joinAll {connective : Connective} {rules : List Rule} {result : Rule}
      (all : ∀ rule ∈ rules, FromTexts rule) (joined : joinAll connective rules = .ok result) :
      FromTexts result
  | combine {connective : Connective} {texts : List String} {result : Rule}
      (combined : combine connective texts = .ok result) : FromTexts result
  | retag {rule : Rule} (fromTexts : FromTexts rule) (start : UInt32) :
      FromTexts (rule.retag start)

variable {rule : Rule}

theorem FromTexts.built (fromTexts : FromTexts rule) : Built rule := by
  induction fromTexts with
  | parse read => exact .parse read
  | join _ _ joined ihLeft ihRight => exact .join ihLeft ihRight joined
  | joinAll _ joined ih => exact .joinAll ih joined
  | combine combined => exact built_combine combined
  | retag _ start ih => exact ih.retag start

theorem clean_joinAll {connective : Connective} {rules : List Rule} {result : Rule}
    (clean : ∀ rule ∈ rules, rule.Clean) (joined : joinAll connective rules = .ok result) :
    result.Clean :=
  joinAll_induction (fun _ _ _ cleanLeft cleanRight next => cleanLeft.join cleanRight next) clean
    joined

/-- Reading makes clean clauses of anything, and nothing else touches them. -/
theorem FromTexts.clean (fromTexts : FromTexts rule) : rule.Clean := by
  induction fromTexts with
  | parse read => exact clean_of_parse read
  | join _ _ joined ihLeft ihRight => exact ihLeft.join ihRight joined
  | joinAll _ joined ih => exact clean_joinAll ih joined
  | combine combined =>
      obtain ⟨rules, read, joined⟩ := bind_eq_ok_iff.1 combined
      refine clean_joinAll ?_ joined
      intro rule member
      obtain ⟨text, readHere⟩ := exists_parse_of_mem_parseAll read rule member
      exact clean_of_parse readHere
  | retag _ start ih => exact ih.retag start

/-- A rule that was read has the tags that reading gives. -/
theorem retag_of_parse {text : String} (read : parse text = .ok rule) :
    rule.retag rootTag = rule := by
  obtain ⟨untagged, -, rfl⟩ := parse_eq_ok_iff.1 read
  exact retag_retag untagged rootTag rootTag

/-- Written out and read again, a rule made of texts is the same up to its tags:
in shape, connectives and stored heights at every node, in clauses, and in its
outcome for every record. One that was read from a text is the same altogether. -/
theorem parse_text_of_fromTexts (fromTexts : FromTexts rule) :
    ∃ reloaded, parse rule.text = .ok reloaded ∧ reloaded = rule.retag 1 ∧
      reloaded.untagged = rule.untagged ∧ reloaded.clauses = rule.clauses ∧
      reloaded.height = rule.height ∧
      (∀ record, evaluate record reloaded = evaluate record rule) ∧
      ∀ text, parse text = .ok rule → reloaded = rule := by
  refine ⟨rule.retag 1, parse_text fromTexts.built.sound fromTexts.clean, rfl,
    untagged_retag rule 1, clauses_retag rule 1, height_retag rule 1, ?_, ?_⟩
  · intro record
    exact evaluate_retag record rule 1
  · intro text read
    exact retag_of_parse read

/-- Parentheses that match nothing, connectives out of place, odd blanks, and tags
that no reading gives. -/
def patchwork : Rule :=
  node 7 4 .or (node 8 3 .and (node 9 2 .or (leaf 10 "a") (leaf 10 "b > 1")) (leaf 9 "c"))
    (leaf 8 "d = 'x'")

theorem parse_text_of_patchwork :
    FromTexts patchwork ∧ ∃ reloaded, parse "(((a OR b > 1) AND c) OR d = 'x')" = .ok reloaded ∧
      reloaded = patchwork.retag 1 ∧ reloaded.height = 4 ∧
      evaluate ((∅ : Record).insert "d" (.text "x")) reloaded = .error (.malformedClause "a") := by
  have combined : combine .or ["or a) b\u2003> 1) (c And", "(d\t= 'x')"] =
      .ok (node 0 4 .or (node 1 3 .and (node 2 2 .or (leaf 3 "a") (leaf 3 "b > 1")) (leaf 2 "c"))
        (leaf 1 "d = 'x'")) :=
    toOption_eq_some_iff.1 (by decide +kernel)
  have fromTexts : FromTexts patchwork := .retag (.combine combined) 7
  obtain ⟨reloaded, read, same, -, -, height, outcome, -⟩ := parse_text_of_fromTexts fromTexts
  exact ⟨fromTexts, reloaded, read, same, height, outcome _⟩

end Criteria.Rule
