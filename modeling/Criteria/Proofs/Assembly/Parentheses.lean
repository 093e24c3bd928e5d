/-
# Criteria.Proofs.Assembly.Parentheses -- parentheses that change nothing

Reading passes over opening parentheses, so texts whose tokens agree once these
are left out are read or refused alike (`parse_eq_of_filter`). That covers spaces
in their place, and openings put in wherever they cut no word in two (`Opened`).

A closing parenthesis does change the stacks. Behind a text that could end there
it applies the newest deferred connective, and so would the end of the text, which
starts with that connective; what is left after the parenthesis ends in the same
rule (`exists_take_closing`). The same holds for any number of them, so a text
that is read may be wrapped as often as one likes on either side.
-/
import Criteria.Proofs.Assembly.Step
import Criteria.Proofs.Token.Lexemes

namespace Criteria

set_option autoImplicit false

open Text (Ends)

namespace Token

variable {before after : List Char}

/-! ## Texts in two parts -/

/-- No word goes on from the first part into the second. -/
def Boundary (before after : List Char) : Prop :=
  ∀ c ∈ before.getLast?, ∀ d ∈ after.head?, ¬ (isWordChar c ∧ isWordChar d)

theorem Boundary.of_append (first : List Char) (boundary : Boundary (first ++ before) after) :
    Boundary before after := by
  intro c last
  apply boundary c
  rw [List.getLast?_append, Option.mem_def.1 last]
  rfl

theorem boundary_of_ends (ends : Ends isWordChar after) : Boundary before after := by
  rintro c - d first ⟨-, inside⟩
  rw [ends d first] at inside
  cases inside

/-- Two parts that share no word may be cut one after the other. -/
theorem lexemes_append (boundary : Boundary before after) :
    lexemes (before ++ after) = lexemes before ++ lexemes after := by
  induction before using cut_induction with
  | nil => rw [lexemes_nil]; rfl
  | blank c rest white ih =>
      rw [List.cons_append, lexemes_blank white, lexemes_blank white, ih (boundary.of_append [c])]
  | parenthesis c rest single ih =>
      rw [List.cons_append, lexemes_parenthesis single, lexemes_parenthesis single,
        ih (boundary.of_append [c]), List.cons_append]
  | run word rest some inside ends ih =>
      have stays : Ends isWordChar (rest ++ after) := by
        cases rest with
        | cons d rest => exact Text.ends_cons.2 (Text.ends_cons.1 ends)
        | nil =>
            -- the run reaches the end of the first part, and there is the boundary
            intro d first
            have last := inside _ (List.getLast_mem some)
            have final : word.getLast some ∈ (word ++ []).getLast? := by
              simp [List.getLast?_eq_some_getLast some]
            have apart := boundary _ final d first
            simpa [last] using apart
      rw [List.append_assoc, lexemes_word some inside stays, lexemes_word some inside ends,
        ih (boundary.of_append word), List.cons_append]

theorem lexemes_closings (n : Nat) : lexemes (List.replicate n ')') = List.replicate n ")" := by
  induction n with
  | zero => exact lexemes_nil
  | succ n ih =>
      rw [List.replicate_succ, lexemes_parenthesis rfl, ih]
      rfl

/-! ## Opening parentheses -/

theorem ofLexeme_eq_opening_iff {lexeme : String} : ofLexeme lexeme = opening ↔ lexeme = "(" := by
  unfold ofLexeme
  split
  · simpa
  · split
    · simpa
    · split <;> simpa

/-- A space for an opening parenthesis. -/
def blankOpening (c : Char) : Char := if c = '(' then ' ' else c

theorem blankOpening_of_ne {c : Char} (other : c ≠ '(') : blankOpening c = c := if_neg other

theorem map_blankOpening_word {word : List Char} (inside : ∀ c ∈ word, isWordChar c) :
    word.map blankOpening = word := by
  have same : ∀ c ∈ word, blankOpening c = c := by
    intro c member
    apply blankOpening_of_ne
    rintro rfl
    exact absurd (inside '(' member) (by decide)
  rw [List.map_congr_left same, List.map_id']

theorem ends_map_blankOpening {chars : List Char} (ends : Ends isWordChar chars) :
    Ends isWordChar (chars.map blankOpening) := by
  cases chars with
  | nil => exact Text.ends_nil
  | cons c rest =>
      apply Text.ends_cons.2
      by_cases opening : c = '('
      · rw [opening]
        rfl
      · rw [blankOpening_of_ne opening]
        exact Text.ends_cons.1 ends

theorem lexemes_map_blankOpening (chars : List Char) :
    lexemes (chars.map blankOpening) = (lexemes chars).filter (· ≠ "(") := by
  induction chars using cut_induction with
  | nil => rw [List.map_nil, lexemes_nil]; rfl
  | blank c rest white ih =>
      have other : c ≠ '(' := by
        rintro rfl
        exact absurd white (by decide)
      rw [List.map_cons, blankOpening_of_ne other, lexemes_blank white, lexemes_blank white, ih]
  | parenthesis c rest single ih =>
      rw [lexemes_parenthesis single, List.map_cons]
      rcases isParenthesis_iff.1 single with rfl | rfl
      · show lexemes (' ' :: rest.map blankOpening) = ("(" :: lexemes rest).filter (· ≠ "(")
        rw [lexemes_blank rfl, List.filter_cons_of_neg (by decide), ih]
      · show lexemes (')' :: rest.map blankOpening) = (")" :: lexemes rest).filter (· ≠ "(")
        rw [lexemes_parenthesis rfl, List.filter_cons_of_pos (by decide), ih]
  | run word rest some inside ends ih =>
      have kept : String.ofList word ≠ "(" := by
        intro same
        have run := isRun_ofList some inside
        rw [same] at run
        have single : isParenthesis '(' := rfl
        exact not_isRun_parenthesis single run
      rw [List.map_append, map_blankOpening_word inside,
        lexemes_word some inside (ends_map_blankOpening ends), lexemes_word some inside ends,
        List.filter_cons_of_pos (by simpa using kept), ih]

/-- Opening parentheses put into a text where they cut no word in two. -/
inductive Opened (original : List Char) : List Char → Prop
  | unchanged : Opened original original
  | more {before after : List Char} (opened : Opened original (before ++ after))
      (boundary : Boundary before after) : Opened original (before ++ '(' :: after)

theorem Opened.filter_lexemes {original changed : List Char} (opened : Opened original changed) :
    (lexemes changed).filter (· ≠ "(") = (lexemes original).filter (· ≠ "(") := by
  induction opened with
  | unchanged => rfl
  | @more before after _ boundary ih =>
      have ends : Ends isWordChar ('(' :: after) := Text.ends_cons.2 rfl
      have single : lexemes ('(' :: after) = "(" :: lexemes after := lexemes_parenthesis rfl
      rw [lexemes_append (boundary_of_ends ends), single, ← ih, lexemes_append boundary,
        List.filter_append, List.filter_append, List.filter_cons_of_neg (by decide)]

/-- They may all stand in front. -/
theorem opened_replicate (original : List Char) (n : Nat) :
    Opened original (List.replicate n '(' ++ original) := by
  induction n with
  | zero => exact .unchanged
  | succ n ih =>
      have front : Boundary [] (List.replicate n '(' ++ original) := by
        rintro c ⟨⟩
      exact .more (List.nil_append _ ▸ ih) front

end Token

namespace Assembly

/-! ## Closing parentheses -/

/-- Where a text could end, a closing parenthesis does what the end would do first. -/
theorem exists_take_closing {a : Assembly} {rule : Rule} (finished : a.finish = .ok rule) :
    ∃ b, a.take .closing = .ok b ∧ b.finish = .ok rule := by
  rw [finish_eq_ok_iff] at finished
  by_cases few : a.endClause.operands.length < 2
  · refine ⟨a.endClause, take_eq_ok_iff.2 (.ignored few), finish_eq_ok_iff.2 ?_⟩
    rw [endClause_endClause, endClause_deferred]
    exact finished
  · cases waiting : a.deferred with
    | nil =>
        -- with nothing to apply, the one rule that is left is the only operand
        rw [waiting] at finished
        have one : a.endClause.operands = [rule] := Except.ok.inj finished
        rw [one] at few
        exact absurd Nat.one_lt_two few
    | cons c deferred =>
        rw [waiting] at finished
        obtain ⟨operands, reduced, drained⟩ := bind_eq_ok_iff.1 finished
        exact ⟨⟨operands, deferred, []⟩, take_eq_ok_iff.2 (.closed waiting reduced),
          finish_eq_ok_iff.2 drained⟩

end Assembly

namespace Rule

open Assembly
open Token (Opened lexemes ofLexeme)

theorem ofTokens_closings {tokens : List Token} {rule : Rule} (read : ofTokens tokens = .ok rule)
    (n : Nat) : ofTokens (tokens ++ List.replicate n .closing) = .ok rule := by
  obtain ⟨a, run, finished⟩ := ofTokens_eq_ok_iff.1 read
  obtain ⟨b, closed, finished⟩ :=
    foldlM_take_closings (motive := (·.finish = .ok rule)) (fun _ => exists_take_closing) finished n
  exact ofTokens_eq_ok_iff.2 ⟨b, foldlM_append_eq_ok_iff.2 ⟨a, run, closed⟩, finished⟩

variable {text other : String} {rule : Rule}

/-- Texts with the same tokens but for opening parentheses have the same outcome. -/
theorem parse_eq_of_filter (same : (lexemes text.toList).filter (· ≠ "(") =
    (lexemes other.toList).filter (· ≠ "(")) : parse text = parse other := by
  have tokens (listed : List String) :
      (listed.map ofLexeme).filter (· ≠ .opening) = (listed.filter (· ≠ "(")).map ofLexeme := by
    simp only [List.filter_map, Function.comp_def, ne_eq, Token.ofLexeme_eq_opening_iff]
  rw [parse, parse, ← ofTokens_filter, Token.ofText, tokens, same, ← tokens, ← Token.ofText,
    ofTokens_filter]

theorem parse_of_opened (opened : Opened text.toList other.toList) : parse other = parse text :=
  parse_eq_of_filter opened.filter_lexemes

theorem parse_closings (read : parse text = .ok rule) (n : Nat) :
    parse (text ++ String.ofList (List.replicate n ')')) = .ok rule := by
  have ends : Ends Token.isWordChar (List.replicate n ')') := by
    cases n with
    | zero => exact Text.ends_nil
    | succ n => exact Text.ends_cons.2 rfl
  have tokens : Token.ofText (text ++ String.ofList (List.replicate n ')')) =
      Token.ofText text ++ List.replicate n .closing := by
    rw [Token.ofText, String.toList_append, String.toList_ofList,
      Token.lexemes_append (Token.boundary_of_ends ends), Token.lexemes_closings, List.map_append,
      List.map_replicate]
    rfl
  obtain ⟨untagged, built, rfl⟩ := parse_eq_ok_iff.1 read
  exact parse_eq_ok_iff.2 ⟨untagged, tokens ▸ ofTokens_closings built n, rfl⟩

/-- Spaces for opening parentheses, and opening parentheses wherever they cut no
word, change neither a rule nor a refusal; closing ones behind a text that is read
change nothing either, so it may be wrapped in any number of both. -/
theorem parse_parentheses (text : String) :
    parse (text.map fun c => if c = '(' then ' ' else c) = parse text ∧
    (∀ other : String, Opened text.toList other.toList → parse other = parse text) ∧
    (∀ rule, parse text = .ok rule →
      ∀ n, parse (text ++ String.ofList (List.replicate n ')')) = .ok rule) ∧
    ∀ rule, parse text = .ok rule → ∀ m n,
      parse (String.ofList (List.replicate m '(') ++ text ++
        String.ofList (List.replicate n ')')) = .ok rule := by
  refine ⟨?_, ?_, ?_, ?_⟩
  · apply parse_eq_of_filter
    have blanked : (text.map fun c => if c = '(' then ' ' else c).toList =
        text.toList.map Token.blankOpening := String.toList_map
    rw [blanked, Token.lexemes_map_blankOpening, List.filter_filter]
    simp
  · intro other opened
    exact parse_of_opened opened
  · intro rule read n
    exact parse_closings read n
  · intro rule read m n
    have opened : Opened text.toList (String.ofList (List.replicate m '(') ++ text).toList := by
      rw [String.toList_append, String.toList_ofList]
      exact Token.opened_replicate text.toList m
    have readOpened := (parse_of_opened opened).trans read
    exact parse_closings readOpened n

end Rule

end Criteria
