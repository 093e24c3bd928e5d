/-
# Criteria.Proofs.Token.Spacing -- tokens and the texts that space them out

`SpacedOut` says which texts spell some tokens: these stand in their order with
blanks in front of, between and behind them, as many as one likes, only that two
words need one between them to stay two. Cutting a text finds the tokens that it
spaces out, and no other tokens are spaced out by it (`lexemes_eq_iff`). So blanks
decide nothing else: texts that space out the same tokens, a connective in
whatever letters, are read alike (`parse_of_spacedOut`).

A word is cut where it cannot go on, so the direction from the text needs to know
what may follow a run (`blank_of_ends`), and the other one that a run followed by
something else than a word is over (`SpacedOut.ends`).
-/
import Criteria.Assembly
import Criteria.Proofs.Token.Lexemes
import Mathlib.Data.List.Forall2

namespace Criteria

set_option autoImplicit false

open Text (Ends)

namespace Token

/-- The text spells the tokens, with blanks around them. -/
inductive SpacedOut : List String → List Char → Prop
  | none {gap : List Char} (blank : ∀ c ∈ gap, Text.isBlank c) : SpacedOut [] gap
  /-- What stands behind a word starts with a blank if another word is next. -/
  | more {gap rest : List Char} {lexeme : String} {lexemes : List String}
      (blank : ∀ c ∈ gap, Text.isBlank c) (valid : IsLexeme lexeme)
      (apart : ∀ next ∈ lexemes.head?, IsRun lexeme → IsRun next →
        ∃ c ∈ rest.head?, Text.isBlank c)
      (later : SpacedOut lexemes rest) :
      SpacedOut (lexeme :: lexemes) (gap ++ (lexeme.toList ++ rest))

/-- The same token: the same text, or one connective in two letter cases. -/
def Same (lexeme lexeme' : String) : Prop :=
  lexeme = lexeme' ∨ ∃ c : Connective, lexeme.toList.map Char.toUpper = c.name.toList ∧
    lexeme'.toList.map Char.toUpper = c.name.toList

variable {chars rest gap : List Char} {lexeme : String} {listed : List String}

/-! ## From the text to the tokens -/

/-- Where a run is over and a word is next, there is a blank. -/
theorem blank_of_ends (ends : Ends isWordChar rest) {next : String}
    (first : next ∈ (lexemes rest).head?) (run : IsRun next) :
    ∃ c ∈ rest.head?, Text.isBlank c := by
  cases rest with
  | nil => simp [lexemes_nil] at first
  | cons c rest =>
      by_cases blank : Text.isBlank c
      · exact ⟨c, rfl, blank⟩
      · have parenthesis : isParenthesis c := by
          have other := Text.ends_cons.1 ends
          simpa [isWordChar, blank] using other
        rw [lexemes_parenthesis parenthesis] at first
        cases first
        exact absurd run (not_isRun_parenthesis parenthesis)

theorem SpacedOut.cons_blank {c : Char} (spaced : SpacedOut listed rest) (white : Text.isBlank c) :
    SpacedOut listed (c :: rest) := by
  cases spaced with
  | none blank => exact .none (List.forall_mem_cons.2 ⟨white, blank⟩)
  | more blank valid apart later =>
      have longer := SpacedOut.more (List.forall_mem_cons.2 ⟨white, blank⟩) valid apart later
      exact longer

theorem spacedOut_lexemes (chars : List Char) : SpacedOut (lexemes chars) chars := by
  induction chars using cut_induction with
  | nil =>
      rw [lexemes_nil]
      exact .none (by simp)
  | blank c rest white ih =>
      rw [lexemes_blank white]
      exact ih.cons_blank white
  | parenthesis c rest single ih =>
      have spaced : SpacedOut (String.ofList [c] :: lexemes rest)
          ([] ++ ((String.ofList [c]).toList ++ rest)) :=
        .more (by simp) (isLexeme_parenthesis single)
          (fun _ _ run => absurd run (not_isRun_parenthesis single)) ih
      rw [lexemes_parenthesis single]
      simpa using spaced
  | run word rest some inside ends ih =>
      have spaced : SpacedOut (String.ofList word :: lexemes rest)
          ([] ++ ((String.ofList word).toList ++ rest)) :=
        .more (by simp) (.inr (.inr (isRun_ofList some inside)))
          (fun _ first _ run => blank_of_ends ends first run) ih
      rw [lexemes_word some inside ends]
      simpa using spaced

/-- What is not blank stands in exactly one token. -/
theorem flatMap_lexemes (chars : List Char) :
    (lexemes chars).flatMap String.toList = chars.filter fun c => !Text.isBlank c := by
  induction chars using cut_induction with
  | nil => simp [lexemes_nil]
  | blank c rest white ih => simpa [lexemes_blank white, white] using ih
  | parenthesis c rest single ih =>
      simp [lexemes_parenthesis single, isBlank_parenthesis single, ih]
  | run word rest some inside ends ih =>
      have solid : word.filter (fun c => !Text.isBlank c) = word := by
        apply List.filter_eq_self.2
        intro c member
        simpa using (isWordChar_iff.1 (inside c member)).1
      simp [lexemes_word some inside ends, solid, ih]

/-! ## From the tokens to the text -/

theorem lexemes_blanks (blank : ∀ c ∈ gap, Text.isBlank c) (rest : List Char) :
    lexemes (gap ++ rest) = lexemes rest := by
  induction gap with
  | nil => rfl
  | cons c gap ih =>
      obtain ⟨white, others⟩ := List.forall_mem_cons.1 blank
      rw [List.cons_append, lexemes_blank white, ih others]

theorem IsLexeme.not_isWordChar {c : Char} (valid : IsLexeme lexeme) (notRun : ¬ IsRun lexeme)
    (first : c ∈ (lexeme.toList ++ rest).head?) : isWordChar c = false := by
  rcases valid with rfl | rfl | run
  · cases first; rfl
  · cases first; rfl
  · exact absurd run notRun

/-- Tokens that start with no word, or with a word behind a blank, end a run. -/
theorem SpacedOut.ends (spaced : SpacedOut listed rest)
    (apart : ∀ next ∈ listed.head?, IsRun next → ∃ c ∈ rest.head?, Text.isBlank c) :
    Ends isWordChar rest := by
  have blank_ends {c : Char} (white : Text.isBlank c) : isWordChar c = false := by
    simp [isWordChar, white]
  intro c first
  cases spaced with
  | none blank => exact blank_ends (blank c (List.mem_of_mem_head? first))
  | @more gap behind next _ blank valid _ _ =>
      by_cases run : IsRun next
      · obtain ⟨d, here, white⟩ := apart next rfl run
        cases first.symm.trans here
        exact blank_ends white
      · cases gap with
        | nil => exact valid.not_isWordChar run first
        | cons d gap =>
            cases first
            exact blank_ends (blank c List.mem_cons_self)

/-- Cutting a text that spaces out some tokens gives these tokens. -/
theorem SpacedOut.lexemes_eq (spaced : SpacedOut listed chars) : lexemes chars = listed := by
  induction spaced with
  | none blank =>
      have skipped := lexemes_blanks blank []
      rwa [List.append_nil, lexemes_nil] at skipped
  | @more gap rest lexeme others blank valid apart later ih =>
      rw [lexemes_blanks blank, ← ih]
      rcases valid with rfl | rfl | run
      · show lexemes ('(' :: rest) = "(" :: lexemes rest
        exact lexemes_parenthesis rfl
      · show lexemes (')' :: rest) = ")" :: lexemes rest
        exact lexemes_parenthesis rfl
      · have some : lexeme.toList ≠ [] := by simpa using run.1
        have ends := later.ends fun next first => apart next first run
        rw [lexemes_word some run.2 ends, String.ofList_toList]

theorem lexemes_eq_iff : lexemes chars = listed ↔ SpacedOut listed chars := by
  constructor
  · rintro rfl
    exact spacedOut_lexemes chars
  · intro spaced
    exact spaced.lexemes_eq

/-! ## Reading what is spaced out -/

theorem ofLexeme_keyword {c : Connective}
    (spelled : lexeme.toList.map Char.toUpper = c.name.toList) :
    ofLexeme lexeme = connective c := by
  have notOpening : lexeme ≠ "(" := by
    rintro rfl
    cases c <;> cases spelled
  have notClosing : lexeme ≠ ")" := by
    rintro rfl
    cases c <;> cases spelled
  rw [ofLexeme, if_neg notOpening, if_neg notClosing, ofKeyword?_eq_some_iff.2 spelled]

theorem Same.ofLexeme_eq {lexeme' : String} (same : Same lexeme lexeme') :
    ofLexeme lexeme = ofLexeme lexeme' := by
  rcases same with rfl | ⟨c, spelled, spelled'⟩
  · rfl
  · rw [ofLexeme_keyword spelled, ofLexeme_keyword spelled']

theorem map_ofLexeme_eq {listed' : List String} (same : List.Forall₂ Same listed listed') :
    listed.map ofLexeme = listed'.map ofLexeme := by
  induction same with
  | nil => rfl
  | cons here _ ih => rw [List.map_cons, List.map_cons, here.ofLexeme_eq, ih]

theorem parse_of_spacedOut {text other : String} {listed' : List String}
    (spaced : SpacedOut listed text.toList) (spaced' : SpacedOut listed' other.toList)
    (same : List.Forall₂ Same listed listed') : Rule.parse text = Rule.parse other := by
  have tokens : ofText text = ofText other := by
    rw [ofText, ofText, spaced.lexemes_eq, spaced'.lexemes_eq, map_ofLexeme_eq same]
  rw [Rule.parse, Rule.parse, tokens]

/-- A text is cut into the tokens that it spaces out, of which there is one list
for each text, which loses nothing but blanks; and texts that space out the same
tokens, with connectives in any letters, are read or refused alike. -/
theorem lexemes_spacing (text : String) :
    (∀ listed, lexemes text.toList = listed ↔ SpacedOut listed text.toList) ∧
    (∃! listed, SpacedOut listed text.toList) ∧
    (lexemes text.toList).flatMap String.toList =
      text.toList.filter (fun c => !Text.isBlank c) ∧
    ∀ other listed listed', SpacedOut listed text.toList → SpacedOut listed' other.toList →
      List.Forall₂ Same listed listed' → Rule.parse text = Rule.parse other := by
  refine ⟨?_, ⟨lexemes text.toList, spacedOut_lexemes _, ?_⟩, flatMap_lexemes _, ?_⟩
  · intro listed
    exact lexemes_eq_iff
  · intro listed spaced
    exact spaced.lexemes_eq.symm
  · intro other listed listed' spaced spaced' same
    exact parse_of_spacedOut spaced spaced' same

end Token

end Criteria
