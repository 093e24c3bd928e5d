/-
# Criteria.Proofs.Engine.Combination -- what comes of combining some texts

An engine first finds out which connective is meant (`Settings.Asks`), then every
text is read, then the rules are joined. So an unknown connective is reported
whatever the texts are; the first text without a reading decides even where the
rules before it would already be too tall together (`combine_of_firstRefused`); and
once all are read, only the heights of their rules count. `combine_outcome` puts
the cases together: there are no others, and each has one outcome.
-/
import Criteria.Engine
import Criteria.Proofs.Evaluation.Row
import Criteria.Proofs.Rule.Joined

namespace Criteria

set_option autoImplicit false

/-! ## Names of connectives -/

namespace Text

theorem Ends.of_append {belongs : Char → Bool} {chars rest : List Char}
    (ends : Ends belongs (chars ++ rest)) : Ends belongs chars := by
  cases chars with
  | nil => exact ends_nil
  | cons c chars => exact ends_cons.2 (ends_cons.1 ends)

/-- A text without blanks at its ends has none to lose. -/
theorem trim_trim (text : String) : trim (trim text) = trim text := by
  have starts := ends_dropWhile isBlank text.toList
  have stops := ends_dropWhile isBlank (text.toList.dropWhile isBlank).reverse
  obtain ⟨tail, cut⟩ := List.dropWhile_suffix (l := (text.toList.dropWhile isBlank).reverse) isBlank
  unfold trim
  generalize (text.toList.dropWhile isBlank).reverse.dropWhile isBlank = middle at stops cut ⊢
  rw [← List.reverse_reverse (text.toList.dropWhile isBlank), ← cut, List.reverse_append] at starts
  rw [String.toList_ofList, dropWhile_of_ends starts.of_append, List.reverse_reverse,
    dropWhile_of_ends stops]

end Text

namespace Settings

/-- What a caller names, the default where nothing or a blank is named. -/
inductive Asks (settings : Settings) : Option String → Connective → Prop
  | unnamed : Asks settings none settings.defaultConnective
  | blank {name : String} (blank : Text.trim name = "") :
      Asks settings (some name) settings.defaultConnective
  | named {name : String} {c : Connective}
      (spelled : (Text.trim name).toList.map Char.toUpper = c.name.toList) :
      Asks settings (some name) c

variable {settings : Settings} {requested : Option String} {c : Connective} {name : String}

theorem Asks.resolve_eq (asks : settings.Asks requested c) :
    settings.resolve requested = .ok c := by
  cases asks with
  | unnamed => rfl
  | blank blank => simp [resolve, blank]
  | @named name c spelled =>
      have solid : Text.trim name ≠ "" := by
        intro blank
        rw [blank] at spelled
        cases c <;> cases spelled
      have known := Token.ofKeyword?_eq_some_iff.2 spelled
      simp [resolve, solid, Connective.parse, Text.trim_trim, known]

theorem resolve_of_unknown (solid : Text.trim name ≠ "")
    (unknown : ∀ c : Connective, (Text.trim name).toList.map Char.toUpper ≠ c.name.toList) :
    settings.resolve (some name) = .error (.unknownConnective (Text.trim name)) := by
  simp [resolve, solid, Connective.parse, Text.trim_trim, Token.ofKeyword?_eq_none_iff.2 unknown]

end Settings

/-! ## Texts -/

namespace Rule

/-- The fault of the first text that has no reading. -/
def FirstRefused (texts : List String) (error : Error) : Prop :=
  ∃ before text after, texts = before ++ text :: after ∧
    (∀ earlier ∈ before, ∃ rule, parse earlier = .ok rule) ∧ parse text = .error error

variable {texts : List String} {rules : List Rule} {c : Connective} {error : Error}

theorem firstRefused_or_read (texts : List String) :
    (∃ error, FirstRefused texts error) ∨ ∃ rules : List Rule, texts.map parse = rules.map .ok := by
  induction texts with
  | nil => exact .inr ⟨[], rfl⟩
  | cons text texts ih =>
      cases read : parse text with
      | error error => exact .inl ⟨error, [], text, texts, rfl, by simp, read⟩
      | ok rule =>
          rcases ih with ⟨error, before, refused, after, rfl, readable, fault⟩ | ⟨rules, others⟩
          · refine .inl ⟨error, text :: before, refused, after, rfl, ?_, fault⟩
            exact List.forall_mem_cons.2 ⟨⟨rule, read⟩, readable⟩
          · exact .inr ⟨rule :: rules, by rw [List.map_cons, List.map_cons, read, others]⟩

theorem parseAll_of_firstRefused (first : FirstRefused texts error) :
    parseAll texts = .error error := by
  obtain ⟨before, text, after, rfl, readable, refused⟩ := first
  induction before with
  | nil => exact bind_eq_error_iff.2 (.inl refused)
  | cons earlier before ih =>
      obtain ⟨⟨rule, read⟩, others⟩ := List.forall_mem_cons.1 readable
      exact bind_eq_error_iff.2 (.inr ⟨rule, read, bind_eq_error_iff.2 (.inl (ih others))⟩)

theorem combine_of_firstRefused (c : Connective) (first : FirstRefused texts error) :
    combine c texts = .error error :=
  bind_eq_error_iff.2 (.inl (parseAll_of_firstRefused first))

theorem combine_of_read (c : Connective) (read : texts.map parse = rules.map .ok) :
    combine c texts = joinAll c rules := by
  rw [combine, parseAll_of_map_parse read]
  rfl

theorem height_le_of_read (read : texts.map parse = rules.map .ok) :
    ∀ rule ∈ rules, rule.height ≤ maxHeight := by
  intro rule member
  obtain ⟨text, readHere⟩ := exists_parse_of_mem read member
  have sound := parse_sound readHere
  rw [sound.height_eq]
  exact sound.levels_le

/-- Only of no texts at all is it said that there are none. -/
theorem combine_eq_nothing_iff : combine c texts = .error .nothingToCombine ↔ texts = [] := by
  constructor
  · intro nothing
    rcases firstRefused_or_read texts with ⟨error, first⟩ | ⟨rules, read⟩
    · -- a text is refused for its structure
      obtain ⟨before, text, after, -, -, refused⟩ := id first
      obtain ⟨fault, operands, rfl, -⟩ := parse_explains refused
      rw [combine_of_firstRefused c first] at nothing
      cases nothing
    · by_cases none : rules = []
      · subst none
        exact List.map_eq_nil_iff.1 read
      · rw [combine_of_read c read, joinAll_eq_error_iff none (height_le_of_read read)] at nothing
        cases nothing.2
  · rintro rfl
    rfl

end Rule

/-! ## The engine -/

namespace Engine

open Rule (FirstRefused Joined joinedHeight parse)

/-- Texts are combined under the connective that is asked for, which is looked at
before any text. The first text without a reading is the fault of the whole, no
texts at all are refused, and the rules of texts that are all read are joined from
the left, each unchanged, if and only if they fit into 256 levels so. -/
theorem combine_outcome (engine : Engine) (texts : List String) :
    (∀ requested c, engine.settings.Asks requested c →
      engine.combine texts requested = Rule.combine c texts) ∧
    (∀ name, Text.trim name ≠ "" →
      (∀ c : Connective, (Text.trim name).toList.map Char.toUpper ≠ c.name.toList) →
      engine.combine texts (some name) = .error (.unknownConnective (Text.trim name))) ∧
    ((∃ error, FirstRefused texts error) ∨ ∃ rules : List Rule, texts.map parse = rules.map .ok) ∧
    ∀ c,
      (∀ error, FirstRefused texts error → Rule.combine c texts = .error error) ∧
      (Rule.combine c texts = .error .nothingToCombine ↔ texts = []) ∧
      ∀ rules, rules ≠ [] → texts.map parse = rules.map .ok →
        (joinedHeight rules ≤ 256 → ∃ rule, Rule.combine c texts = .ok rule ∧ Joined c rules rule) ∧
        (256 < joinedHeight rules → Rule.combine c texts = .error .nestingTooDeep) := by
  refine ⟨?_, ?_, Rule.firstRefused_or_read texts, ?_⟩
  · intro requested c asks
    rw [combine, asks.resolve_eq]
    rfl
  · intro name solid unknown
    rw [combine, Settings.resolve_of_unknown solid unknown]
    rfl
  · intro c
    refine ⟨?_, Rule.combine_eq_nothing_iff, ?_⟩
    · intro error first
      exact Rule.combine_of_firstRefused c first
    · intro rules some read
      have low := Rule.height_le_of_read read
      rw [Rule.combine_of_read c read]
      refine ⟨?_, ?_⟩
      · intro fits
        obtain ⟨rule, done⟩ := Rule.exists_joinAll some low fits
        exact ⟨rule, done, Rule.joined_of_joinAll done⟩
      · intro tall
        exact (Rule.joinAll_eq_error_iff some low).2 ⟨tall, rfl⟩

end Engine

end Criteria
