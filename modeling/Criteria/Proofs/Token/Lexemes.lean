/-
# Criteria.Proofs.Token.Lexemes -- the token at the front of a text

A text is cut from the left. A blank in front is passed over, a parenthesis is a
token by itself, and word characters up to something else are one token; so the
tokens of a text can be told piece by piece, whatever follows, and a fact about
all texts is proved piece by piece (`cut_induction`). A `CleanWord` is one that is
a word wherever it stands, and a clean clause is made of such words with one space
between two. A text contains no other words (`cleanWord_of_mem_ofText`).
-/
import Criteria.Proofs.Text.Run
import Criteria.Token

namespace Criteria.Token

set_option autoImplicit false

open Text (Ends)

/-! ## Cutting -/

theorem lexemes_nil : lexemes [] = [] := by rw [lexemes]

theorem lexemes_blank {c : Char} {rest : List Char} (blank : Text.isBlank c) :
    lexemes (c :: rest) = lexemes rest := by
  rw [lexemes, if_pos blank]

theorem isParenthesis_iff {c : Char} : isParenthesis c ↔ c = '(' ∨ c = ')' := by
  simp [isParenthesis]

theorem isBlank_parenthesis {c : Char} (parenthesis : isParenthesis c) :
    Text.isBlank c = false := by
  rcases isParenthesis_iff.1 parenthesis with rfl | rfl <;> rfl

theorem lexemes_parenthesis {c : Char} {rest : List Char} (parenthesis : isParenthesis c) :
    lexemes (c :: rest) = String.ofList [c] :: lexemes rest := by
  rw [lexemes, if_neg (by rw [isBlank_parenthesis parenthesis]; decide), if_pos parenthesis]

theorem isWordChar_iff {c : Char} :
    isWordChar c ↔ Text.isBlank c = false ∧ isParenthesis c = false := by
  simp [isWordChar]

theorem ends_space (rest : List Char) : Ends isWordChar (' ' :: rest) :=
  Text.ends_cons.2 rfl

/-- A run of word characters that something else ends is one token. -/
theorem lexemes_word {word rest : List Char} (some : word ≠ [])
    (inside : ∀ c ∈ word, isWordChar c) (ends : Ends isWordChar rest) :
    lexemes (word ++ rest) = String.ofList word :: lexemes rest := by
  obtain ⟨c, word, rfl⟩ := List.exists_cons_of_ne_nil some
  obtain ⟨solid, single⟩ := isWordChar_iff.1 (inside c List.mem_cons_self)
  have others : ∀ d ∈ word, isWordChar d := by
    intro d member
    exact inside d (List.mem_cons_of_mem c member)
  rw [List.cons_append, lexemes, if_neg (by rw [solid]; decide), if_neg (by rw [single]; decide),
    Text.takeWhile_run others ends, Text.dropWhile_run others ends]

/-- Every text is put together in front of the empty one, from blanks,
parentheses and runs that nothing continues. -/
@[elab_as_elim]
theorem cut_induction {motive : List Char → Prop} (nil : motive [])
    (blank : ∀ c rest, Text.isBlank c → motive rest → motive (c :: rest))
    (parenthesis : ∀ c rest, isParenthesis c → motive rest → motive (c :: rest))
    (run : ∀ word rest, word ≠ [] → (∀ c ∈ word, isWordChar c) → Ends isWordChar rest →
      motive rest → motive (word ++ rest)) (chars : List Char) : motive chars := by
  fun_induction lexemes chars with
  | case1 => exact nil
  | case2 c rest white ih => exact blank c rest white ih
  | case3 c rest solid single ih => exact parenthesis c rest single ih
  | case4 c rest solid single ih =>
      have cut : c :: rest = (c :: rest.takeWhile isWordChar) ++ rest.dropWhile isWordChar := by
        simp
      rw [cut]
      refine run _ _ (List.cons_ne_nil _ _) ?_ (Text.ends_dropWhile _ _) ih
      intro d member
      rcases List.mem_cons.1 member with rfl | inside
      · exact isWordChar_iff.2 ⟨by simpa using solid, by simpa using single⟩
      · exact List.all_eq_true.1 List.all_takeWhile d inside

/-! ## What is cut -/

/-- One or more characters, none of them a blank or a parenthesis. -/
def IsRun (lexeme : String) : Prop := lexeme ≠ "" ∧ ∀ c ∈ lexeme.toList, isWordChar c

/-- The texts of tokens. -/
def IsLexeme (lexeme : String) : Prop := lexeme = "(" ∨ lexeme = ")" ∨ IsRun lexeme

theorem isLexeme_parenthesis {c : Char} (parenthesis : isParenthesis c) :
    IsLexeme (String.ofList [c]) := by
  rcases isParenthesis_iff.1 parenthesis with rfl | rfl
  · exact .inl rfl
  · exact .inr (.inl rfl)

theorem not_isRun_parenthesis {c : Char} (parenthesis : isParenthesis c) :
    ¬ IsRun (String.ofList [c]) := by
  rintro ⟨-, inside⟩
  have single := isWordChar_iff.1 (inside c (by simp))
  rw [parenthesis] at single
  cases single.2

theorem isRun_ofList {word : List Char} (some : word ≠ []) (inside : ∀ c ∈ word, isWordChar c) :
    IsRun (String.ofList word) := by
  refine ⟨by simpa using some, ?_⟩
  rw [String.toList_ofList]
  exact inside

theorem isLexeme_of_mem {chars : List Char} {lexeme : String} (listed : lexeme ∈ lexemes chars) :
    IsLexeme lexeme := by
  induction chars using cut_induction with
  | nil => simp [lexemes_nil] at listed
  | blank c rest white ih =>
      rw [lexemes_blank white] at listed
      exact ih listed
  | parenthesis c rest single ih =>
      rw [lexemes_parenthesis single] at listed
      rcases List.mem_cons.1 listed with rfl | later
      · exact isLexeme_parenthesis single
      · exact ih later
  | run word rest some inside ends ih =>
      rw [lexemes_word some inside ends] at listed
      rcases List.mem_cons.1 listed with rfl | later
      · exact .inr (.inr (isRun_ofList some inside))
      · exact ih later

/-! ## Clean words -/

/-- A word without blanks and parentheses that spells no connective. -/
structure CleanWord (word : String) : Prop where
  ne_empty : word ≠ ""
  no_blank : ∀ c ∈ word.toList, Text.isBlank c = false
  no_parenthesis : ∀ c ∈ word.toList, c ≠ '(' ∧ c ≠ ')'
  no_keyword : ∀ c : Connective, word.toList.map Char.toUpper ≠ c.name.toList

theorem ofKeyword?_eq_some_iff {word : String} {c : Connective} :
    Connective.ofKeyword? word = some c ↔ word.toList.map Char.toUpper = c.name.toList := by
  constructor
  · intro known
    unfold Connective.ofKeyword? at known
    split at known
    · cases known; assumption
    · cases known; assumption
    · cases known
  · intro spelled
    rw [Connective.ofKeyword?, spelled]
    cases c <;> rfl

theorem ofKeyword?_eq_none_iff {word : String} : Connective.ofKeyword? word = none ↔
    ∀ c : Connective, word.toList.map Char.toUpper ≠ c.name.toList := by
  simp only [Option.eq_none_iff_forall_ne_some, ne_eq, ofKeyword?_eq_some_iff]

/-- What reading has to find out about a word. -/
theorem cleanWord_iff {word : String} : CleanWord word ↔
    word ≠ "" ∧ (∀ c ∈ word.toList, isWordChar c) ∧ Connective.ofKeyword? word = none := by
  constructor
  · intro clean
    refine ⟨clean.ne_empty, ?_, ofKeyword?_eq_none_iff.2 clean.no_keyword⟩
    intro c member
    have single := clean.no_parenthesis c member
    apply isWordChar_iff.2
    exact ⟨clean.no_blank c member, by simpa [isParenthesis] using single⟩
  · rintro ⟨some, inside, unknown⟩
    refine ⟨some, ?_, ?_, ofKeyword?_eq_none_iff.1 unknown⟩
    · intro c member
      exact (isWordChar_iff.1 (inside c member)).1
    · intro c member
      simpa [isParenthesis] using (isWordChar_iff.1 (inside c member)).2

instance (word : String) : Decidable (CleanWord word) :=
  decidable_of_iff (word ≠ "" ∧ word.toList.all isWordChar ∧ Connective.ofKeyword? word = none)
    (by rw [List.all_eq_true, cleanWord_iff])

theorem CleanWord.ofLexeme_eq {lexeme : String} (clean : CleanWord lexeme) :
    ofLexeme lexeme = word lexeme := by
  obtain ⟨-, inside, unknown⟩ := cleanWord_iff.1 clean
  have notOpening : lexeme ≠ "(" := by
    rintro rfl
    exact absurd (inside '(' (by decide)) (by decide)
  have notClosing : lexeme ≠ ")" := by
    rintro rfl
    exact absurd (inside ')' (by decide)) (by decide)
  rw [ofLexeme, if_neg notOpening, if_neg notClosing, unknown]

theorem ofLexeme_eq_word {lexeme text : String} (same : ofLexeme lexeme = word text) :
    lexeme = text ∧ lexeme ≠ "(" ∧ lexeme ≠ ")" ∧ Connective.ofKeyword? lexeme = none := by
  unfold ofLexeme at same
  split at same
  · cases same
  · split at same
    · cases same
    · split at same
      · cases same
      · rename_i notOpening notClosing _ unknown
        cases same
        exact ⟨rfl, notOpening, notClosing, unknown⟩

/-- Whatever is read as a word is a clean one. -/
theorem cleanWord_of_mem_ofText {text lexeme : String} (listed : word lexeme ∈ ofText text) :
    CleanWord lexeme := by
  obtain ⟨original, cut, same⟩ := List.mem_map.1 listed
  obtain ⟨rfl, notOpening, notClosing, unknown⟩ := ofLexeme_eq_word same
  rcases isLexeme_of_mem cut with opening | closing | ⟨some, inside⟩
  · exact absurd opening notOpening
  · exact absurd closing notClosing
  · exact cleanWord_iff.2 ⟨some, inside, unknown⟩

/-- One or more clean words with one space between two. -/
def CleanClause (clause : String) : Prop :=
  ∃ words, words ≠ [] ∧ (∀ word ∈ words, CleanWord word) ∧ clause = " ".intercalate words

end Criteria.Token
