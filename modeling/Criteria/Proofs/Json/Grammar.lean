/-
# Criteria.Proofs.Json.Grammar -- the texts of a term

A second account of JSON, which says what may be written rather than how it is
read: `Spells chars term rest` holds when the characters start with a text of
the term and `rest` follows it. Between two tokens there may be any blanks, and
each character of a string may be written plainly or by any escape that stands
for it.

The grammar does not ask for longest runs, so `12` spells a numeral in front of
`2` as well as one in front of the end. What has to follow a numeral for a
reader to take it whole is `Text.Ends Numeral.continues`, and a text inside an
array or an object is always followed so.
-/
import Criteria.Json.Term
import Criteria.Proofs.Text.Run

namespace Criteria.Json

set_option autoImplicit false

open Text (Ends ends_cons)

/-- Any number of blanks, and what follows them. -/
inductive Blanks : List Char → List Char → Prop
  | none (rest : List Char) : Blanks rest rest
  | more {c : Char} {chars rest : List Char} (blank : isSpace c) (others : Blanks chars rest) :
      Blanks (c :: chars) rest

/-- The pieces of a string up to and including its closing quotation mark. -/
inductive Piece.Spells : List Char → List Piece → List Char → Prop
  | closing (rest : List Char) : Spells ('"' :: rest) [] rest
  | plain {c : Char} {chars rest : List Char} {pieces : List Piece} (printable : 0x20 ≤ c.toNat)
      (notQuote : c ≠ '"') (notBackslash : c ≠ '\\') (others : Spells chars pieces rest) :
      Spells (c :: chars) (.plain c :: pieces) rest
  | letter {letter c : Char} {chars rest : List Char} {pieces : List Piece}
      (stands : ofLetter? letter = some c) (others : Spells chars pieces rest) :
      Spells ('\\' :: letter :: chars) (.plain c :: pieces) rest
  | unit {w x y z : Char} {code : Nat} {chars rest : List Char} {pieces : List Piece}
      (digits : hexCode? w x y z = some code) (others : Spells chars pieces rest) :
      Spells ('\\' :: 'u' :: w :: x :: y :: z :: chars) (.unit code :: pieces) rest

namespace Numeral

/-- The exponent of a numeral, with its letter, if there is one. -/
inductive SpellsExponent : List Char → Option Int → Prop
  | none : SpellsExponent [] none
  | plain {letter : Char} {digits : List Char} (marked : letter = 'e' ∨ letter = 'E')
      (nonempty : digits ≠ []) (all : ∀ c ∈ digits, c.isDigit) :
      SpellsExponent (letter :: digits) (some (Decimal.value digits))
  | plus {letter : Char} {digits : List Char} (marked : letter = 'e' ∨ letter = 'E')
      (nonempty : digits ≠ []) (all : ∀ c ∈ digits, c.isDigit) :
      SpellsExponent (letter :: '+' :: digits) (some (Decimal.value digits))
  | minus {letter : Char} {digits : List Char} (marked : letter = 'e' ∨ letter = 'E')
      (nonempty : digits ≠ []) (all : ∀ c ∈ digits, c.isDigit) :
      SpellsExponent (letter :: '-' :: digits) (some (-(Decimal.value digits : Int)))

def signText (n : Numeral) : List Char := if n.negative then ['-'] else []

/-- The point and the digits behind it, if there are any. -/
def fractionText (n : Numeral) : List Char :=
  if n.fraction = [] then [] else '.' :: n.fraction

/-- What the digits of a numeral have to be. -/
structure WellFormed (n : Numeral) : Prop where
  whole_ne_nil : n.whole ≠ []
  whole_digits : ∀ c ∈ n.whole, c.isDigit
  /-- Zero stands in front of no other digit. -/
  leading : n.whole.head? = some '0' → n.whole = ['0']
  fraction_digits : ∀ c ∈ n.fraction, c.isDigit

/-- Characters by which a numeral that has no exponent yet may go on. -/
def continues (c : Char) : Bool := c.isDigit || c == '.' || c == 'e' || c == 'E'

end Numeral

mutual

/-- The characters start with a text of the term, which the rest follows. -/
inductive Spells : List Char → Term → List Char → Prop
  | null (rest : List Char) : Spells ('n' :: 'u' :: 'l' :: 'l' :: rest) .null rest
  | yes (rest : List Char) : Spells ('t' :: 'r' :: 'u' :: 'e' :: rest) (.bool true) rest
  | no (rest : List Char) :
      Spells ('f' :: 'a' :: 'l' :: 's' :: 'e' :: rest) (.bool false) rest
  | number {n : Numeral} {exponent : List Char} (formed : n.WellFormed)
      (tail : Numeral.SpellsExponent exponent n.exponent?) (rest : List Char) :
      Spells (n.signText ++ (n.whole ++ (n.fractionText ++ (exponent ++ rest)))) (.number n) rest
  | string {chars rest : List Char} {pieces : List Piece} (inside : Piece.Spells chars pieces rest) :
      Spells ('"' :: chars) (.string pieces) rest
  | emptyArray {chars rest : List Char} (inside : Blanks chars (']' :: rest)) :
      Spells ('[' :: chars) (.array []) rest
  | array {chars rest : List Char} {items : List Term} (inside : SpellsItems chars items rest) :
      Spells ('[' :: chars) (.array items) rest
  | emptyObject {chars rest : List Char} (inside : Blanks chars ('\x7d' :: rest)) :
      Spells ('\x7b' :: chars) (.object []) rest
  | object {chars rest : List Char} {members : List (List Piece × Term)}
      (inside : SpellsMembers chars members rest) :
      Spells ('\x7b' :: chars) (.object members) rest

/-- One or more items up to and including the closing bracket. -/
inductive SpellsItems : List Char → List Term → List Char → Prop
  | last {chars text after rest : List Char} {item : Term} (before : Blanks chars text)
      (spelled : Spells text item after) (behind : Blanks after (']' :: rest)) :
      SpellsItems chars [item] rest
  | more {chars text after next rest : List Char} {item : Term} {items : List Term}
      (before : Blanks chars text) (spelled : Spells text item after)
      (behind : Blanks after (',' :: next)) (others : SpellsItems next items rest) :
      SpellsItems chars (item :: items) rest

/-- One or more members up to and including the closing brace. -/
inductive SpellsMembers : List Char → List (List Piece × Term) → List Char → Prop
  | last {chars quoted colon value text after rest : List Char} {name : List Piece} {term : Term}
      (before : Blanks chars ('"' :: quoted)) (named : Piece.Spells quoted name colon)
      (between : Blanks colon (':' :: value)) (within : Blanks value text)
      (spelled : Spells text term after) (behind : Blanks after ('\x7d' :: rest)) :
      SpellsMembers chars [(name, term)] rest
  | more {chars quoted colon value text after next rest : List Char} {name : List Piece}
      {term : Term} {members : List (List Piece × Term)}
      (before : Blanks chars ('"' :: quoted)) (named : Piece.Spells quoted name colon)
      (between : Blanks colon (':' :: value)) (within : Blanks value text)
      (spelled : Spells text term after) (behind : Blanks after (',' :: next))
      (others : SpellsMembers next members rest) :
      SpellsMembers chars ((name, term) :: members) rest

end

/-! ## Blanks -/

theorem Blanks.skipSpace_eq {chars rest : List Char} (blanks : Blanks chars rest) :
    skipSpace chars = skipSpace rest := by
  induction blanks with
  | none rest => rfl
  | more blank _ ih => rw [skipSpace, List.dropWhile_cons, if_pos blank]; exact ih

theorem skipSpace_cons {c : Char} {rest : List Char} (solid : isSpace c = false) :
    skipSpace (c :: rest) = c :: rest :=
  Text.dropWhile_of_ends (ends_cons.2 solid)

theorem Blanks.skipSpace_cons {c : Char} {chars rest : List Char} (blanks : Blanks chars (c :: rest))
    (solid : isSpace c = false) : skipSpace chars = c :: rest := by
  rw [blanks.skipSpace_eq, Json.skipSpace_cons solid]

theorem blanks_skipSpace (chars : List Char) : Blanks chars (skipSpace chars) := by
  induction chars with
  | nil => exact .none []
  | cons c chars ih =>
      rw [skipSpace, List.dropWhile_cons]
      split
      · rename_i blank; exact .more blank ih
      · exact .none _

theorem Blanks.length_le {chars rest : List Char} (blanks : Blanks chars rest) :
    rest.length ≤ chars.length := by
  induction blanks with
  | none rest => exact Nat.le_refl _
  | more _ _ ih => exact Nat.le_succ_of_le ih

/-- Blanks belong to no class that leaves them out. -/
theorem Blanks.ends {belongs : Char → Bool} {chars rest : List Char} (blanks : Blanks chars rest)
    (apart : ∀ c, isSpace c → belongs c = false) (ends : Ends belongs rest) :
    Ends belongs chars := by
  cases blanks with
  | none => exact ends
  | more blank _ => exact ends_cons.2 (apart _ blank)

theorem isSpace_eq_true_iff {c : Char} :
    isSpace c ↔ c = ' ' ∨ c = '\t' ∨ c = '\n' ∨ c = '\r' := by
  simp [isSpace, or_assoc]

theorem Numeral.continues_of_isSpace {c : Char} (space : isSpace c) : continues c = false := by
  rcases isSpace_eq_true_iff.1 space with rfl | rfl | rfl | rfl <;> rfl

end Criteria.Json
