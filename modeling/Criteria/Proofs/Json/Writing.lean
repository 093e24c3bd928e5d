/-
# Criteria.Proofs.Json.Writing -- what is written is a text of what was meant

`quote` writes a text of its characters and `toString` one of a natural number:
`spells_quote` and `spells_toString` name the string and the numeral that are
spelled. That the string means the characters again is `text?_ofText`; what the
numeral means is left to those who read numbers of one kind.
-/
import Criteria.Proofs.Json.Grammar

namespace Criteria.Json

set_option autoImplicit false

/-! ## Strings -/

namespace Piece

/-- The piece as which a character is written. -/
def ofChar (c : Char) : Piece :=
  match c with
  | '\x08' | '\x0c' | '\n' | '\r' | '\t' => plain c
  | c => if c.toNat < 0x20 then unit c.toNat else plain c

theorem ofChar_eq (c : Char) :
    ofChar c = plain c ∨ c.toNat < 0x20 ∧ ofChar c = unit c.toNat := by
  unfold ofChar
  split
  case h_6 =>
    split
    · rename_i control; exact .inr ⟨control, rfl⟩
    · exact .inl rfl
  all_goals exact .inl rfl

theorem hexCode?_control : ∀ code < 0x20,
    hexCode? '0' '0' (Nat.digitChar (code / 16)) (Nat.digitChar (code % 16)) = some code := by
  decide

theorem spells_escape (c : Char) {chars rest : List Char} {pieces : List Piece}
    (others : Spells chars pieces rest) : Spells (escape c ++ chars) (ofChar c :: pieces) rest := by
  unfold escape
  split
  · exact .letter rfl others
  · exact .letter rfl others
  · exact .letter rfl others
  · exact .letter rfl others
  · exact .letter rfl others
  · exact .letter rfl others
  · exact .letter rfl others
  · rename_i notQuote notBackslash back feed newline ret tab
    rw [ofChar.eq_6 _ back feed newline ret tab]
    split
    · rename_i control
      exact .unit (hexCode?_control c.toNat control) others
    · rename_i printable
      exact .plain (by omega) notQuote notBackslash others

theorem spells_flatMap_escape (chars rest : List Char) :
    Spells (chars.flatMap escape ++ '"' :: rest) (chars.map ofChar) rest := by
  induction chars with
  | nil => exact .closing rest
  | cons c chars ih =>
      rw [List.flatMap_cons, List.append_assoc, List.map_cons]
      exact spells_escape c ih

/-- A unit that is no half of a pair is a character by itself. -/
theorem chars?_unit {code : Nat} (whole : ¬ (IsHigh code ∨ IsLow code)) (pieces : List Piece) :
    chars? (unit code :: pieces) = (chars? pieces).map (Char.ofNat code :: ·) := by
  obtain ⟨notHigh, notLow⟩ := not_or.1 whole
  rw [chars?.eq_def]
  split <;> simp_all

theorem chars?_map_ofChar (chars : List Char) : chars? (chars.map ofChar) = some chars := by
  induction chars with
  | nil => rfl
  | cons c chars ih =>
      rw [List.map_cons]
      rcases ofChar_eq c with same | ⟨control, same⟩
      · rw [same, chars?, ih]
        rfl
      · have whole : ¬ (IsHigh c.toNat ∨ IsLow c.toNat) := by simp only [IsHigh, IsLow]; omega
        rw [same, chars?_unit whole, ih, Char.ofNat_toNat]
        rfl

/-- The pieces of a text as it is written. -/
def ofText (text : String) : List Piece := text.toList.map ofChar

theorem text?_ofText (text : String) : text? (ofText text) = some text := by
  rw [text?, ofText, chars?_map_ofChar, Option.map_some, String.ofList_toList]

theorem spells_quote (text : String) (rest : List Char) :
    ∃ chars, (quote text).toList ++ rest = '"' :: chars ∧ Spells chars (ofText text) rest := by
  refine ⟨text.toList.flatMap escape ++ '"' :: rest, ?_, spells_flatMap_escape text.toList rest⟩
  simp [quote, quoteChars]

end Piece

theorem spells_quote (text : String) (rest : List Char) :
    Spells ((quote text).toList ++ rest) (.string (Piece.ofText text)) rest := by
  obtain ⟨chars, same, inside⟩ := Piece.spells_quote text rest
  rw [same]
  exact .string inside

/-- A text in which nothing is escaped stands between quotation marks as it is. -/
theorem toList_quote {text : String} (plain : text.toList.flatMap escape = text.toList) :
    (quote text).toList = '"' :: (text.toList ++ ['"']) := by
  rw [quote, String.toList_ofList, quoteChars, plain]
  rfl

/-! ## Numbers -/

namespace Numeral

def ofNat (n : Nat) : Numeral := ⟨false, Nat.toDigits 10 n, [], none⟩

/-- Only zero is written with a zero in front. -/
theorem eq_zero_of_head?_toDigits {n : Nat} (zero : (Nat.toDigits 10 n).head? = some '0') :
    n = 0 := by
  induction n using Nat.strongRecOn with
  | _ n ih =>
      by_cases small : n < 10
      · rw [Nat.toDigits_of_lt_base small] at zero
        have digits : ∀ k < 10, Nat.digitChar k = '0' → k = 0 := by decide
        exact digits n small (by simpa using zero)
      · rw [Nat.toDigits_of_base_le (by decide) (by omega), List.head?_append] at zero
        obtain ⟨first, others, leading⟩ :=
          List.exists_cons_of_ne_nil (Nat.toDigits_ne_nil (n := n / 10) (b := 10))
        rw [leading] at zero
        have := ih (n / 10) (by omega) (by rw [leading]; exact zero)
        omega

theorem wellFormed_ofNat (n : Nat) : (ofNat n).WellFormed where
  whole_ne_nil := Nat.toDigits_ne_nil
  whole_digits c member := Nat.isDigit_of_mem_toDigits (by decide) (by decide) member
  leading zero := by
    rw [ofNat, eq_zero_of_head?_toDigits zero, Nat.toDigits_zero]
  fraction_digits := by simp [ofNat]

end Numeral

theorem spells_toString (n : Nat) (rest : List Char) :
    Spells ((toString n).toList ++ rest) (.number (Numeral.ofNat n)) rest := by
  have spelled := Spells.number (Numeral.wellFormed_ofNat n) Numeral.SpellsExponent.none rest
  simpa [Numeral.ofNat, Numeral.signText, Numeral.fractionText] using spelled

/-! ## Members without blanks -/

theorem spellsMembers_more {name : String} {text next rest : List Char} {term : Term}
    {members : List (List Piece × Term)} (spelled : Spells text term (',' :: next))
    (others : SpellsMembers next members rest) :
    SpellsMembers ((quote name).toList ++ ':' :: text) ((Piece.ofText name, term) :: members)
      rest := by
  obtain ⟨chars, same, inside⟩ := Piece.spells_quote name (':' :: text)
  rw [same]
  exact .more (.none _) inside (.none _) (.none _) spelled (.none _) others

theorem spellsMembers_last {name : String} {text rest : List Char} {term : Term}
    (spelled : Spells text term ('\x7d' :: rest)) :
    SpellsMembers ((quote name).toList ++ ':' :: text) [(Piece.ofText name, term)] rest := by
  obtain ⟨chars, same, inside⟩ := Piece.spells_quote name (':' :: text)
  rw [same]
  exact .last (.none _) inside (.none _) (.none _) spelled (.none _)

end Criteria.Json
