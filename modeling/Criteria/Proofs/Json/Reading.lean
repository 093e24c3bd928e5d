/-
# Criteria.Proofs.Json.Reading -- the reader takes every text of a term

What the grammar allows the reader accepts, and it takes the whole of it:
`Term.read?_of_spells`, for a text in front of anything that does not go on a
numeral. The bound on calls is met with room to spare, since every call for an
item or a member comes after a character that is gone (`Spells.length_lt`).
-/
import Criteria.Proofs.Json.Grammar

namespace Criteria.Json

set_option autoImplicit false

open Text (Ends ends_nil ends_cons takeWhile_run dropWhile_run)

/-! ## Strings -/

theorem Piece.read?_of_spells {chars rest : List Char} {pieces : List Piece}
    (spelled : Piece.Spells chars pieces rest) : read? chars = some (pieces, rest) := by
  induction spelled with
  | closing rest => rfl
  | plain printable notQuote notBackslash _ ih =>
      rw [read?.eq_5 _ _ notQuote (fun _ _ _ _ _ same _ => notBackslash same)
        (fun _ _ same _ => notBackslash same), if_neg (by omega), ih]
      rfl
  | letter stands _ ih =>
      rw [read?.eq_4 _ _ (by rintro _ _ _ _ _ rfl; simp [ofLetter?] at stands), stands, ih]
      rfl
  | unit digits _ ih =>
      rw [read?.eq_3, digits, ih]
      rfl

/-! ## Numerals -/

namespace Numeral

theorem readDigits?_run {digits rest : List Char} (nonempty : digits ≠ [])
    (all : ∀ c ∈ digits, c.isDigit) (ends : Ends Char.isDigit rest) :
    readDigits? (digits ++ rest) = some (digits, rest) := by
  rw [readDigits?, takeWhile_run all ends, dropWhile_run all ends, if_neg nonempty]

theorem readSign_signText (n : Numeral) {chars : List Char} (unsigned : Ends (· == '-') chars) :
    readSign (n.signText ++ chars) = (n.negative, chars) := by
  unfold signText
  cases n.negative with
  | true => rfl
  | false =>
      cases chars with
      | nil => rfl
      | cons c chars =>
          have notMinus : c ≠ '-' := by simpa using ends_cons.1 unsigned
          exact readSign.eq_2 _ (by rintro _ same; cases same; exact notMinus rfl)

theorem WellFormed.readWhole? {n : Numeral} {rest : List Char} (formed : n.WellFormed)
    (ends : Ends Char.isDigit rest) : readWhole? (n.whole ++ rest) = some (n.whole, rest) := by
  have leading : ¬ (n.whole.head? = some '0' ∧ n.whole ≠ ['0']) := by
    rintro ⟨zero, more⟩
    exact more (formed.leading zero)
  rw [Numeral.readWhole?, readDigits?_run formed.whole_ne_nil formed.whole_digits ends]
  exact if_neg leading

theorem WellFormed.readFraction? {n : Numeral} {rest : List Char} (formed : n.WellFormed)
    (ends : Ends (fun c => c.isDigit || c == '.') rest) :
    readFraction? (n.fractionText ++ rest) = some (n.fraction, rest) := by
  unfold fractionText
  split
  · rename_i empty
    cases rest with
    | nil => simp [Numeral.readFraction?, empty]
    | cons c rest =>
        have notPoint : c ≠ '.' := by have := ends_cons.1 ends; simp_all
        rw [empty]
        exact Numeral.readFraction?.eq_2 _ (by rintro _ same; cases same; exact notPoint rfl)
  · rename_i nonempty
    apply readDigits?_run nonempty formed.fraction_digits
    intro c next
    have := ends c next
    simp_all

/-- What an exponent starts with is neither a digit nor a point. -/
theorem SpellsExponent.ends {text rest : List Char} {exponent? : Option Int}
    (spelled : SpellsExponent text exponent?) (ends : Ends continues rest) :
    Ends (fun c => c.isDigit || c == '.') (text ++ rest) := by
  cases spelled with
  | none =>
      intro c next
      have := ends c next
      simp_all [continues]
  | plain marked _ _ => rcases marked with rfl | rfl <;> exact ends_cons.2 rfl
  | plus marked _ _ => rcases marked with rfl | rfl <;> exact ends_cons.2 rfl
  | minus marked _ _ => rcases marked with rfl | rfl <;> exact ends_cons.2 rfl

theorem ends_isDigit_of_continues {rest : List Char} (ends : Ends continues rest) :
    Ends Char.isDigit rest := by
  intro c next
  have := ends c next
  simp_all [continues]

theorem SpellsExponent.readExponent? {text rest : List Char} {exponent? : Option Int}
    (spelled : SpellsExponent text exponent?) (ends : Ends continues rest) :
    readExponent? (text ++ rest) = some (exponent?, rest) := by
  have stops := ends_isDigit_of_continues ends
  cases spelled with
  | none =>
      cases rest with
      | nil => rfl
      | cons c rest =>
          have := ends_cons.1 ends
          simp_all [continues, Numeral.readExponent?]
  | @plain letter digits marked nonempty all =>
      obtain ⟨first, others, rfl⟩ := List.exists_cons_of_ne_nil nonempty
      have digit := all first List.mem_cons_self
      have unsigned : readExponentSign (first :: others ++ rest) = (false, first :: others ++ rest) :=
        readExponentSign.eq_3 _ (by rintro _ same; cases same; simp at digit)
          (by rintro _ same; cases same; simp at digit)
      simp only [List.cons_append] at unsigned
      simp only [List.cons_append, Numeral.readExponent?, if_pos marked, unsigned]
      rw [← List.cons_append, readDigits?_run nonempty all stops]
      rfl
  | plus marked nonempty all =>
      simp only [List.cons_append, Numeral.readExponent?, if_pos marked, readExponentSign]
      rw [readDigits?_run nonempty all stops]
      rfl
  | minus marked nonempty all =>
      simp only [List.cons_append, Numeral.readExponent?, if_pos marked, readExponentSign]
      rw [readDigits?_run nonempty all stops]
      rfl

theorem read?_of_wellFormed {n : Numeral} {exponent rest : List Char} (formed : n.WellFormed)
    (tail : SpellsExponent exponent n.exponent?) (ends : Ends continues rest) :
    read? (n.signText ++ (n.whole ++ (n.fractionText ++ (exponent ++ rest)))) = some (n, rest) := by
  have afterFraction := tail.ends ends
  have afterWhole : Ends Char.isDigit (n.fractionText ++ (exponent ++ rest)) := by
    unfold fractionText
    split
    · intro c next
      have := afterFraction c next
      simp_all
    · exact ends_cons.2 rfl
  have unsigned : Ends (· == '-') (n.whole ++ (n.fractionText ++ (exponent ++ rest))) := by
    obtain ⟨first, others, whole⟩ := List.exists_cons_of_ne_nil formed.whole_ne_nil
    have digit := formed.whole_digits first (by simp [whole])
    rw [whole]
    exact ends_cons.2 (by simpa using fun same : first = '-' => by simp [same] at digit)
  simp only [read?, readSign_signText n unsigned, formed.readWhole? afterWhole,
    formed.readFraction? afterFraction, tail.readExponent? ends, Option.bind_eq_bind,
    Option.bind_some]

theorem WellFormed.text_head {n : Numeral} (formed : n.WellFormed) (more : List Char) :
    ∃ c tail, n.signText ++ (n.whole ++ more) = c :: tail ∧ (c.isDigit ∨ c = '-') := by
  obtain ⟨first, others, whole⟩ := List.exists_cons_of_ne_nil formed.whole_ne_nil
  have digit := formed.whole_digits first (by simp [whole])
  rw [whole, signText]
  split
  · exact ⟨'-', _, rfl, .inr rfl⟩
  · exact ⟨first, _, rfl, .inl digit⟩

end Numeral

/-! ## Every text uses up characters -/

theorem Piece.Spells.length_lt {chars rest : List Char} {pieces : List Piece}
    (spelled : Piece.Spells chars pieces rest) : rest.length < chars.length := by
  induction spelled with
  | closing rest => simp
  | plain _ _ _ _ ih => simp only [List.length_cons]; omega
  | letter _ _ ih => simp only [List.length_cons]; omega
  | unit _ _ ih => simp only [List.length_cons]; omega

mutual

theorem Spells.length_lt {chars rest : List Char} {term : Term} :
    Spells chars term rest → rest.length < chars.length
  | .null _ => by simp only [List.length_cons]; omega
  | .yes _ => by simp only [List.length_cons]; omega
  | .no _ => by simp only [List.length_cons]; omega
  | .number formed _ _ => by
      have := List.length_pos_iff.2 formed.whole_ne_nil
      simp only [List.length_append]; omega
  | .string inside => Nat.lt_succ_of_lt inside.length_lt
  | .emptyArray inside => by have := inside.length_le; simp at *; omega
  | .array inside => Nat.lt_succ_of_lt inside.length_lt
  | .emptyObject inside => by have := inside.length_le; simp at *; omega
  | .object inside => Nat.lt_succ_of_lt inside.length_lt

theorem SpellsItems.length_lt {chars rest : List Char} {items : List Term} :
    SpellsItems chars items rest → rest.length < chars.length
  | .last before spelled behind => by
      have := before.length_le
      have := spelled.length_lt
      have := behind.length_le
      simp at *; omega
  | .more before spelled behind others => by
      have := before.length_le
      have := spelled.length_lt
      have := behind.length_le
      have := others.length_lt
      simp at *; omega

theorem SpellsMembers.length_lt {chars rest : List Char} {members : List (List Piece × Term)} :
    SpellsMembers chars members rest → rest.length < chars.length
  | .last before named between within spelled behind => by
      have := before.length_le
      have := named.length_lt
      have := between.length_le
      have := within.length_le
      have := spelled.length_lt
      have := behind.length_le
      simp at *; omega
  | .more before named between within spelled behind others => by
      have := before.length_le
      have := named.length_lt
      have := between.length_le
      have := within.length_le
      have := spelled.length_lt
      have := behind.length_le
      have := others.length_lt
      simp at *; omega

end

/-! ## Terms -/

/-- A text of a term starts with neither a blank nor a closing bracket. -/
theorem Spells.head {chars rest : List Char} {term : Term} (spelled : Spells chars term rest) :
    ∃ c tail, chars = c :: tail ∧ isSpace c = false ∧ c ≠ ']' := by
  cases spelled with
  | number formed tail rest =>
      obtain ⟨c, more, same, start⟩ := formed.text_head _
      refine ⟨c, more, same, ?_, ?_⟩
      · rw [← Bool.not_eq_true, isSpace_eq_true_iff]
        rintro (rfl | rfl | rfl | rfl) <;> simp at start
      · rintro rfl
        simp at start
  | _ => exact ⟨_, _, rfl, rfl, by decide⟩

theorem SpellsMembers.skipSpace_ne {chars rest : List Char} {members : List (List Piece × Term)}
    (spelled : SpellsMembers chars members rest) (tail : List Char) :
    skipSpace chars ≠ '\x7d' :: tail := by
  cases spelled with
  | last before _ _ _ _ _ => rw [before.skipSpace_cons rfl]; simp
  | more before _ _ _ _ _ _ => rw [before.skipSpace_cons rfl]; simp

theorem SpellsItems.skipSpace_ne {chars rest : List Char} {items : List Term}
    (spelled : SpellsItems chars items rest) (tail : List Char) : skipSpace chars ≠ ']' :: tail := by
  have first : ∃ text item after, Blanks chars text ∧ Spells text item after := by
    cases spelled with
    | last before spelled _ => exact ⟨_, _, _, before, spelled⟩
    | more before spelled _ _ => exact ⟨_, _, _, before, spelled⟩
  obtain ⟨text, item, after, before, spelled⟩ := first
  obtain ⟨c, more, rfl, solid, notClosing⟩ := spelled.head
  rw [before.skipSpace_cons solid]
  rintro same
  exact notClosing (List.cons.inj same).1

namespace Term

theorem readTerm?_blanks {chars text : List Char} (blanks : Blanks chars text) (calls : Nat) :
    readTerm? calls chars = readTerm? calls text := by
  cases calls with
  | zero => rfl
  | succ calls => rw [readTerm?.eq_2, readTerm?.eq_2, blanks.skipSpace_eq]

theorem readItems?_blanks {chars text : List Char} (blanks : Blanks chars text) (calls : Nat) :
    readItems? calls chars = readItems? calls text := by
  cases calls with
  | zero => rfl
  | succ calls => rw [readItems?, readItems?, readTerm?_blanks blanks]

theorem readMembers?_blanks {chars text : List Char} (blanks : Blanks chars text) (calls : Nat) :
    readMembers? calls chars = readMembers? calls text := by
  cases calls with
  | zero => rfl
  | succ calls => rw [readMembers?, readMembers?, blanks.skipSpace_eq]

theorem readTerm?_number {c : Char} {tail : List Char} (start : c.isDigit ∨ c = '-') (calls : Nat) :
    readTerm? (calls + 1) (c :: tail) =
      (Numeral.read? (c :: tail)).map fun read => (number read.1, read.2) := by
  have solid : isSpace c = false := by
    rw [← Bool.not_eq_true, isSpace_eq_true_iff]
    rintro (rfl | rfl | rfl | rfl) <;> simp at start
  rw [readTerm?.eq_2, skipSpace_cons solid]
  split
  all_goals first
    | (rename_i same; obtain ⟨rfl, -⟩ := List.cons.inj same; simp at start)
    | skip
  cases Numeral.read? (c :: tail) <;> rfl

theorem readTerm?_array {chars : List Char} {calls : Nat}
    (more : ∀ tail, skipSpace chars ≠ ']' :: tail) :
    readTerm? (calls + 1) ('[' :: chars) =
      (readItems? calls chars).map fun read => (array read.1, read.2) := by
  rw [readTerm?.eq_2, skipSpace_cons rfl, readItems?_blanks (blanks_skipSpace chars)]
  -- `more` rules out the branch for an empty pair of brackets
  simp only
  cases readItems? calls (skipSpace chars) <;> rfl

theorem readTerm?_object {chars : List Char} {calls : Nat}
    (more : ∀ tail, skipSpace chars ≠ '\x7d' :: tail) :
    readTerm? (calls + 1) ('\x7b' :: chars) =
      (readMembers? calls chars).map fun read => (object read.1, read.2) := by
  rw [readTerm?.eq_2, skipSpace_cons rfl, readMembers?_blanks (blanks_skipSpace chars)]
  -- `more` rules out the branch for an empty pair of brackets
  simp only
  cases readMembers? calls (skipSpace chars) <;> rfl

end Term

/-! ## What follows inside brackets -/

/-- A numeral is over where a blank or a bracket, a comma or a colon follows. -/
theorem Blanks.ends_continues {c : Char} {chars rest : List Char} (blanks : Blanks chars (c :: rest))
    (stops : Numeral.continues c = false) : Ends Numeral.continues chars :=
  blanks.ends (fun _ => Numeral.continues_of_isSpace) (ends_cons.2 stops)

mutual

theorem Spells.readTerm? {chars rest : List Char} {term : Term} :
    Spells chars term rest → Ends Numeral.continues rest → ∀ calls, 2 * chars.length ≤ calls →
      Term.readTerm? calls chars = some (term, rest)
  | .null _, _, calls + 1, _ => rfl
  | .yes _, _, calls + 1, _ => rfl
  | .no _, _, calls + 1, _ => rfl
  | .number formed tail rest, _, 0, bound => by
      have := (Spells.number formed tail rest).length_lt
      omega
  | .number formed tail rest, ends, calls + 1, _ => by
      obtain ⟨c, more, same, start⟩ := formed.text_head _
      have read := Numeral.read?_of_wellFormed formed tail ends
      rw [same] at read ⊢
      rw [Term.readTerm?_number start, read]
      rfl
  | .string inside, _, calls + 1, _ => by
      rw [Term.readTerm?.eq_2, skipSpace_cons rfl]
      simp only [Piece.read?_of_spells inside]
      rfl
  | .emptyArray inside, _, calls + 1, _ => by
      rw [Term.readTerm?.eq_2, skipSpace_cons rfl]
      simp only [inside.skipSpace_cons rfl]
  | .array inside, _, calls + 1, bound => by
      have items := inside.readItems? calls (by simp at bound; omega)
      rw [Term.readTerm?_array inside.skipSpace_ne, items]
      rfl
  | .emptyObject inside, _, calls + 1, _ => by
      rw [Term.readTerm?.eq_2, skipSpace_cons rfl]
      simp only [inside.skipSpace_cons rfl]
  | .object inside, _, calls + 1, bound => by
      have members := inside.readMembers? calls (by simp at bound; omega)
      rw [Term.readTerm?_object inside.skipSpace_ne, members]
      rfl

theorem SpellsItems.readItems? {chars rest : List Char} {items : List Term} :
    SpellsItems chars items rest → ∀ calls, 2 * chars.length + 1 ≤ calls →
      Term.readItems? calls chars = some (items, rest)
  | .last before spelled behind, calls + 1, bound => by
      have := before.length_le
      have item := spelled.readTerm? (behind.ends_continues rfl) calls (by omega)
      rw [Term.readItems?, Term.readTerm?_blanks before, item]
      simp only [Option.bind_eq_bind, Option.bind_some, behind.skipSpace_cons rfl]
  | .more before spelled behind others, calls + 1, bound => by
      have := before.length_le
      have := spelled.length_lt
      have := behind.length_le
      have item := spelled.readTerm? (behind.ends_continues rfl) calls (by omega)
      have rest := others.readItems? calls (by simp at *; omega)
      rw [Term.readItems?, Term.readTerm?_blanks before, item]
      simp only [Option.bind_eq_bind, Option.bind_some, behind.skipSpace_cons rfl, rest]

theorem SpellsMembers.readMembers? {chars rest : List Char} {members : List (List Piece × Term)} :
    SpellsMembers chars members rest → ∀ calls, 2 * chars.length + 1 ≤ calls →
      Term.readMembers? calls chars = some (members, rest)
  | .last before named between within spelled behind, calls + 1, bound => by
      have := before.length_le
      have := named.length_lt
      have := between.length_le
      have := within.length_le
      have value := spelled.readTerm? (behind.ends_continues rfl) calls (by simp at *; omega)
      rw [Term.readMembers?, before.skipSpace_cons rfl]
      simp only [Piece.read?_of_spells named, Option.bind_eq_bind, Option.bind_some,
        between.skipSpace_cons rfl, Term.readTerm?_blanks within, value, behind.skipSpace_cons rfl]
  | .more before named between within spelled behind others, calls + 1, bound => by
      have := before.length_le
      have := named.length_lt
      have := between.length_le
      have := within.length_le
      have := spelled.length_lt
      have := behind.length_le
      have value := spelled.readTerm? (behind.ends_continues rfl) calls (by simp at *; omega)
      have rest := others.readMembers? calls (by simp at *; omega)
      rw [Term.readMembers?, before.skipSpace_cons rfl]
      simp only [Piece.read?_of_spells named, Option.bind_eq_bind, Option.bind_some,
        between.skipSpace_cons rfl, Term.readTerm?_blanks within, value, behind.skipSpace_cons rfl,
        rest]

end

theorem Term.read?_of_spells {chars text rest : List Char} {term : Term} (before : Blanks chars text)
    (spelled : Spells text term rest) (ends : Ends Numeral.continues rest) :
    read? chars = some (term, rest) := by
  have := before.length_le
  rw [read?, readTerm?_blanks before]
  exact spelled.readTerm? ends _ (by omega)

end Criteria.Json
