/-
# Criteria.Proofs.Json.Soundness -- the reader takes nothing but texts of terms

The converse of reading every text: what the reader takes off the front of some
characters is a text of the term that it gives (`Term.spells_of_read?`). The two
together make the grammar and the reader say the same of a whole text
(`Term.parse?_eq_some_iff`), so that a fact about all texts of a term is a fact
about the reader, and the other way round.
-/
import Criteria.Proofs.Json.Reading

namespace Criteria.Json

set_option autoImplicit false

/-! ## Blanks -/

theorem Blanks.trans {chars middle rest : List Char} (first : Blanks chars middle)
    (second : Blanks middle rest) : Blanks chars rest := by
  induction first with
  | none => exact second
  | more blank _ ih => exact .more blank (ih second)

theorem blanks_nil_iff {chars : List Char} : Blanks chars [] ↔ chars.all isSpace := by
  induction chars with
  | nil => simp [Blanks.none]
  | cons c chars ih =>
      rw [List.all_cons, Bool.and_eq_true, ← ih]
      constructor
      · intro blanks
        cases blanks with
        | more blank others => exact ⟨blank, others⟩
      · rintro ⟨blank, others⟩
        exact .more blank others

theorem SpellsItems.of_blanks {chars text rest : List Char} {items : List Term}
    (blanks : Blanks chars text) (spelled : SpellsItems text items rest) :
    SpellsItems chars items rest := by
  cases spelled with
  | last before item behind => exact .last (blanks.trans before) item behind
  | more before item behind others => exact .more (blanks.trans before) item behind others

theorem SpellsMembers.of_blanks {chars text rest : List Char}
    {members : List (List Piece × Term)} (blanks : Blanks chars text)
    (spelled : SpellsMembers text members rest) : SpellsMembers chars members rest := by
  cases spelled with
  | last before named between within value behind =>
      exact .last (blanks.trans before) named between within value behind
  | more before named between within value behind others =>
      exact .more (blanks.trans before) named between within value behind others

/-! ## Strings -/

theorem Piece.spells_of_read? {chars rest : List Char} {pieces : List Piece}
    (read : read? chars = some (pieces, rest)) : Piece.Spells chars pieces rest := by
  fun_induction Piece.read? chars generalizing pieces rest with
  | case1 => cases read
  | case2 => cases read; exact .closing _
  | case3 w x y z chars ih =>
      simp only [Option.bind_eq_bind, Option.bind_eq_some_iff, Prod.exists] at read
      obtain ⟨code, digits, others, behind, inside, same⟩ := read
      cases same
      exact .unit digits (ih inside)
  | case4 letter chars _ ih =>
      simp only [Option.bind_eq_bind, Option.bind_eq_some_iff, Prod.exists] at read
      obtain ⟨c, stands, others, behind, inside, same⟩ := read
      cases same
      exact .letter stands (ih inside)
  | case5 => cases read
  | case6 c chars notQuote notUnit notLetter printable ih =>
      simp only [Option.bind_eq_bind, Option.bind_eq_some_iff, Prod.exists] at read
      obtain ⟨others, behind, inside, same⟩ := read
      cases same
      have notBackslash : c ≠ '\\' := by
        rintro rfl
        cases chars with
        | nil => cases inside
        | cons letter chars => exact notLetter letter chars rfl rfl
      exact .plain (Nat.not_lt.1 printable) notQuote notBackslash (ih inside)

/-! ## Numerals -/

namespace Numeral

theorem readSign_append (chars : List Char) :
    (if (readSign chars).1 then ['-'] else []) ++ (readSign chars).2 = chars := by
  unfold readSign
  split <;> rfl

theorem of_readDigits? {chars digits rest : List Char}
    (read : readDigits? chars = some (digits, rest)) :
    digits ≠ [] ∧ (∀ c ∈ digits, c.isDigit) ∧ chars = digits ++ rest := by
  unfold readDigits? at read
  split at read
  · cases read
  · rename_i some
    cases read
    exact ⟨some, List.all_eq_true.1 List.all_takeWhile, List.takeWhile_append_dropWhile.symm⟩

theorem of_readWhole? {chars whole rest : List Char}
    (read : readWhole? chars = some (whole, rest)) :
    readDigits? chars = some (whole, rest) ∧ (whole.head? = some '0' → whole = ['0']) := by
  simp only [readWhole?, Option.bind_eq_bind, Option.bind_eq_some_iff, Prod.exists] at read
  obtain ⟨digits, behind, cut, leading⟩ := read
  split at leading
  · cases leading
  · rename_i single
    cases leading
    refine ⟨cut, ?_⟩
    intro zero
    exact Classical.not_not.1 fun more => single ⟨zero, more⟩

theorem of_readFraction? {chars fraction rest : List Char}
    (read : readFraction? chars = some (fraction, rest)) :
    (∀ c ∈ fraction, c.isDigit) ∧
      chars = (if fraction = [] then [] else '.' :: fraction) ++ rest := by
  unfold readFraction? at read
  split at read
  · obtain ⟨some, digits, rfl⟩ := of_readDigits? read
    rw [if_neg some]
    exact ⟨digits, rfl⟩
  · cases read
    exact ⟨by simp, rfl⟩

theorem spells_of_readExponent? {chars rest : List Char} {exponent? : Option Int}
    (read : readExponent? chars = some (exponent?, rest)) :
    ∃ text, SpellsExponent text exponent? ∧ chars = text ++ rest := by
  unfold readExponent? at read
  split at read
  · rename_i letter chars
    split at read
    · rename_i marked
      simp only [Option.bind_eq_bind, Option.bind_eq_some_iff, Prod.exists] at read
      obtain ⟨digits, behind, cut, same⟩ := read
      obtain ⟨some, all, whole⟩ := of_readDigits? cut
      cases same
      unfold readExponentSign at whole ⊢
      split at whole
      · exact ⟨_, .minus marked some all, congrArg (letter :: '-' :: ·) whole⟩
      · exact ⟨_, .plus marked some all, congrArg (letter :: '+' :: ·) whole⟩
      · exact ⟨_, .plain marked some all, congrArg (letter :: ·) whole⟩
    · cases read
      exact ⟨[], .none, rfl⟩
  · cases read
    exact ⟨[], .none, rfl⟩

theorem spells_of_read? {chars rest : List Char} {n : Numeral}
    (read : read? chars = some (n, rest)) : n.WellFormed ∧
      ∃ exponent, SpellsExponent exponent n.exponent? ∧
        chars = n.signText ++ (n.whole ++ (n.fractionText ++ (exponent ++ rest))) := by
  simp only [read?, Option.bind_eq_bind, Option.bind_eq_some_iff, Prod.exists] at read
  obtain ⟨whole, afterWhole, readWhole, fraction, afterFraction, readFraction, exponent?, behind,
    readExponent, same⟩ := read
  obtain ⟨digits, leading⟩ := of_readWhole? readWhole
  obtain ⟨some, wholeDigits, wholeText⟩ := of_readDigits? digits
  obtain ⟨fractionDigits, fractionText⟩ := of_readFraction? readFraction
  obtain ⟨exponent, spelled, exponentText⟩ := spells_of_readExponent? readExponent
  cases same
  refine ⟨⟨some, wholeDigits, leading, fractionDigits⟩, exponent, spelled, ?_⟩
  rw [← exponentText]
  show chars = _ ++ (whole ++ ((if fraction = [] then [] else '.' :: fraction) ++ afterFraction))
  rw [← fractionText, ← wholeText]
  exact (readSign_append chars).symm

end Numeral

/-! ## Terms -/

namespace Term

mutual

theorem spells_of_readTerm? : ∀ (calls : Nat) {chars rest : List Char} {term : Term},
    readTerm? calls chars = some (term, rest) → Spells (skipSpace chars) term rest
  | 0, _, _, _, read => by cases read
  | calls + 1, chars, rest, term, read => by
      rw [readTerm?.eq_2] at read
      split at read
      · rename_i text
        rw [text]
        cases read
        exact .null _
      · rename_i text
        rw [text]
        cases read
        exact .yes _
      · rename_i text
        rw [text]
        cases read
        exact .no _
      · rename_i text
        rw [text]
        simp only [Option.bind_eq_bind, Option.bind_eq_some_iff, Prod.exists] at read
        obtain ⟨pieces, behind, inside, same⟩ := read
        cases same
        exact .string (Piece.spells_of_read? inside)
      · rename_i inner text
        rw [text]
        have blanks := blanks_skipSpace inner
        split at read
        · rename_i empty
          rw [empty] at blanks
          cases read
          exact .emptyArray blanks
        · simp only [Option.bind_eq_bind, Option.bind_eq_some_iff, Prod.exists] at read
          obtain ⟨items, behind, inside, same⟩ := read
          cases same
          exact .array (.of_blanks blanks (spells_of_readItems? calls inside))
      · rename_i inner text
        rw [text]
        have blanks := blanks_skipSpace inner
        split at read
        · rename_i empty
          rw [empty] at blanks
          cases read
          exact .emptyObject blanks
        · simp only [Option.bind_eq_bind, Option.bind_eq_some_iff, Prod.exists] at read
          obtain ⟨members, behind, inside, same⟩ := read
          cases same
          exact .object (.of_blanks blanks (spells_of_readMembers? calls inside))
      · simp only [Option.bind_eq_bind, Option.bind_eq_some_iff, Prod.exists] at read
        obtain ⟨n, behind, inside, same⟩ := read
        cases same
        obtain ⟨formed, exponent, tail, text⟩ := Numeral.spells_of_read? inside
        rw [text]
        exact .number formed tail _

theorem spells_of_readItems? : ∀ (calls : Nat) {chars rest : List Char} {items : List Term},
    readItems? calls chars = some (items, rest) → SpellsItems chars items rest
  | 0, _, _, _, read => by cases read
  | calls + 1, chars, rest, items, read => by
      rw [readItems?] at read
      simp only [Option.bind_eq_bind, Option.bind_eq_some_iff, Prod.exists] at read
      obtain ⟨item, after, first, read⟩ := read
      have spelled := spells_of_readTerm? calls first
      have before := blanks_skipSpace chars
      have behind := blanks_skipSpace after
      split at read
      · rename_i next
        rw [next] at behind
        simp only [Option.bind_eq_some_iff, Prod.exists] at read
        obtain ⟨others, rest', later, same⟩ := read
        cases same
        exact .more before spelled behind (spells_of_readItems? calls later)
      · rename_i closing
        rw [closing] at behind
        cases read
        exact .last before spelled behind
      · cases read

theorem spells_of_readMembers? : ∀ (calls : Nat) {chars rest : List Char}
    {members : List (List Piece × Term)},
    readMembers? calls chars = some (members, rest) → SpellsMembers chars members rest
  | 0, _, _, _, read => by cases read
  | calls + 1, chars, rest, members, read => by
      rw [readMembers?] at read
      have before := blanks_skipSpace chars
      split at read
      · rename_i quoted opened
        rw [opened] at before
        simp only [Option.bind_eq_bind, Option.bind_eq_some_iff, Prod.exists] at read
        obtain ⟨name, colon, inside, read⟩ := read
        have named := Piece.spells_of_read? inside
        have between := blanks_skipSpace colon
        split at read
        · rename_i value pointed
          rw [pointed] at between
          simp only [Option.bind_eq_some_iff, Prod.exists] at read
          obtain ⟨term, after, first, read⟩ := read
          have spelled := spells_of_readTerm? calls first
          have within := blanks_skipSpace value
          have behind := blanks_skipSpace after
          split at read
          · rename_i next
            rw [next] at behind
            simp only [Option.bind_eq_some_iff, Prod.exists] at read
            obtain ⟨others, rest', later, same⟩ := read
            cases same
            exact .more before named between within spelled behind
              (spells_of_readMembers? calls later)
          · rename_i closing
            rw [closing] at behind
            cases read
            exact .last before named between within spelled behind
          · cases read
        · cases read
      · cases read

end

/-- What the reader takes off the front is a text of the term that it gives. -/
theorem spells_of_read? {chars rest : List Char} {term : Term}
    (read : read? chars = some (term, rest)) : Spells (skipSpace chars) term rest :=
  spells_of_readTerm? _ read

end Term

/-! ## Whole texts -/

/-- The text is one text of the term, with nothing but blanks around it. -/
def Writes (text : String) (term : Term) : Prop :=
  ∃ chars rest, Blanks text.toList chars ∧ Spells chars term rest ∧ Blanks rest []

/-- The reader takes the term off the front, and leaves nothing but blanks. -/
theorem Term.read?_of_writes {text : String} {term : Term} (writes : Writes text term) :
    ∃ rest, read? text.toList = some (term, rest) ∧ rest.all isSpace := by
  obtain ⟨chars, rest, before, spelled, behind⟩ := writes
  have ends : Text.Ends Numeral.continues rest :=
    behind.ends (fun _ => Numeral.continues_of_isSpace) Text.ends_nil
  exact ⟨rest, read?_of_spells before spelled ends, blanks_nil_iff.1 behind⟩

/-- What the reader takes is written if only spaces follow. -/
theorem Term.writes_of_read? {text : String} {term : Term} {rest : List Char}
    (taken : read? text.toList = some (term, rest)) (blank : rest.all isSpace) :
    Writes text term :=
  ⟨_, rest, blanks_skipSpace _, spells_of_read? taken, blanks_nil_iff.2 blank⟩

/-- The reader and the grammar agree on whole texts. -/
theorem Term.parse?_eq_some_iff {text : String} {term : Term} :
    parse? text = some term ↔ Writes text term := by
  constructor
  · intro read
    simp only [parse?, Option.bind_eq_bind, Option.bind_eq_some_iff, Prod.exists] at read
    obtain ⟨term, rest, taken, read⟩ := read
    split at read
    · rename_i blank
      cases read
      exact writes_of_read? taken blank
    · cases read
  · intro writes
    obtain ⟨rest, taken, blank⟩ := read?_of_writes writes
    simp only [parse?, taken, Option.bind_eq_bind, Option.bind_some, if_pos blank]

end Criteria.Json
