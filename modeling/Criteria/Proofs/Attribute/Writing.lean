/-
# Criteria.Proofs.Attribute.Writing -- attributes as the members of an object

`objectText` writes names and attributes as one JSON object, with a comma
between two members and no blanks. Whatever the names and the values are, the
text says them again in the order in which they are written
(`means_objectText`).
-/
import Criteria.Proofs.Attribute.Record
import Criteria.Proofs.Decimal
import Criteria.Proofs.Json.Members
import Criteria.Proofs.Json.Writing

namespace Criteria

set_option autoImplicit false

open Json

/-! ## Integers -/

namespace Json.Numeral

def ofInt : Int → Numeral
  | .ofNat n => ofNat n
  | .negSucc n => { ofNat (n + 1) with negative := true }

theorem wellFormed_ofInt (value : Int) : (ofInt value).WellFormed := by
  cases value with
  | ofNat n => exact wellFormed_ofNat n
  | negSucc n => exact { wellFormed_ofNat (n + 1) with }

theorem signed_ofInt (value : Int) : (ofInt value).signed = value := by
  cases value with
  | ofNat n => exact congrArg Int.ofNat Nat.ofDigitChars_ten_toDigits
  | negSucc n => exact congrArg (fun size : Nat => -(size : Int)) Nat.ofDigitChars_ten_toDigits

theorem integer?_ofInt {value : Int} (low : Int64.minValue.toInt ≤ value)
    (high : value < UInt64.size) : (ofInt value).integer? = some value := by
  refine integer?_eq_some_iff.2 ⟨?_, ?_, ?_, (signed_ofInt value).symm, low, high⟩
  · cases value <;> rfl
  · cases value <;> rfl
  · cases value with
    | ofNat n => intro negative; cases negative
    | negSucc n =>
        intro _
        have digits : Decimal.value (Nat.toDigits 10 (n + 1)) = n + 1 :=
          Nat.ofDigitChars_ten_toDigits
        exact digits ▸ Nat.succ_ne_zero n

end Json.Numeral

theorem Json.spells_toString_int (value : Int) (rest : List Char) :
    Spells ((toString value).toList ++ rest) (.number (Numeral.ofInt value)) rest := by
  cases value with
  | ofNat n => exact spells_toString n rest
  | negSucc n =>
      have spelled :=
        Spells.number (Numeral.wellFormed_ofInt (.negSucc n)) Numeral.SpellsExponent.none rest
      rw [Decimal.toList_toString_negSucc]
      exact spelled

/-! ## Objects -/

namespace Attribute

def toTerm : Attribute → Term
  | integer word => .number (Numeral.ofInt word.toInt)
  | text value => .string (Piece.ofText value)

def toValue : Attribute → Value
  | integer word => .integer word.toInt
  | text value => .string value

theorem spells_toJson (a : Attribute) (rest : List Char) :
    Spells (a.toJson.toList ++ rest) a.toTerm rest := by
  cases a with
  | integer word => exact spells_toString_int word.toInt rest
  | text value => exact spells_quote value rest

theorem depth_toTerm (a : Attribute) : a.toTerm.depth = 0 := by
  cases a <;> rfl

theorem ofTerm?_toTerm (a : Attribute) : Value.ofTerm? a.toTerm = some a.toValue := by
  cases a with
  | integer word =>
      have low : Int64.minValue.toInt ≤ word.toInt :=
        Int.le_trans (by decide) word.le_toInt
      have high : word.toInt < UInt64.size := Int.lt_trans word.toInt_lt (by decide)
      show Value.ofNumeral? (Numeral.ofInt word.toInt) = _
      rw [Value.ofNumeral?, Numeral.integer?_ofInt low high]
      rfl
  | text value =>
      show (Piece.text? (Piece.ofText value)).map Value.string = _
      rw [Piece.text?_ofText]
      rfl

/-- An attribute that is written denotes itself and nothing else. -/
theorem denotes_toValue_iff {a b : Attribute} : Denotes a.toValue b ↔ a = b := by
  cases b with
  | integer word => cases a <;> simp [denotes_integer_iff, toValue, Int32.toInt_inj]
  | text value => cases a <;> simp [denotes_text_iff, toValue]

end Attribute

/-- Names and attributes as one object. -/
def objectText (members : List (String × Attribute)) : String :=
  "\x7b" ++ ",".intercalate (members.map fun member => quote member.1 ++ ":" ++ member.2.toJson) ++
    "\x7d"

/-- The members as terms. -/
def termsOf (members : List (String × Attribute)) : List (List Piece × Term) :=
  members.map fun member => (Piece.ofText member.1, member.2.toTerm)

/-- The members as values. -/
def valuesOf (members : List (String × Attribute)) : List (String × Value) :=
  members.map fun member => (member.1, member.2.toValue)

theorem depthOfMembers_termsOf (members : List (String × Attribute)) :
    Term.depthOfMembers (termsOf members) = 0 := by
  induction members with
  | nil => rfl
  | cons member members ih =>
      rw [termsOf, List.map_cons, Term.depthOfMembers, member.2.depth_toTerm]
      exact (Nat.zero_max _).trans ih

theorem ofMembers?_termsOf (members : List (String × Attribute)) :
    Value.ofMembers? (termsOf members) = some (valuesOf members) := by
  induction members with
  | nil => rfl
  | cons member members ih =>
      rw [termsOf, List.map_cons, Value.ofMembers?, Piece.text?_ofText, member.2.ofTerm?_toTerm,
        ← termsOf, ih]
      rfl

theorem spellsMembers_intercalate (member : String × Attribute)
    (members : List (String × Attribute)) (rest : List Char) :
    SpellsMembers
      ((",".intercalate ((member :: members).map fun member =>
        quote member.1 ++ ":" ++ member.2.toJson)).toList ++ '\x7d' :: rest)
      (termsOf (member :: members)) rest := by
  induction members generalizing member with
  | nil =>
      have last := @spellsMembers_last member.1 _ rest _ (member.2.spells_toJson _)
      simpa [termsOf] using last
  | cons next members ih =>
      have more := @spellsMembers_more member.1 _ _ rest _ _ (member.2.spells_toJson _) (ih next)
      simpa [termsOf] using more

theorem writes_objectText (members : List (String × Attribute)) :
    Writes (objectText members) (.object (termsOf members)) := by
  refine ⟨(objectText members).toList, [], .none _, ?_, .none _⟩
  cases members with
  | nil => exact .emptyObject (.none _)
  | cons member members =>
      have inside := spellsMembers_intercalate member members []
      simpa [objectText] using Spells.object inside

/-- The object says its members, in their order. -/
theorem means_objectText (members : List (String × Attribute)) :
    Means (objectText members) (.object (valuesOf members)) := by
  refine ⟨_, writes_objectText members, ?_, ?_⟩
  · rw [Term.depth, depthOfMembers_termsOf]
    decide
  · rw [Value.ofTerm?, ofMembers?_termsOf]
    rfl

end Criteria
