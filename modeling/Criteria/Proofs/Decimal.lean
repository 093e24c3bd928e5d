/-
# Criteria.Proofs.Decimal -- words are read exactly

`Writes` says of any text which integer it writes, with no bound on its digits, and
`Literal` keeps the integers that a signed 32-bit word is equal to. Reading works in
words from the first digit on, so it has to be shown that giving up early is right:
digits only take a number further away from zero (`le_ofDigitChars`), and a product
or a sum that no word is equal to is never followed by a number that one is equal to
(`foldlM_append?_eq_some_iff`). Both ends of the range come out by themselves, since
the digits of a negative number are taken off and not added up first.
-/
import Criteria.Decimal

namespace Criteria.Decimal

set_option autoImplicit false

/-! ## What a text writes -/

/-- At most one sign and one or more ASCII digits, leading zeros among them or not. -/
inductive Writes : List Char → Int → Prop
  | plain {digits : List Char} (some : digits ≠ []) (all : ∀ c ∈ digits, c.isDigit) :
      Writes digits (value digits)
  | plus {digits : List Char} (some : digits ≠ []) (all : ∀ c ∈ digits, c.isDigit) :
      Writes ('+' :: digits) (value digits)
  | minus {digits : List Char} (some : digits ≠ []) (all : ∀ c ∈ digits, c.isDigit) :
      Writes ('-' :: digits) (-(value digits))

/-- The text writes the integer, and it is one of a signed 32-bit word. -/
structure Literal (text : String) (n : Int) : Prop where
  writes : Writes text.toList n
  low : -2147483648 ≤ n
  high : n ≤ 2147483647

variable {negative : Bool} {digits : List Char} {n : Int}

theorem writes_plus_iff : Writes ('+' :: digits) n ↔
    digits ≠ [] ∧ (∀ c ∈ digits, c.isDigit) ∧ n = value digits := by
  constructor
  · intro writes
    cases writes with
    | plain _ all => exact absurd (all '+' List.mem_cons_self) (by decide)
    | plus some all => exact ⟨some, all, rfl⟩
  · rintro ⟨some, all, rfl⟩
    exact .plus some all

theorem writes_minus_iff : Writes ('-' :: digits) n ↔
    digits ≠ [] ∧ (∀ c ∈ digits, c.isDigit) ∧ n = -(value digits) := by
  constructor
  · intro writes
    cases writes with
    | plain _ all => exact absurd (all '-' List.mem_cons_self) (by decide)
    | minus some all => exact ⟨some, all, rfl⟩
  · rintro ⟨some, all, rfl⟩
    exact .minus some all

theorem writes_plain_iff (notPlus : ∀ rest, digits ≠ '+' :: rest)
    (notMinus : ∀ rest, digits ≠ '-' :: rest) : Writes digits n ↔
      digits ≠ [] ∧ (∀ c ∈ digits, c.isDigit) ∧ n = value digits := by
  constructor
  · intro writes
    cases writes with
    | plain some all => exact ⟨some, all, rfl⟩
    | plus => exact absurd rfl (notPlus _)
    | minus => exact absurd rfl (notMinus _)
  · rintro ⟨some, all, rfl⟩
    exact .plain some all

/-! ## Words -/

theorem exists_toInt_eq_iff :
    (∃ w : Int32, w.toInt = n) ↔ -2147483648 ≤ n ∧ n ≤ 2147483647 := by
  constructor
  · rintro ⟨w, rfl⟩
    have low := w.le_toInt
    have high := w.toInt_lt
    exact ⟨by omega, by omega⟩
  · rintro ⟨low, high⟩
    exact ⟨Int32.ofInt n, Int32.toInt_ofInt_of_le (by omega) (by omega)⟩

/-- The integer with a sign and a size. -/
def signed (negative : Bool) (size : Nat) : Int :=
  if negative then -(size : Int) else size

theorem signed_mul_ten (negative : Bool) (size : Nat) :
    signed negative (10 * size) = signed negative size * 10 := by
  cases negative
  · simp only [signed, Bool.false_eq_true, if_false]
    omega
  · simp only [signed, if_true]
    omega

theorem signed_add (negative : Bool) (size digit : Nat) : signed negative (size + digit) =
    if negative then signed negative size - Int.ofNat digit
    else signed negative size + Int.ofNat digit := by
  cases negative
  · simp [signed]
  · simp only [signed, if_true, Int.ofNat_eq_natCast]
    omega

/-- A word is equal to all that is nearer to zero than an integer one is equal to. -/
theorem exists_toInt_eq_signed {size size' : Nat} {w : Int32} (le : size ≤ size')
    (value : w.toInt = signed negative size') : ∃ w : Int32, w.toInt = signed negative size := by
  have bounds := exists_toInt_eq_iff.1 ⟨w, value⟩
  apply exists_toInt_eq_iff.2
  cases negative
  · simp only [signed, Bool.false_eq_true, if_false] at bounds ⊢
    omega
  · simp only [signed, if_true] at bounds ⊢
    omega

/-! ## Reading digits -/

theorem append?_eq_some_iff {word next : Int32} {size : Nat} {c : Char}
    (read : word.toInt = signed negative size) : append? negative word c = some next ↔
      c.isDigit ∧ next.toInt = signed negative (10 * size + (c.toNat - '0'.toNat)) := by
  unfold append?
  split
  · rename_i digit
    simp only [Option.bind_eq_bind, Option.bind_eq_some_iff, word32?_eq_some_iff]
    rw [read, ← signed_mul_ten]
    constructor
    · rintro ⟨tens, shifted, sum⟩
      rw [signed_add, ← shifted]
      exact ⟨digit, sum⟩
    · rintro ⟨-, value⟩
      obtain ⟨tens, shifted⟩ := exists_toInt_eq_signed (Nat.le_add_right _ _) value
      rw [signed_add, ← shifted] at value
      exact ⟨tens, shifted, value⟩
  · rename_i other
    simp [other]

theorem le_ofDigitChars (digits : List Char) (size : Nat) :
    size ≤ Nat.ofDigitChars 10 digits size := by
  induction digits generalizing size with
  | nil => exact Nat.le_refl size
  | cons c digits ih =>
      have more := ih (10 * size + (c.toNat - '0'.toNat))
      rw [Nat.ofDigitChars_cons]
      omega

/-- Digits are worked in if and only if the number at the end is that of a word. -/
theorem foldlM_append?_eq_some_iff {start last : Int32} {size : Nat}
    (read : start.toInt = signed negative size) :
    digits.foldlM (append? negative) start = some last ↔
      (∀ c ∈ digits, c.isDigit) ∧
        last.toInt = signed negative (Nat.ofDigitChars 10 digits size) := by
  induction digits generalizing start size with
  | nil =>
      rw [List.foldlM_nil, Option.pure_def, Option.some.injEq, Nat.ofDigitChars_nil, ← read,
        Int32.toInt_inj, eq_comm]
      exact (and_iff_right (by simp)).symm
  | cons c digits ih =>
      rw [List.foldlM_cons, Option.bind_eq_bind, Option.bind_eq_some_iff, Nat.ofDigitChars_cons,
        List.forall_mem_cons]
      constructor
      · rintro ⟨next, taken, others⟩
        obtain ⟨digit, value⟩ := (append?_eq_some_iff read).1 taken
        obtain ⟨all, value⟩ := (ih value).1 others
        exact ⟨⟨digit, all⟩, value⟩
      · rintro ⟨⟨digit, all⟩, value⟩
        -- what comes of more digits is further from zero than what is read so far
        obtain ⟨next, sofar⟩ := exists_toInt_eq_signed (le_ofDigitChars digits _) value
        exact ⟨next, (append?_eq_some_iff read).2 ⟨digit, sofar⟩, (ih sofar).2 ⟨all, value⟩⟩

theorem ofDigits?_eq_some_iff {w : Int32} : ofDigits? negative digits = some w ↔
    digits ≠ [] ∧ (∀ c ∈ digits, c.isDigit) ∧ w.toInt = signed negative (value digits) := by
  have zero : (0 : Int32).toInt = signed negative 0 := by cases negative <;> rfl
  unfold ofDigits?
  split
  · rename_i none
    simp [none]
  · rename_i some
    rw [foldlM_append?_eq_some_iff zero]
    exact (and_iff_right some).symm

/-! ## Reading a text -/

/-- Of all texts those are read that write the integer of a word. -/
theorem int32?_eq_some_iff {text : String} {w : Int32} :
    int32? text = some w ↔ Writes text.toList w.toInt := by
  unfold int32?
  split
  · rename_i digits plus
    rw [plus, ofDigits?_eq_some_iff, writes_plus_iff]
    rfl
  · rename_i digits minus
    rw [minus, ofDigits?_eq_some_iff, writes_minus_iff]
    rfl
  · rename_i notPlus notMinus
    rw [ofDigits?_eq_some_iff, writes_plain_iff notPlus notMinus]
    rfl

theorem literal_iff {text : String} :
    Literal text n ↔ ∃ w, int32? text = some w ∧ w.toInt = n := by
  constructor
  · rintro ⟨writes, low, high⟩
    obtain ⟨w, rfl⟩ := exists_toInt_eq_iff.2 ⟨low, high⟩
    exact ⟨w, int32?_eq_some_iff.2 writes, rfl⟩
  · rintro ⟨w, read, rfl⟩
    obtain ⟨low, high⟩ := exists_toInt_eq_iff.1 ⟨w, rfl⟩
    exact ⟨int32?_eq_some_iff.1 read, low, high⟩

theorem int32?_eq_none_iff {text : String} : int32? text = none ↔ ∀ n, ¬ Literal text n := by
  rw [Option.eq_none_iff_forall_ne_some]
  constructor
  · rintro unread n literal
    obtain ⟨w, read, -⟩ := literal_iff.1 literal
    exact unread w read
  · rintro none w read
    exact none w.toInt (literal_iff.2 ⟨w, read, rfl⟩)

/-! ## Writing -/

theorem toList_toString_ofNat (size : Nat) :
    (toString (Int.ofNat size)).toList = Nat.toDigits 10 size := String.toList_ofList

theorem toList_toString_negSucc (size : Nat) :
    (toString (Int.negSucc size)).toList = '-' :: Nat.toDigits 10 (size + 1) := by
  show ("-" ++ Nat.repr (size + 1)).toList = _
  simp [Nat.repr]

/-- What is written for an integer writes it. -/
theorem writes_toString (n : Int) : Writes (toString n).toList n := by
  have digits (size : Nat) : ∀ c ∈ Nat.toDigits 10 size, c.isDigit := by
    intro c member
    exact Nat.isDigit_of_mem_toDigits (by decide) (by decide) member
  have value (size : Nat) : value (Nat.toDigits 10 size) = size := Nat.ofDigitChars_ten_toDigits
  cases n with
  | ofNat size =>
      have writes := Writes.plain Nat.toDigits_ne_nil (digits size)
      rwa [value, ← toList_toString_ofNat] at writes
  | negSucc size =>
      have writes := Writes.minus Nat.toDigits_ne_nil (digits (size + 1))
      rwa [value, ← toList_toString_negSucc] at writes

theorem literal_toString (w : Int32) : Literal (toString w) w.toInt := by
  obtain ⟨low, high⟩ := exists_toInt_eq_iff.1 ⟨w, rfl⟩
  exact ⟨writes_toString w.toInt, low, high⟩

end Criteria.Decimal
