/-
# Criteria.Decimal -- numbers written in ASCII digits

`value` is the number that a run of digits of any length stands for, and `word32?`
the signed 32-bit word that is equal to an integer. `int32?` reads such a word from
a text, digit by digit and with words only: each digit is worked in by `append?`,
which refuses a product or a sum that no word is equal to. So nothing wraps.
-/

namespace Criteria.Decimal

set_option autoImplicit false

/-- The value of a list of digits, the most significant first. -/
def value (digits : List Char) : Nat := Nat.ofDigitChars 10 digits 0

/-- The word with this value, if there is one. -/
def word32? (n : Int) : Option Int32 :=
  if Int32.minValue.toInt ≤ n ∧ n ≤ Int32.maxValue.toInt then some (Int32.ofInt n) else none

theorem word32?_eq_some_iff {n : Int} {w : Int32} : word32? n = some w ↔ w.toInt = n := by
  have low : Int32.minValue.toInt = -2147483648 := by decide
  have high : Int32.maxValue.toInt = 2147483647 := by decide
  simp only [word32?, low, high]
  constructor
  · intro found
    split at found
    · rename_i bounds
      simp only [Option.some.injEq] at found
      rw [← found, Int32.toInt_ofInt_of_le (by omega) (by omega)]
    · simp at found
  · rintro rfl
    have := w.minValue_le_toInt
    have := w.toInt_lt
    rw [if_pos (by omega), Int32.ofInt_toInt]

/-- The word with one more digit behind those it was read from. In a negative number
the digit is taken off. -/
def append? (negative : Bool) (word : Int32) (c : Char) : Option Int32 :=
  if c.isDigit then do
    let tens ← word32? (word.toInt * 10)
    let digit := Int.ofNat (c.toNat - '0'.toNat)
    word32? (if negative then tens.toInt - digit else tens.toInt + digit)
  else none

/-- Reads a word from one or more digits. -/
def ofDigits? (negative : Bool) (digits : List Char) : Option Int32 :=
  if digits = [] then none else digits.foldlM (append? negative) 0

/-- Reads a signed 32-bit integer. -/
def int32? (text : String) : Option Int32 :=
  match text.toList with
  | '+' :: digits => ofDigits? false digits
  | '-' :: digits => ofDigits? true digits
  | digits => ofDigits? false digits

end Criteria.Decimal
