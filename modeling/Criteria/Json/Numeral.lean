/-
# Criteria.Json.Numeral -- the numbers of a JSON text

A numeral is kept as it is written. It counts as an integer only without a
fraction and an exponent and within 64 bits (`integer?`); minus zero does not,
it is a number with a sign that no integer has. Every other numeral stands for
the binary floating-point number with 53 significant bits that is reached as
follows, and is refused when that number is not finite (`overflows`): digits
are collected while the significand stays below 2^64, the digits left out only
move the decimal exponent, and significand and power of ten, each rounded to 53
bits, are multiplied.
-/
import Criteria.Decimal

namespace Criteria.Json

set_option autoImplicit false

structure Numeral where
  negative : Bool
  /-- The digits before the point. -/
  whole : List Char
  /-- The digits after the point, none if there is no point. -/
  fraction : List Char
  /-- The written exponent. -/
  exponent? : Option Int
deriving DecidableEq, Repr

namespace Numeral

/-! ## Reading -/

def readSign : List Char → Bool × List Char
  | '-' :: rest => (true, rest)
  | chars => (false, chars)

/-- One or more digits. -/
def readDigits? (chars : List Char) : Option (List Char × List Char) :=
  if chars.takeWhile Char.isDigit = [] then none
  else some (chars.takeWhile Char.isDigit, chars.dropWhile Char.isDigit)

/-- Digits that start with zero only if there is no second one. -/
def readWhole? (chars : List Char) : Option (List Char × List Char) := do
  let (digits, rest) ← readDigits? chars
  if digits.head? = some '0' ∧ digits ≠ ['0'] then none else some (digits, rest)

def readFraction? : List Char → Option (List Char × List Char)
  | '.' :: rest => readDigits? rest
  | chars => some ([], chars)

def readExponentSign : List Char → Bool × List Char
  | '-' :: rest => (true, rest)
  | '+' :: rest => (false, rest)
  | chars => (false, chars)

def readExponent? : List Char → Option (Option Int × List Char)
  | c :: chars =>
      if c = 'e' ∨ c = 'E' then do
        let (negative, chars) := readExponentSign chars
        let (digits, rest) ← readDigits? chars
        let size := Int.ofNat (Decimal.value digits)
        some (some (if negative then -size else size), rest)
      else some (none, c :: chars)
  | [] => some (none, [])

/-- The numeral at the front of a text, and what follows it. -/
def read? (chars : List Char) : Option (Numeral × List Char) := do
  let (negative, chars) := readSign chars
  let (whole, chars) ← readWhole? chars
  let (fraction, chars) ← readFraction? chars
  let (exponent?, rest) ← readExponent? chars
  some ({ negative, whole, fraction, exponent? }, rest)

/-! ## Meaning -/

/-- The integer written, if the numeral is one. -/
def integer? (n : Numeral) : Option Int :=
  if n.fraction ≠ [] ∨ n.exponent? ≠ none then none
  else
    match n.negative, Decimal.value n.whole with
    | false, size => if size < UInt64.size then some size else none
    | true, size =>
        if size ≠ 0 ∧ Int64.minValue.toInt ≤ -Int.ofNat size then some (-size) else none

/-- The significand after as many of the digits as it has room for, and the
number of digits left out. -/
def collect (significand : Nat) : List Char → Nat × Nat
  | [] => (significand, 0)
  | digit :: digits =>
      let next := Nat.ofDigitChars 10 [digit] significand
      if next < UInt64.size then collect next digits else (significand, digits.length + 1)

/-- The nearest number with at most 53 significant bits; a tie goes to the one
whose last bit is zero. -/
def round53 (n : Nat) : Nat :=
  let unit := Nat.pow 2 (n.log2 - 52)
  let below := n / unit
  let excess := n % unit
  if 2 * excess < unit ∨ (2 * excess = unit ∧ below % 2 = 0) then below * unit
  else (below + 1) * unit

/-- From here on a number rounds to infinity. -/
def infinityBound : Nat := Nat.pow 2 1024 - Nat.pow 2 970

/-- Whether the number is too large for a finite floating-point value. -/
def overflows (n : Numeral) : Bool :=
  let (leading, skipped) := collect 0 n.whole
  let (significand, unread) := collect leading n.fraction
  let exponent : Int :=
    skipped - (n.fraction.length - unread : Nat) + n.exponent?.getD 0
  significand ≠ 0 ∧ 0 ≤ exponent ∧
    (308 < exponent ∨ infinityBound ≤ round53 significand * round53 (Nat.pow 10 exponent.toNat))

end Numeral

end Criteria.Json
