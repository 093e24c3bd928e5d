/-
# Criteria.Json.Quoted -- the strings of a JSON text

A string is read into pieces: a character, written plainly or by a one-letter
escape, or a 16-bit unit written by its four hexadecimal digits. Pieces make a
text only if every unit is a character of its own or half of a pair
(`text?`). In the other direction `quote` escapes what has to be escaped and
nothing else.
-/

namespace Criteria.Json

set_option autoImplicit false

inductive Piece where
  | plain (c : Char)
  /-- A code unit, below 2^16. -/
  | unit (code : Nat)
deriving DecidableEq, Repr

namespace Piece

/-! ## Reading -/

/-- The character that an escape letter stands for. -/
def ofLetter? : Char → Option Char
  | '"' => some '"'
  | '\\' => some '\\'
  | '/' => some '/'
  | 'b' => some '\x08'
  | 'f' => some '\x0c'
  | 'n' => some '\n'
  | 'r' => some '\r'
  | 't' => some '\t'
  | _ => none

def hexDigit? (c : Char) : Option Nat :=
  if c.isDigit then some (c.toNat - '0'.toNat)
  else if 'a' ≤ c ∧ c ≤ 'f' then some (c.toNat - 'a'.toNat + 10)
  else if 'A' ≤ c ∧ c ≤ 'F' then some (c.toNat - 'A'.toNat + 10)
  else none

def hexCode? (a b c d : Char) : Option Nat := do
  some ((((← hexDigit? a) * 16 + (← hexDigit? b)) * 16 + (← hexDigit? c)) * 16 + (← hexDigit? d))

/-- The pieces up to the closing quotation mark, and what follows it. -/
def read? : List Char → Option (List Piece × List Char)
  | [] => none
  | '"' :: rest => some ([], rest)
  | '\\' :: 'u' :: a :: b :: c :: d :: rest => do
      let code ← hexCode? a b c d
      let (pieces, rest) ← read? rest
      some (unit code :: pieces, rest)
  | '\\' :: letter :: rest => do
      let c ← ofLetter? letter
      let (pieces, rest) ← read? rest
      some (plain c :: pieces, rest)
  | c :: rest =>
      if c.toNat < 0x20 then none
      else do
        let (pieces, rest) ← read? rest
        some (plain c :: pieces, rest)

/-! ## Meaning -/

/-- The first half of a pair. -/
def IsHigh (code : Nat) : Prop := 0xD800 ≤ code ∧ code < 0xDC00

/-- The second half of a pair. -/
def IsLow (code : Nat) : Prop := 0xDC00 ≤ code ∧ code < 0xE000

instance (code : Nat) : Decidable (IsHigh code) := inferInstanceAs (Decidable (_ ∧ _))

instance (code : Nat) : Decidable (IsLow code) := inferInstanceAs (Decidable (_ ∧ _))

/-- The character beyond 16 bits that two halves stand for. -/
def ofPair (high low : Nat) : Char :=
  Char.ofNat (0x10000 + (high - 0xD800) * 0x400 + (low - 0xDC00))

/-- The characters of a string; none if half of a pair stands alone. -/
def chars? : List Piece → Option (List Char)
  | [] => some []
  | plain c :: pieces => (chars? pieces).map (c :: ·)
  | unit high :: unit low :: pieces =>
      if IsHigh high then
        if IsLow low then (chars? pieces).map (ofPair high low :: ·) else none
      else if IsLow high then none
      else (chars? (unit low :: pieces)).map (Char.ofNat high :: ·)
  | unit code :: pieces =>
      if IsHigh code ∨ IsLow code then none
      else (chars? pieces).map (Char.ofNat code :: ·)

def text? (pieces : List Piece) : Option String := (chars? pieces).map String.ofList

end Piece

/-! ## Writing -/

/-- A character as it stands between quotation marks. -/
def escape (c : Char) : List Char :=
  match c with
  | '"' => ['\\', '"']
  | '\\' => ['\\', '\\']
  | '\x08' => ['\\', 'b']
  | '\x0c' => ['\\', 'f']
  | '\n' => ['\\', 'n']
  | '\r' => ['\\', 'r']
  | '\t' => ['\\', 't']
  | c =>
      if c.toNat < 0x20 then
        ['\\', 'u', '0', '0', Nat.digitChar (c.toNat / 16), Nat.digitChar (c.toNat % 16)]
      else [c]

def quoteChars (chars : List Char) : List Char := '"' :: chars.flatMap escape ++ ['"']

def quote (text : String) : String := String.ofList (quoteChars text.toList)

end Criteria.Json
