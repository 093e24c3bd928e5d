/-
# Criteria.Text.Blank -- the characters that separate words

Rule texts are cut at white space in the sense of Unicode: the 25 code points
with the property White_Space. Core's `Char.isWhitespace` knows four of them
(`isBlank_of_isWhitespace`), so the property is tabled here. `trim` removes
such characters from both ends of a text and never from its middle.
-/

namespace Criteria.Text

set_option autoImplicit false

/-- The code points with the property White_Space, as inclusive ranges in
ascending order. -/
def blankRanges : List (Nat × Nat) :=
  [(0x09, 0x0D), (0x20, 0x20), (0x85, 0x85), (0xA0, 0xA0), (0x1680, 0x1680),
   (0x2000, 0x200A), (0x2028, 0x2029), (0x202F, 0x202F), (0x205F, 0x205F),
   (0x3000, 0x3000)]

def isBlank (c : Char) : Bool :=
  blankRanges.any fun range => range.1 ≤ c.toNat && c.toNat ≤ range.2

theorem isBlank_of_isWhitespace {c : Char} (white : c.isWhitespace = true) :
    isBlank c = true := by
  have listed : c = ' ' ∨ c = '\t' ∨ c = '\r' ∨ c = '\n' := by
    simpa [Char.isWhitespace, or_assoc] using white
  rcases listed with rfl | rfl | rfl | rfl <;> rfl

example : (blankRanges.map fun range => range.2 + 1 - range.1).sum = 25 := rfl

/-- The text without the blanks at its ends. -/
def trim (text : String) : String :=
  String.ofList ((text.toList.dropWhile isBlank).reverse.dropWhile isBlank).reverse

end Criteria.Text
