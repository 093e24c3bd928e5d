/-
# Criteria.Token -- a rule text cut into tokens

A parenthesis is a token wherever it stands, any other token is a longest run
of characters that are neither blank nor parentheses, and blanks only separate.
A run that spells AND or OR in any letter case is a connective, any other a
word.
-/
import Criteria.Connective

namespace Criteria

set_option autoImplicit false

inductive Token where
  | opening
  | closing
  | connective (connective : Connective)
  | word (text : String)
deriving DecidableEq, Repr

namespace Token

def isParenthesis (c : Char) : Bool := c == '(' || c == ')'

/-- Characters that words are made of. -/
def isWordChar (c : Char) : Bool := !Text.isBlank c && !isParenthesis c

/-- The texts of the tokens, in order. -/
def lexemes : List Char → List String
  | [] => []
  | c :: rest =>
      if Text.isBlank c then lexemes rest
      else if isParenthesis c then String.ofList [c] :: lexemes rest
      else
        String.ofList (c :: rest.takeWhile isWordChar) :: lexemes (rest.dropWhile isWordChar)
termination_by chars => chars.length
decreasing_by
  · exact Nat.lt_succ_self _
  · exact Nat.lt_succ_self _
  · exact Nat.lt_succ_of_le (List.dropWhile_sublist _).length_le

def ofLexeme (lexeme : String) : Token :=
  if lexeme = "(" then opening
  else if lexeme = ")" then closing
  else
    match Connective.ofKeyword? lexeme with
    | some c => connective c
    | none => word lexeme

/-- The tokens of a rule text. -/
def ofText (text : String) : List Token := (lexemes text.toList).map ofLexeme

end Token

end Criteria
