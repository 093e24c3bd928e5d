/-
# Criteria.Connective -- AND and OR

A connective is written as a keyword in any letter case. `absorbing` is the
truth value that settles a connective from one side alone: false for AND, true
for OR.
-/
import Criteria.Error
import Criteria.Text.Blank

namespace Criteria

set_option autoImplicit false

inductive Connective where
  | and
  | or
deriving DecidableEq, Repr

namespace Connective

def name : Connective → String
  | and => "AND"
  | or => "OR"

/-- The connective a word spells in any mixture of ASCII cases. -/
def ofKeyword? (word : String) : Option Connective :=
  match word.toList.map Char.toUpper with
  | ['A', 'N', 'D'] => some and
  | ['O', 'R'] => some or
  | _ => none

theorem ofKeyword?_name (c : Connective) : ofKeyword? c.name = some c := by
  cases c <;> rfl

/-- Reads a connective between blanks; a refusal shows the whole text. -/
def parse (text : String) : Except Error Connective :=
  match ofKeyword? (Text.trim text) with
  | some connective => .ok connective
  | none => .error (.unknownConnective text)

/-- The value of one side that decides the whole. -/
def absorbing : Connective → Bool
  | and => false
  | or => true

end Connective

end Criteria
