/-
# Criteria.Json.Nesting -- how deep the brackets of a text go

A scan over the characters alone: brackets and braces count outside quotation
marks, and a closing one without an opening one counts for nothing. It gives an
answer for every text, JSON or not, before any of it is read.
-/

namespace Criteria.Json

set_option autoImplicit false

/-- Where a character stands with respect to quotation marks. -/
inductive Place where
  | outside
  | inside
  /-- After a backslash between quotation marks. -/
  | escaped
deriving DecidableEq, Repr

structure BracketScan where
  place : Place
  depth : Nat
  deepest : Nat
deriving DecidableEq, Repr

namespace BracketScan

def start : BracketScan := ⟨.outside, 0, 0⟩

def step (scan : BracketScan) (c : Char) : BracketScan :=
  match scan.place with
  | .escaped => { scan with place := .inside }
  | .inside =>
      if c = '\\' then { scan with place := .escaped }
      else if c = '"' then { scan with place := .outside }
      else scan
  | .outside =>
      if c = '"' then { scan with place := .inside }
      else if c = '\x7b' ∨ c = '[' then
        { scan with depth := scan.depth + 1, deepest := max scan.deepest (scan.depth + 1) }
      else if c = '\x7d' ∨ c = ']' then { scan with depth := scan.depth - 1 }
      else scan

end BracketScan

/-- The greatest number of brackets open at once. -/
def nesting (text : String) : Nat :=
  (text.toList.foldl BracketScan.step BracketScan.start).deepest

end Criteria.Json
