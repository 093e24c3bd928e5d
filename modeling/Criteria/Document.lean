/-
# Criteria.Document -- rules as JSON documents

A document is a node as it was written: its kind and tag, and whichever of
clause and children it has. `toRule` builds the rule it describes. A node whose
members do not fit its kind fails before its children are looked at, then the
left child is built, then the right one, and the height is checked last.

`Rule.ofJson` refuses a text by its brackets before reading it. `Rule.ofNodeText`
reads without that guard; there the height is only found out when the rule is
built. In both, what follows the document is looked at last.
-/
import Criteria.Json.Fields
import Criteria.Json.Nesting
import Criteria.Rule.Basic

namespace Criteria

set_option autoImplicit false

inductive Document where
  | node (kind : Kind) (tag : UInt32) (clause? : Option String) (left? right? : Option Document)
deriving Repr

namespace Kind

def ofName? : String → Option Kind
  | "AND" => some (joined .and)
  | "OR" => some (joined .or)
  | "OPERAND" => some operand
  | _ => none

theorem ofName?_name (kind : Kind) : ofName? kind.name = some kind := by
  rcases kind with _ | connective
  · rfl
  · cases connective <;> rfl

end Kind

namespace Document

open Json

/-! ## Reading -/

/-- The members of a node, in the order in which an array gives them. -/
def fields : List String := ["kind", "depth_tag", "clause", "left", "right"]

def readTag? : Option Term → Option UInt32
  | none => some 0
  | some term => (term.natBelow? UInt32.size).map UInt32.ofNat

def readClause? : Option Term → Option (Option String)
  | none => some none
  | some .null => some none
  | some (.string pieces) => (Piece.text? pieces).map some
  | some _ => none

/-- A child from its term and the document that the term is, if it is one. -/
def readChild? : Option (Term × Option Document) → Option (Option Document)
  | none => some none
  | some (.null, _) => some none
  | some (_, child?) => child?.map some

/-- A node from what was given for each of the `fields`. -/
def ofFields? : List (Option (Term × Option Document)) → Option Document
  | [some kind, tag, clause, left, right] => do
      let kind ← kind.1.keyword?.bind Kind.ofName?
      let tag ← readTag? (tag.map Prod.fst)
      let clause? ← readClause? (clause.map Prod.fst)
      let left? ← readChild? left
      let right? ← readChild? right
      some (node kind tag clause? left? right?)
  | _ => none

mutual

def ofTerm? : Term → Option Document
  | .object members => (Fields.ofObject? fields (readMembers members)).bind ofFields?
  | .array items => (Fields.ofArray? fields (readItems items)).bind ofFields?
  | _ => none

/-- Each member with the document that its term is. -/
def readMembers : List (List Piece × Term) → List (List Piece × (Term × Option Document))
  | [] => []
  | (name, term) :: members => (name, term, ofTerm? term) :: readMembers members

/-- Each item with the document that it is. -/
def readItems : List Term → List (Term × Option Document)
  | [] => []
  | item :: items => (item, ofTerm? item) :: readItems items

end

/-! ## Building -/

def toRule : Document → Except NodeFault Rule
  | node .operand tag (some clause) none none => .ok (.leaf tag clause)
  | node .operand _ _ _ _ => .error .operandShape
  | node (.joined connective) tag none (some left) (some right) => do
      let left ← left.toRule
      let right ← right.toRule
      match Rule.join connective left right with
      | .ok rule => .ok (rule.withTag tag)
      | .error _ => .error .tooTall
  | node (.joined _) _ _ _ _ => .error .connectiveShape

end Document

namespace Rule

/-- Reads a rule from the JSON text of a node. -/
def ofNodeText (text : String) : Except Error Rule :=
  match Json.Term.read? text.toList with
  | none => .error .unreadable
  | some (term, rest) =>
      match Document.ofTerm? term with
      | none => .error .unreadable
      | some document =>
          match document.toRule with
          | .error fault => .error (.inconsistentNode fault)
          | .ok rule => if rest.all Json.isSpace then .ok rule else .error .unreadable

/-- Reads a rule from a JSON text whose brackets nest no deeper than a rule may. -/
def ofJson (text : String) : Except Error Rule :=
  if maxHeight < Json.nesting text then .error .nestingTooDeep else ofNodeText text

/-- The rule as a JSON text. -/
def toJson : Rule → String
  | leaf tag clause =>
      "\x7b\"depth_tag\":" ++ toString tag.toNat ++ ",\"kind\":\"OPERAND\",\"clause\":" ++
        Json.quote clause ++ "\x7d"
  | node tag _ connective left right =>
      "\x7b\"depth_tag\":" ++ toString tag.toNat ++ ",\"kind\":" ++ Json.quote connective.name ++
        ",\"left\":" ++ left.toJson ++ ",\"right\":" ++ right.toJson ++ "\x7d"

end Rule

end Criteria
