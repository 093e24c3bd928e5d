/-
# Criteria.Clause -- the truth of a single clause

A clause names an attribute, an operator and a value, with one space between
two of them. Spaces at its end do not count; any other space separates, so two
in a row leave an empty part and the clause has no reading. Apostrophes in the
value are quotation marks and drop out.
-/
import Criteria.Attribute
import Criteria.Decimal
import Criteria.Error
import Criteria.Operator

namespace Criteria.Clause

set_option autoImplicit false

/-- The text without the spaces at its end. -/
def dropTrailingSpaces (chars : List Char) : List Char :=
  (chars.reverse.dropWhile (· == ' ')).reverse

def parts (clause : String) : List String :=
  ((dropTrailingSpaces clause.toList).splitOn ' ').map String.ofList

/-- A value without its quotation marks. -/
def unquote (value : String) : String :=
  String.ofList (value.toList.filter (· != '\''))

/-- The truth of a clause for a record. Of several faults the shape of the
clause comes first, then the attribute, the operator, and last the threshold. -/
def holds (record : Record) (clause : String) : Except Error Bool :=
  match parts clause with
  | [name, symbol, value] =>
      match record[name]? with
      | none => .error (.missingAttribute name)
      | some actual =>
          match Operator.ofSymbol? symbol with
          | none => .error (.unknownOperator symbol)
          | some (.likeness test) => .ok (test.holds actual.asText (unquote value))
          | some (.magnitude test) =>
              match Decimal.int32? (unquote value) with
              | none => .error (.malformedClause clause)
              | some threshold => .ok (test.holds actual.asInteger threshold)
  | _ => .error (.malformedClause clause)

end Criteria.Clause
