/-
# Criteria.Settings -- what an engine is set up with

Settings are read from a JSON object or array of two fields, both of which may
be left out. A connective is spelled there in one case throughout; where a
caller names one (`resolve`), any mixture will do, and a blank stands for the
default.
-/
import Criteria.Connective
import Criteria.Json.Fields

namespace Criteria

set_option autoImplicit false

structure Settings where
  /-- Joins rules where no connective is named. -/
  defaultConnective : Connective := .and
  /-- How many rule texts are kept with their rules. -/
  cacheCapacity : Nat := 2048
deriving DecidableEq, Repr

namespace Connective

/-- The connective of a setting: a keyword in capitals or in small letters. -/
def ofSetting? : String → Option Connective
  | "AND" => some and
  | "and" => some and
  | "OR" => some or
  | "or" => some or
  | _ => none

def toJson (connective : Connective) : String := Json.quote connective.name

end Connective

namespace Settings

open Json

def fields : List String := ["default_connective", "cache_capacity"]

def readConnective? : Option Term → Option Connective
  | none => some ({} : Settings).defaultConnective
  | some term => term.keyword?.bind Connective.ofSetting?

def readCapacity? : Option Term → Option Nat
  | none => some ({} : Settings).cacheCapacity
  | some term => term.natBelow? UInt64.size

def ofFields? : List (Option Term) → Option Settings
  | [connective, capacity] => do
      let defaultConnective ← readConnective? connective
      let cacheCapacity ← readCapacity? capacity
      some { defaultConnective, cacheCapacity }
  | _ => none

def ofTerm? : Term → Option Settings
  | .object members => (Fields.ofObject? fields members).bind ofFields?
  | .array items => (Fields.ofArray? fields items).bind ofFields?
  | _ => none

def ofJson (text : String) : Except Error Settings :=
  match (Term.parse? text).bind ofTerm? with
  | some settings => .ok settings
  | none => .error .unreadable

/-- The connective a caller asks for; the default if none, or a blank, is given. -/
def resolve (settings : Settings) (requested : Option String) : Except Error Connective :=
  match requested.map Text.trim with
  | none => .ok settings.defaultConnective
  | some name => if name = "" then .ok settings.defaultConnective else Connective.parse name

end Settings

end Criteria
