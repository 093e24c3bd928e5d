/-
# Criteria.Cache -- rule texts kept with their rules

A cache holds the rules of at most `capacity` texts. A text is kept when it
has been read for the first time, and stays until the cache is cleared; when the
cache is full, further texts are read each time and not kept. Looking up and
keeping are steps of their own (`find?`, `keep`), and `fetch` does both.
-/
import Criteria.Assembly
import Criteria.Rule.Evaluation

namespace Criteria

set_option autoImplicit false

structure Cache where
  capacity : Nat
  entries : Std.ExtTreeMap String Rule

namespace Cache

def empty (capacity : Nat) : Cache := ⟨capacity, ∅⟩

def size (cache : Cache) : Nat := cache.entries.size

def find? (cache : Cache) (text : String) : Option Rule := cache.entries[text]?

/-- Keeps a rule for a text if there is room. -/
def keep (cache : Cache) (text : String) (rule : Rule) : Cache :=
  if cache.entries.size < cache.capacity then
    { cache with entries := cache.entries.insert text rule }
  else cache

def clear (cache : Cache) : Cache := empty cache.capacity

/-- The rule of a text, from the cache or read anew. -/
def fetch (cache : Cache) (text : String) : Except Error Rule × Cache :=
  match cache.find? text with
  | some rule => (.ok rule, cache)
  | none =>
      match Rule.parse text with
      | .error error => (.error error, cache)
      | .ok rule => (.ok rule, cache.keep text rule)

/-- The truth of a rule text for a record. -/
def check (cache : Cache) (text : String) (record : Record) : Except Error Bool × Cache :=
  let (rule, cache) := cache.fetch text
  (rule.bind (Rule.evaluate record), cache)

end Cache

end Criteria
