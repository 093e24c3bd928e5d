/-
# Criteria.Engine -- settings and a cache behind one front

An engine answers requests one at a time. `answer` gives the answer together
with the engine afterwards; only the cache can change, and a request that fails
leaves the engine as usable as before. `run` answers a list of requests.
-/
import Criteria.Cache
import Criteria.Payload
import Criteria.Rule.Combination
import Criteria.Settings

namespace Criteria

set_option autoImplicit false

structure Engine where
  settings : Settings
  cache : Cache

namespace Engine

/-- An engine that has read nothing yet. -/
def ofSettings (settings : Settings) : Engine := ⟨settings, .empty settings.cacheCapacity⟩

/-- The truth of a rule text for a record. -/
def evaluateText (engine : Engine) (text : String) (record : Record) :
    Except Error Bool × Engine :=
  let (verdict, cache) := engine.cache.check text record
  (verdict, { engine with cache })

/-- The truth of the rule in a payload for the rest of the payload. -/
def evaluatePayload (engine : Engine) (text : String) : Except Error Bool × Engine :=
  match Payload.parse text with
  | .error error => (.error error, engine)
  | .ok payload => engine.evaluateText payload.rule payload.record

/-- Joins rule texts under the connective asked for, or else the default. -/
def combine (engine : Engine) (texts : List String) (requested : Option String) :
    Except Error Rule := do
  Rule.combine (← engine.settings.resolve requested) texts

/-! ## Requests -/

inductive Request where
  /-- Read a rule text afresh. -/
  | parse (text : String)
  /-- Read a rule text through the cache. -/
  | fetch (text : String)
  | combine (texts : List String) (requested : Option String)
  | evaluate (rule : Rule) (record : Record)
  | evaluateText (text : String) (record : Record)
  /-- Evaluate a rule text through the cache itself. -/
  | check (text : String) (record : Record)
  | evaluatePayload (text : String)
  | clear

inductive Reply where
  | rule (rule : Rule)
  | verdict (value : Bool)
  | done
deriving DecidableEq, Repr

def answer (engine : Engine) : Request → Except Error Reply × Engine
  | .parse text => ((Rule.parse text).map .rule, engine)
  | .fetch text =>
      let (rule, cache) := engine.cache.fetch text
      (rule.map .rule, { engine with cache })
  | .combine texts requested => ((engine.combine texts requested).map .rule, engine)
  | .evaluate rule record => ((rule.evaluate record).map .verdict, engine)
  | .evaluateText text record =>
      let (verdict, engine) := engine.evaluateText text record
      (verdict.map .verdict, engine)
  | .check text record =>
      let (verdict, cache) := engine.cache.check text record
      (verdict.map .verdict, { engine with cache })
  | .evaluatePayload text =>
      let (verdict, engine) := engine.evaluatePayload text
      (verdict.map .verdict, engine)
  | .clear => (.ok .done, { engine with cache := engine.cache.clear })

/-- The answers to a list of requests, and the engine after the last. -/
def run (engine : Engine) : List Request → List (Except Error Reply) × Engine
  | [] => ([], engine)
  | request :: requests =>
      let (reply, engine) := engine.answer request
      let (replies, engine) := engine.run requests
      (reply :: replies, engine)

end Engine

end Criteria
