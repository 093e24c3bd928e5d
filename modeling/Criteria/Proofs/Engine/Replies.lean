/-
# Criteria.Proofs.Engine.Replies -- the cache cannot be told from the replies

`Request.reply` says what a request means without any cache. An engine that has
answered any history of requests has a faithful cache, and an engine with a
faithful cache replies just that (`run_fst`, `run_after_fst`). So two engines with
one default connective reply alike, whatever room they have and whatever they were
asked before (`replies_of_histories`).

What a request does to the cache depends on one thing alone, the text that it
asks the cache for (`Request.text?`), and three things can come of it
(`answer_cases`).
-/
import Criteria.Engine
import Criteria.Proofs.Cache.Contents

namespace Criteria.Engine

set_option autoImplicit false

/-! ## What a request asks of the cache -/

/-- The text that a request looks up. A payload has to be read first. -/
def Request.text? : Request → Option String
  | .fetch text => some text
  | .evaluateText text _ => some text
  | .check text _ => some text
  | .evaluatePayload payload =>
      match Payload.parse payload with
      | .ok payload => some payload.rule
      | .error _ => none
  | .parse _ => none
  | .combine _ _ => none
  | .evaluate _ _ => none
  | .clear => none

def Request.clears : Request → Bool
  | .clear => true
  | _ => false

variable {engine : Engine} {request : Request} {text : String}

theorem evaluatePayload_of_error {payload : String} {error : Error}
    (refused : Payload.parse payload = .error error) :
    engine.evaluatePayload payload = (.error error, engine) := by
  rw [evaluatePayload, refused]

theorem evaluatePayload_of_ok {text : String} {payload : Payload}
    (read : Payload.parse text = .ok payload) :
    engine.evaluatePayload text = engine.evaluateText payload.rule payload.record := by
  rw [evaluatePayload, read]

theorem answer_of_text? (asked : request.text? = some text) :
    (engine.answer request).2 = { engine with cache := (engine.cache.fetch text).2 } := by
  cases request with
  | fetch _ => cases asked; rfl
  | evaluateText _ _ => cases asked; rfl
  | check _ _ => cases asked; rfl
  | evaluatePayload written =>
      cases outcome : Payload.parse written with
      | ok payload =>
          simp only [Request.text?, outcome, Option.some.injEq] at asked
          rw [← asked, answer, evaluatePayload_of_ok outcome]
          rfl
      | error error => simp [Request.text?, outcome] at asked
  | _ => cases asked

/-- A request that looks nothing up leaves the engine alone, unless it clears it. -/
theorem answer_of_silent (silent : request.text? = none) (keeps : request.clears = false) :
    (engine.answer request).2 = engine := by
  cases request with
  | parse _ => rfl
  | combine _ _ => rfl
  | evaluate _ _ => rfl
  | evaluatePayload written =>
      cases outcome : Payload.parse written with
      | ok payload => simp [Request.text?, outcome] at silent
      | error error => rw [answer, evaluatePayload_of_error outcome]
  | clear => cases keeps
  | _ => cases silent

theorem answer_of_clears (clears : request.clears) :
    (engine.answer request).2 = { engine with cache := engine.cache.clear } := by
  cases request with
  | clear => rfl
  | _ => cases clears

/-- The three things that a request can do to an engine. -/
theorem answer_cases (engine : Engine) (request : Request) :
    (request.clears ∧ (engine.answer request).2 = { engine with cache := engine.cache.clear }) ∨
      (∃ text, request.text? = some text ∧
        (engine.answer request).2 = { engine with cache := (engine.cache.fetch text).2 }) ∨
      request.clears = false ∧ request.text? = none ∧ (engine.answer request).2 = engine := by
  by_cases clears : request.clears
  · exact .inl ⟨clears, answer_of_clears clears⟩
  · have keeps : request.clears = false := by simpa using clears
    cases asked : request.text? with
    | some text => exact .inr (.inl ⟨text, rfl, answer_of_text? asked⟩)
    | none => exact .inr (.inr ⟨keeps, rfl, answer_of_silent asked keeps⟩)

theorem settings_answer (engine : Engine) (request : Request) :
    (engine.answer request).2.settings = engine.settings := by
  rcases answer_cases engine request with ⟨-, effect⟩ | ⟨text, -, effect⟩ | ⟨-, -, effect⟩
  all_goals rw [effect]

/-! ## What a request means -/

/-- The reply without a cache. -/
def Request.reply (settings : Settings) : Request → Except Error Reply
  | .parse text => (Rule.parse text).map .rule
  | .fetch text => (Rule.parse text).map .rule
  | .combine texts requested =>
      ((settings.resolve requested).bind fun c => Rule.combine c texts).map .rule
  | .evaluate rule record => (rule.evaluate record).map .verdict
  | .evaluateText text record => ((Rule.parse text).bind (Rule.evaluate record)).map .verdict
  | .check text record => ((Rule.parse text).bind (Rule.evaluate record)).map .verdict
  | .evaluatePayload text =>
      ((Payload.parse text).bind fun payload =>
        (Rule.parse payload.rule).bind (Rule.evaluate payload.record)).map .verdict
  | .clear => .ok .done

/-- Of the settings only the default connective matters for replies. -/
theorem Request.reply_congr {settings settings' : Settings}
    (same : settings.defaultConnective = settings'.defaultConnective) (request : Request) :
    request.reply settings = request.reply settings' := by
  cases request with
  | combine texts requested =>
      simp only [reply, Settings.resolve, same]
  | _ => rfl

theorem evaluateText_fst (faithful : engine.cache.Faithful) (text : String) (record : Record) :
    (engine.evaluateText text record).1 = (Rule.parse text).bind (Rule.evaluate record) :=
  faithful.check_fst text record

theorem answer_fst (faithful : engine.cache.Faithful) (request : Request) :
    (engine.answer request).1 = request.reply engine.settings := by
  cases request with
  | parse _ => rfl
  | fetch text => exact congrArg (Except.map Reply.rule) (faithful.fetch_fst text)
  | combine _ _ => rfl
  | evaluate _ _ => rfl
  | evaluateText text record =>
      exact congrArg (Except.map Reply.verdict) (evaluateText_fst faithful text record)
  | check text record =>
      exact congrArg (Except.map Reply.verdict) (faithful.check_fst text record)
  | evaluatePayload written =>
      cases outcome : Payload.parse written with
      | ok payload =>
          rw [answer, evaluatePayload_of_ok outcome, Request.reply, outcome]
          exact congrArg (Except.map Reply.verdict)
            (evaluateText_fst faithful payload.rule payload.record)
      | error error =>
          rw [answer, evaluatePayload_of_error outcome, Request.reply, outcome]
          rfl
  | clear => rfl

theorem faithful_answer (faithful : engine.cache.Faithful) (request : Request) :
    (engine.answer request).2.cache.Faithful := by
  rcases answer_cases engine request with ⟨-, effect⟩ | ⟨text, -, effect⟩ | ⟨-, -, effect⟩
  · rw [effect]
    exact Cache.faithful_empty engine.cache.capacity
  · rw [effect]
    exact faithful.fetch text
  · rw [effect]
    exact faithful

/-! ## Runs -/

theorem run_cons (engine : Engine) (request : Request) (requests : List Request) :
    engine.run (request :: requests) =
      ((engine.answer request).1 :: ((engine.answer request).2.run requests).1,
        ((engine.answer request).2.run requests).2) := rfl

/-- A faithful engine replies to each request as if there were no cache. -/
theorem run_fst (faithful : engine.cache.Faithful) (requests : List Request) :
    (engine.run requests).1 = requests.map (Request.reply engine.settings) := by
  induction requests generalizing engine with
  | nil => rfl
  | cons request requests ih =>
      rw [run_cons, answer_fst faithful, ih (faithful_answer faithful request), settings_answer,
        List.map_cons]

/-- The engine that a history of requests leaves behind. -/
def after (settings : Settings) (history : List Request) : Engine :=
  ((ofSettings settings).run history).2

/-- What holds of a new engine and is kept by each request holds after every
history. -/
theorem after_induction {motive : List Request → Engine → Prop} {settings : Settings}
    (start : motive [] (ofSettings settings))
    (step : ∀ history engine request, motive history engine →
      motive (history ++ [request]) (engine.answer request).2)
    (history : List Request) : motive history (after settings history) := by
  suffices run : ∀ requests earlier engine, motive earlier engine →
      motive (earlier ++ requests) (engine.run requests).2 from run history [] _ start
  intro requests
  induction requests with
  | nil =>
      intro earlier engine held
      rw [List.append_nil]
      exact held
  | cons request requests ih =>
      intro earlier engine held
      have next := ih _ _ (step earlier engine request held)
      rwa [List.append_assoc] at next

theorem faithful_after (settings : Settings) (history : List Request) :
    (after settings history).cache.Faithful :=
  after_induction (motive := fun _ engine => engine.cache.Faithful)
    (Cache.faithful_empty settings.cacheCapacity)
    (fun _ _ request faithful => faithful_answer faithful request) history

theorem settings_after (settings : Settings) (history : List Request) :
    (after settings history).settings = settings :=
  after_induction (motive := fun _ engine => engine.settings = settings) rfl
    (fun _ engine request same => (settings_answer engine request).trans same) history

/-- After any history, each request gets the reply that it means. -/
theorem run_after_fst (settings : Settings) (history requests : List Request) :
    ((after settings history).run requests).1 = requests.map (Request.reply settings) := by
  rw [run_fst (faithful_after settings history), settings_after]

/-- Whatever two engines have room for and were asked before, they reply alike
if they have the same default connective: each reply is what the request means
without a cache. So a text that goes through the cache gives what reading it anew
gives. -/
theorem replies_of_histories {settings settings' : Settings}
    (same : settings.defaultConnective = settings'.defaultConnective)
    (history history' : List Request) :
    (∀ requests, ((after settings history).run requests).1 =
        ((after settings' history').run requests).1) ∧
      (∀ requests, ((after settings history).run requests).1 =
        requests.map (Request.reply settings)) ∧
      (∀ text, ((after settings history).cache.fetch text).1 = Rule.parse text) ∧
      ∀ text record,
        ((after settings history).evaluateText text record).1 =
            (Rule.parse text).bind (Rule.evaluate record) ∧
          ((after settings history).cache.check text record).1 =
            (Rule.parse text).bind (Rule.evaluate record) := by
  have faithful := faithful_after settings history
  refine ⟨?_, run_after_fst settings history, ?_, ?_⟩
  · intro requests
    rw [run_after_fst, run_after_fst]
    apply List.map_congr_left
    intro request _
    exact Request.reply_congr same request
  · intro text
    exact faithful.fetch_fst text
  · intro text record
    exact ⟨evaluateText_fst faithful text record, faithful.check_fst text record⟩

/-- No room at all against a full cache that holds one of the texts, and what both
reply. -/
theorem replies_of_histories_without_room :
    Settings.defaultConnective ⟨.or, 0⟩ = Settings.defaultConnective ⟨.or, 1⟩ ∧
      ((after ⟨.or, 0⟩ [.fetch "a"]).run
          [.fetch "a", .evaluateText "b > 1" ∅, .fetch "or", .combine ["a", "b"] none]).1 =
        ((after ⟨.or, 1⟩ [.clear, .fetch "a", .fetch "b > 1"]).run
          [.fetch "a", .evaluateText "b > 1" ∅, .fetch "or", .combine ["a", "b"] none]).1 ∧
      ((after ⟨.or, 0⟩ [.fetch "a"]).run [.fetch "a", .evaluateText "b > 1" ∅, .fetch "or",
          .combine ["a", "b"] none]).1.map Except.toOption =
        [some (.rule (.leaf 1 "a")), none, none,
          some (.rule (.node 0 2 .or (.leaf 1 "a") (.leaf 1 "b")))] := by
  have same : Settings.defaultConnective ⟨.or, 0⟩ = Settings.defaultConnective ⟨.or, 1⟩ := rfl
  obtain ⟨alike, meant, -, -⟩ := replies_of_histories same [.fetch "a"]
    [.clear, .fetch "a", .fetch "b > 1"]
  refine ⟨same, alike _, ?_⟩
  rw [meant]
  decide +kernel

end Criteria.Engine
