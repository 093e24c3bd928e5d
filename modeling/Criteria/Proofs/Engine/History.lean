/-
# Criteria.Proofs.Engine.History -- what a cache holds after a history

The texts that a cache can hold are those that requests have looked up since the
cache was last cleared and that can be read (`readable`), each counted where it
came first. As long as there is room each of them is kept, and none is ever put
out for another, so the cache holds the first of them (`Keeps`). A request adds
at most one text to the list (`keeps_answer`), and a history is followed one
request at a time (`keeps_after`).
-/
import Criteria.Proofs.Engine.Replies

namespace Criteria.Engine

set_option autoImplicit false

/-! ## The texts of a history -/

/-- The requests after the last one that cleared the cache. -/
def sinceClear (history : List Request) : List Request :=
  (history.reverse.takeWhile fun request => !request.clears).reverse

/-- Whether a text can be read. -/
def reads (text : String) : Bool := (Rule.parse text).isOk

/-- The texts that can be read, each where it occurs first. -/
def readable (texts : List String) : List String := (texts.filter reads).eraseDups

/-- The texts that a cache holds after a history, as far as there is room. -/
def wanted (history : List Request) : List String :=
  readable ((sinceClear history).filterMap Request.text?)

variable {engine : Engine} {history requests : List Request} {request : Request}
  {texts : List String} {text : String} {rule : Rule}

theorem sinceClear_snoc_of_clears (clears : request.clears) :
    sinceClear (history ++ [request]) = [] := by
  simp [sinceClear, clears]

theorem sinceClear_snoc (keeps : request.clears = false) :
    sinceClear (history ++ [request]) = sinceClear history ++ [request] := by
  simp [sinceClear, keeps]

theorem reads_iff : reads text ↔ ∃ rule, Rule.parse text = .ok rule := by
  unfold reads
  cases Rule.parse text <;> simp [Except.isOk, Except.toBool]

theorem mem_readable_iff :
    text ∈ readable texts ↔ text ∈ texts ∧ ∃ rule, Rule.parse text = .ok rule := by
  rw [readable, List.mem_eraseDups, List.mem_filter, reads_iff]

theorem readable_snoc_of_refused (refused : ∀ rule, Rule.parse text ≠ .ok rule) :
    readable (texts ++ [text]) = readable texts := by
  have dropped : ¬ reads text := by
    rw [reads_iff]
    rintro ⟨rule, read⟩
    exact refused rule read
  simp [readable, dropped]

theorem eraseDups_snoc (texts : List String) (text : String) :
    (texts ++ [text]).eraseDups =
      if text ∈ texts then texts.eraseDups else texts.eraseDups ++ [text] := by
  rw [List.eraseDups_append]
  split
  · rename_i listed
    simp [List.removeAll, listed]
  · rename_i new
    simp [List.removeAll, new, List.eraseDups_cons]

theorem readable_snoc_of_mem (listed : text ∈ readable texts) :
    readable (texts ++ [text]) = readable texts := by
  have kept := List.mem_eraseDups.1 listed
  have one := (List.mem_filter.1 kept).2
  rw [readable, List.filter_append, List.filter_cons_of_pos one, List.filter_nil, eraseDups_snoc,
    if_pos kept, readable]

theorem readable_snoc_of_new (new : text ∉ readable texts) (read : Rule.parse text = .ok rule) :
    readable (texts ++ [text]) = readable texts ++ [text] := by
  have one : reads text := reads_iff.2 ⟨rule, read⟩
  have absent := mt List.mem_eraseDups.2 new
  rw [readable, List.filter_append, List.filter_cons_of_pos one, List.filter_nil, eraseDups_snoc,
    if_neg absent, readable]

theorem wanted_snoc_of_clears (clears : request.clears) : wanted (history ++ [request]) = [] := by
  rw [wanted, sinceClear_snoc_of_clears clears]
  rfl

theorem clears_eq_false_of_text? (asked : request.text? = some text) : request.clears = false := by
  cases request with
  | clear => cases asked
  | _ => rfl

theorem wanted_snoc_of_silent (silent : request.text? = none) (keeps : request.clears = false) :
    wanted (history ++ [request]) = wanted history := by
  rw [wanted, sinceClear_snoc keeps, List.filterMap_append, List.filterMap_cons_none silent,
    List.filterMap_nil, List.append_nil, wanted]

theorem wanted_snoc_of_text? (asked : request.text? = some text) :
    wanted (history ++ [request]) =
      readable ((sinceClear history).filterMap Request.text? ++ [text]) := by
  rw [wanted, sinceClear_snoc (clears_eq_false_of_text? asked), List.filterMap_append,
    List.filterMap_cons_some asked, List.filterMap_nil]

/-! ## Requests and histories -/

theorem keeps_answer (keeps : engine.cache.Keeps (wanted history)) (request : Request) :
    (engine.answer request).2.cache.Keeps (wanted (history ++ [request])) := by
  rcases answer_cases engine request with
    ⟨clears, effect⟩ | ⟨text, asked, effect⟩ | ⟨stays, silent, effect⟩
  · rw [effect, wanted_snoc_of_clears clears]
    exact Cache.keeps_empty engine.cache.capacity
  · rw [effect, wanted_snoc_of_text? asked]
    cases outcome : Rule.parse text with
    | error error =>
        have refused : ∀ rule, Rule.parse text ≠ .ok rule := by simp [outcome]
        rw [readable_snoc_of_refused refused, keeps.fetch_of_refused refused]
        exact keeps
    | ok rule =>
        by_cases listed : text ∈ readable ((sinceClear history).filterMap Request.text?)
        · rw [readable_snoc_of_mem listed, keeps.fetch_of_mem listed]
          exact keeps
        · rw [readable_snoc_of_new listed outcome]
          exact keeps.fetch_of_new listed outcome
  · rw [effect, wanted_snoc_of_silent silent stays]
    exact keeps

theorem capacity_answer (engine : Engine) (request : Request) :
    (engine.answer request).2.cache.capacity = engine.cache.capacity := by
  rcases answer_cases engine request with ⟨-, effect⟩ | ⟨text, -, effect⟩ | ⟨-, -, effect⟩
  · rw [effect]
    rfl
  · rw [effect, Cache.capacity_fetch]
  · rw [effect]

theorem keeps_after (settings : Settings) (history : List Request) :
    (after settings history).cache.Keeps (wanted history) :=
  after_induction (motive := fun earlier engine => engine.cache.Keeps (wanted earlier))
    (Cache.keeps_empty settings.cacheCapacity)
    (fun _ _ request keeps => keeps_answer keeps request) history

theorem capacity_after (settings : Settings) (history : List Request) :
    (after settings history).cache.capacity = settings.cacheCapacity :=
  after_induction (motive := fun _ engine => engine.cache.capacity = settings.cacheCapacity) rfl
    (fun _ engine request same => (capacity_answer engine request).trans same) history

/-- A request adds one text at most. -/
theorem length_wanted_snoc_le (history : List Request) (request : Request) :
    (wanted (history ++ [request])).length ≤ (wanted history).length + 1 := by
  by_cases clears : request.clears
  · rw [wanted_snoc_of_clears clears]
    exact Nat.zero_le _
  · cases asked : request.text? with
    | none =>
        rw [wanted_snoc_of_silent asked (by simpa using clears)]
        exact Nat.le_succ _
    | some text =>
        rw [wanted_snoc_of_text? asked]
        cases outcome : Rule.parse text with
        | error error =>
            rw [readable_snoc_of_refused (by simp [outcome])]
            exact Nat.le_succ _
        | ok rule =>
            by_cases listed : text ∈ readable ((sinceClear history).filterMap Request.text?)
            · rw [readable_snoc_of_mem listed]
              exact Nat.le_succ _
            · rw [readable_snoc_of_new listed outcome, List.length_append]
              exact Nat.le_refl _

theorem mem_wanted_snoc (asked : request.text? = some text) (read : Rule.parse text = .ok rule) :
    text ∈ wanted (history ++ [request]) := by
  rw [wanted_snoc_of_text? asked, mem_readable_iff]
  exact ⟨List.mem_append_right _ (List.mem_singleton.2 rfl), rule, read⟩

/-- After every history the cache holds the first of the texts that were looked up
since it was cleared and can be read, up to its capacity, each with its rule. A
request that looks up no such text leaves the engine as it is; one that does leaves
the text in the cache if there is room, whatever comes of the evaluation. -/
theorem cache_of_history (settings : Settings) (history : List Request) :
    (∀ text, (∃ rule, (after settings history).cache.find? text = some rule) ↔
        text ∈ (wanted history).take settings.cacheCapacity) ∧
      (∀ text rule, (after settings history).cache.find? text = some rule →
        Rule.parse text = .ok rule) ∧
      (after settings history).cache.size =
        min settings.cacheCapacity (wanted history).length ∧
      (∀ request, request.clears = false →
        (∀ text rule, request.text? = some text → Rule.parse text ≠ .ok rule) →
        ((after settings history).answer request).2 = after settings history) ∧
      ∀ request text rule, request.text? = some text → Rule.parse text = .ok rule →
        (wanted history).length < settings.cacheCapacity →
        ((after settings history).answer request).2.cache.find? text = some rule := by
  have keeps := keeps_after settings history
  have capacity := capacity_after settings history
  refine ⟨?_, keeps.faithful, ?_, ?_, ?_⟩
  · intro text
    simp only [keeps.find?_eq_some_iff, capacity, exists_and_left]
    constructor
    · exact And.left
    · intro listed
      exact ⟨listed, (mem_readable_iff.1 (List.mem_of_mem_take listed)).2⟩
  · rw [keeps.size_eq, capacity]
  · intro request stays refused
    cases asked : request.text? with
    | none => exact answer_of_silent asked stays
    | some text =>
        rw [answer_of_text? asked, keeps.fetch_of_refused (refused text · asked)]
  · intro request text rule asked read room
    have next := keeps_answer keeps request
    have few := length_wanted_snoc_le history request
    rw [next.find?_eq_some_iff, capacity_answer, capacity, List.take_of_length_le (by omega)]
    exact ⟨mem_wanted_snoc asked read, read⟩

example : wanted [.fetch "a", .clear, .check "b" ∅, .fetch "and", .fetch "c > 1",
    .evaluateText "b" ∅, .parse "d"] = ["b", "c > 1"] := by decide +kernel

end Criteria.Engine
