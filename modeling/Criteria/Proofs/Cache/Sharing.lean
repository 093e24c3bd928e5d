/-
# Criteria.Proofs.Cache.Sharing -- one cache and any number of callers at once

A call takes two steps. First it looks its text up; if the text is missing it is
read, and a text without a reading is answered at once. Then, as a step of its
own, the rule is kept. Between the two anything may happen to the cache: the same
text may be kept by another call, the last place may be taken, or the cache may be
cleared. Only steps are atomic, so a run is any list of `Move`s, each a step of
some call, a new call, or a clearing.

`Safe` is what no move breaks (`Safe.step`): there is room for all that is held, all
that is held is faithful, and so is every rule that a call has in hand. What a
call has in hand was read from its own text and is not looked up again, so it does
not matter what has become of the cache meanwhile. No call waits for another: its
next two steps, whenever they come, bring it to its answer (`Safe.answered`).
-/
import Criteria.Proofs.Cache.Contents

namespace Criteria

set_option autoImplicit false

/-- How far a call has got. -/
inductive Progress where
  | asked
  /-- The text was missing and has been read. -/
  | holding (rule : Rule)
  | answered (outcome : Except Error Rule)

structure Call where
  text : String
  progress : Progress

/-- A cache and the calls made of it, in the order in which they came. -/
structure Shared where
  cache : Cache
  calls : List Call

inductive Move where
  | ask (text : String)
  /-- The call with this number takes its next step, if it has one. -/
  | advance (call : Nat)
  | clear
deriving DecidableEq

namespace Cache

/-- The next step of a call for a text, and the cache after it. -/
def advance (cache : Cache) (text : String) : Progress → Progress × Cache
  | .asked =>
      match cache.find? text with
      | some rule => (.answered (.ok rule), cache)
      | none =>
          match Rule.parse text with
          | .error error => (.answered (.error error), cache)
          | .ok rule => (.holding rule, cache)
  | .holding rule => (.answered (.ok rule), cache.keep text rule)
  | .answered outcome => (.answered outcome, cache)

end Cache

namespace Shared

def start (capacity : Nat) : Shared := ⟨.empty capacity, []⟩

def step (s : Shared) : Move → Shared
  | .ask text => { s with calls := s.calls ++ [⟨text, .asked⟩] }
  | .advance i =>
      match s.calls[i]? with
      | none => s
      | some call =>
          let (progress, cache) := s.cache.advance call.text call.progress
          ⟨cache, s.calls.set i { call with progress }⟩
  | .clear => { s with cache := s.cache.clear }

def run (s : Shared) (moves : List Move) : Shared := moves.foldl step s

end Shared

/-! ## One step of one call -/

/-- What a call has in hand is what its own text reads as. -/
def Call.Honest (call : Call) : Prop :=
  match call.progress with
  | .asked => True
  | .holding rule => Rule.parse call.text = .ok rule
  | .answered outcome => outcome = Rule.parse call.text

/-- How many steps a call has left at most. -/
def Progress.left : Progress → Nat
  | asked => 2
  | holding _ => 1
  | answered _ => 0

theorem Progress.left_le (progress : Progress) : progress.left ≤ 2 := by
  cases progress <;> simp [left]

namespace Cache

variable {cache : Cache} {text : String} {progress : Progress}

theorem advance_asked_cases (cache : Cache) (text : String) :
    (∃ rule, cache.find? text = some rule ∧
      cache.advance text .asked = (.answered (.ok rule), cache)) ∨
    (∃ error, cache.find? text = none ∧ Rule.parse text = .error error ∧
      cache.advance text .asked = (.answered (.error error), cache)) ∨
    ∃ rule, cache.find? text = none ∧ Rule.parse text = .ok rule ∧
      cache.advance text .asked = (.holding rule, cache) := by
  cases found : cache.find? text with
  | some rule => exact .inl ⟨rule, rfl, by rw [advance, found]⟩
  | none =>
      cases outcome : Rule.parse text with
      | error error => exact .inr (.inl ⟨error, rfl, rfl, by rw [advance, found, outcome]⟩)
      | ok rule => exact .inr (.inr ⟨rule, rfl, rfl, by rw [advance, found, outcome]⟩)

/-- The two steps of a call without a pause between them are a fetch. -/
theorem advance_advance (cache : Cache) (text : String) :
    (cache.advance text .asked).2.advance text (cache.advance text .asked).1 =
      (.answered (cache.fetch text).1, (cache.fetch text).2) := by
  rcases cache.advance_asked_cases text with
    ⟨rule, found, same⟩ | ⟨error, missing, refused, same⟩ | ⟨rule, missing, read, same⟩
  · rw [same, fetch, found]
    rfl
  · rw [same, fetch, missing, refused]
    rfl
  · rw [same, fetch, missing, read]
    rfl

/-- A step of a call leaves the cache alone, or keeps what the call has in hand. -/
theorem advance_snd (cache : Cache) (text : String) (progress : Progress) :
    (cache.advance text progress).2 = cache ∨ ∃ rule, progress = .holding rule ∧
      (cache.advance text progress).2 = cache.keep text rule := by
  cases progress with
  | asked =>
      rcases cache.advance_asked_cases text with ⟨_, -, same⟩ | ⟨_, -, -, same⟩ | ⟨_, -, -, same⟩
      all_goals exact .inl (by rw [same])
  | holding rule => exact .inr ⟨rule, rfl, rfl⟩
  | answered outcome => exact .inl rfl

theorem honest_advance (faithful : cache.Faithful) (honest : Call.Honest ⟨text, progress⟩) :
    Call.Honest ⟨text, (cache.advance text progress).1⟩ := by
  cases progress with
  | asked =>
      rcases cache.advance_asked_cases text with
        ⟨rule, found, same⟩ | ⟨error, -, refused, same⟩ | ⟨rule, -, read, same⟩
      · rw [same]
        exact (faithful text rule found).symm
      · rw [same]
        exact refused.symm
      · rw [same]
        exact read
  | holding rule => exact Eq.symm honest
  | answered outcome => exact honest

theorem left_advance (cache : Cache) (text : String) (progress : Progress) :
    (cache.advance text progress).1.left ≤ progress.left - 1 := by
  cases progress with
  | asked =>
      rcases cache.advance_asked_cases text with ⟨_, -, same⟩ | ⟨_, -, -, same⟩ | ⟨_, -, -, same⟩
      all_goals simp [same, Progress.left]
  | holding rule => exact Nat.le_refl 0
  | answered outcome => exact Nat.le_refl 0

end Cache

namespace Shared

variable {s : Shared} {capacity : Nat}

theorem step_advance {i : Nat} {call : Call} (found : s.calls[i]? = some call) :
    s.step (.advance i) = ⟨(s.cache.advance call.text call.progress).2,
      s.calls.set i { call with progress := (s.cache.advance call.text call.progress).1 }⟩ := by
  rw [step, found]

/-! ## What no move breaks -/

structure Safe (capacity : Nat) (s : Shared) : Prop where
  capacity_eq : s.cache.capacity = capacity
  within : s.cache.size ≤ s.cache.capacity
  faithful : s.cache.Faithful
  honest : ∀ call ∈ s.calls, call.Honest

theorem safe_start (capacity : Nat) : Safe capacity (start capacity) where
  capacity_eq := rfl
  within := Nat.zero_le _
  faithful := Cache.faithful_empty capacity
  honest := by simp [start]

/-- A call in hand of its own rule may put it into the cache as the cache now is. -/
theorem Safe.advance (safe : Safe capacity s) {i : Nat} {call : Call}
    (found : s.calls[i]? = some call) : Safe capacity (s.step (.advance i)) := by
  have honest := safe.honest call (List.mem_of_getElem? found)
  have calls : ∀ other ∈ (s.step (.advance i)).calls, other.Honest := by
    intro other member
    rw [step_advance found] at member
    rcases List.mem_or_eq_of_mem_set member with before | rfl
    · exact safe.honest other before
    · exact Cache.honest_advance safe.faithful honest
  rcases s.cache.advance_snd call.text call.progress with same | ⟨rule, holding, same⟩
  · have cache : (s.step (.advance i)).cache = s.cache := by rw [step_advance found, same]
    refine ⟨?_, ?_, ?_, calls⟩
    · rw [cache]; exact safe.capacity_eq
    · rw [cache]; exact safe.within
    · rw [cache]; exact safe.faithful
  · have cache : (s.step (.advance i)).cache = s.cache.keep call.text rule := by
      rw [step_advance found, same]
    have read : Rule.parse call.text = .ok rule := by
      rw [Call.Honest, holding] at honest
      exact honest
    refine ⟨?_, ?_, ?_, calls⟩
    · rw [cache, Cache.capacity_keep]; exact safe.capacity_eq
    · rw [cache, Cache.capacity_keep]; exact Cache.size_keep_le safe.within _ _
    · rw [cache]; exact safe.faithful.keep read

theorem Safe.step (safe : Safe capacity s) (move : Move) : Safe capacity (s.step move) := by
  cases move with
  | ask text =>
      refine ⟨safe.capacity_eq, safe.within, safe.faithful, ?_⟩
      intro call member
      rcases List.mem_append.1 member with before | new
      · exact safe.honest call before
      · rw [List.mem_singleton.1 new]
        trivial
  | advance i =>
      cases found : s.calls[i]? with
      | none =>
          rw [Shared.step, found]
          exact safe
      | some call => exact safe.advance found
  | clear => exact ⟨safe.capacity_eq, Nat.zero_le _, Cache.faithful_empty _, safe.honest⟩

theorem Safe.run (safe : Safe capacity s) (moves : List Move) : Safe capacity (s.run moves) := by
  induction moves generalizing s with
  | nil => exact safe
  | cons move moves ih => exact ih (safe.step move)

/-! ## Calls run to their end -/

def Move.text? : Move → Option String
  | .ask text => some text
  | .advance _ => none
  | .clear => none

theorem texts_step (s : Shared) (move : Move) :
    (s.step move).calls.map Call.text = s.calls.map Call.text ++ (Move.text? move).toList := by
  cases move with
  | ask text => simp [step, Move.text?]
  | advance i =>
      cases found : s.calls[i]? with
      | none => simp [step, found, Move.text?]
      | some call =>
          -- the call that takes a step keeps its text, so nothing is set anew
          obtain ⟨low, rfl⟩ := List.getElem?_eq_some_iff.1 found
          rw [step_advance found, Move.text?, Option.toList_none, List.append_nil, List.map_set]
          show (s.calls.map Call.text).set i (s.calls[i].text) = s.calls.map Call.text
          rw [← List.map_set, List.set_getElem_self]
  | clear => simp [step, Move.text?]

theorem texts_run (s : Shared) (moves : List Move) :
    (s.run moves).calls.map Call.text = s.calls.map Call.text ++ moves.filterMap Move.text? := by
  induction moves generalizing s with
  | nil => simp [run]
  | cons move moves ih =>
      rw [run, List.foldl_cons, ← run, ih, texts_step, List.filterMap_cons]
      cases Move.text? move <;> simp

/-- A move brings one call nearer to its answer and no call back. -/
theorem exists_call_step {i : Nat} {call : Call} (found : s.calls[i]? = some call) (move : Move) :
    ∃ next, (s.step move).calls[i]? = some next ∧ next.text = call.text ∧
      next.progress.left ≤ call.progress.left - [move].count (.advance i) := by
  cases move with
  | ask text =>
      have low := (List.getElem?_eq_some_iff.1 found).1
      exact ⟨call, by rw [step, List.getElem?_append_left low, found], rfl, by simp⟩
  | clear => exact ⟨call, found, rfl, by simp⟩
  | advance j =>
      by_cases same : j = i
      · subst same
        have low := (List.getElem?_eq_some_iff.1 found).1
        refine ⟨{ call with progress := (s.cache.advance call.text call.progress).1 }, ?_, rfl, ?_⟩
        · rw [step_advance found, List.getElem?_set_self low]
        · simpa using s.cache.left_advance call.text call.progress
      · refine ⟨call, ?_, rfl, by simp [same]⟩
        cases other : s.calls[j]? with
        | none => rw [step, other, found]
        | some _ => rw [step_advance other, List.getElem?_set_ne same, found]

theorem exists_call_run {i : Nat} {call : Call} (found : s.calls[i]? = some call)
    (moves : List Move) :
    ∃ next, (s.run moves).calls[i]? = some next ∧ next.text = call.text ∧
      next.progress.left ≤ call.progress.left - moves.count (.advance i) := by
  induction moves generalizing s call with
  | nil => exact ⟨call, found, rfl, by simp⟩
  | cons move moves ih =>
      obtain ⟨next, foundNext, sameNext, leftNext⟩ := exists_call_step found move
      obtain ⟨last, foundLast, sameLast, leftLast⟩ := ih foundNext
      refine ⟨last, foundLast, sameLast.trans sameNext, ?_⟩
      have counted : (move :: moves).count (.advance i) =
          [move].count (.advance i) + moves.count (.advance i) := by
        rw [← List.count_append]
        rfl
      omega

/-- Two more steps of a call answer it, whatever other moves come between. -/
theorem Safe.answered (safe : Safe capacity s) {i : Nat} {call : Call}
    (found : s.calls[i]? = some call) {moves : List Move}
    (steps : 2 ≤ moves.count (.advance i)) :
    (s.run moves).calls[i]? = some ⟨call.text, .answered (Rule.parse call.text)⟩ := by
  obtain ⟨⟨text, progress⟩, foundLast, rfl, left⟩ := exists_call_run found moves
  have honest : Call.Honest ⟨call.text, progress⟩ :=
    (safe.run moves).honest _ (List.mem_of_getElem? foundLast)
  have none : progress.left = 0 := by
    have most := call.progress.left_le
    simp only at left
    omega
  cases progress with
  | asked => cases none
  | holding rule => cases none
  | answered outcome =>
      obtain rfl : outcome = Rule.parse call.text := honest
      exact foundLast

/-- Whatever order the steps of any number of calls and any clearings come in: the
cache holds no more than it may, every text with its rule; nothing but the rule of
its own text is ever answered to a call; and a call is answered as soon as it has
taken two steps. -/
theorem run_safe (capacity : Nat) (moves : List Move) :
    ((start capacity).run moves).cache.size ≤ capacity ∧
    (∀ text rule, ((start capacity).run moves).cache.find? text = some rule →
      Rule.parse text = .ok rule) ∧
    ((start capacity).run moves).calls.map Call.text = moves.filterMap Move.text? ∧
    (∀ call ∈ ((start capacity).run moves).calls, ∀ outcome,
      call.progress = .answered outcome → outcome = Rule.parse call.text) ∧
    (∀ (i : Nat) call, ((start capacity).run moves).calls[i]? = some call → ∀ more : List Move,
      2 ≤ more.count (.advance i) → (((start capacity).run moves).run more).calls[i]? =
        some ⟨call.text, .answered (Rule.parse call.text)⟩) ∧
    ∀ (cache : Cache) text,
      (cache.advance text .asked).2.advance text (cache.advance text .asked).1 =
        (.answered (cache.fetch text).1, (cache.fetch text).2) := by
  have safe := (safe_start capacity).run moves
  refine ⟨?_, safe.faithful, ?_, ?_, ?_, Cache.advance_advance⟩
  · exact Nat.le_trans safe.within (Nat.le_of_eq safe.capacity_eq)
  · exact texts_run (start capacity) moves
  · intro call member outcome answered
    have honest := safe.honest call member
    rw [Call.Honest, answered] at honest
    exact honest
  · intro i call found more steps
    exact safe.answered found steps

/-- Two calls for one text, both of which miss it, race for the only place, which is
cleared between them. -/
example :
    let s := (start 1).run
      [.ask "a", .ask "a", .advance 0, .advance 1, .advance 0, .clear, .advance 1]
    s.cache.size = 1 ∧ s.cache.find? "a" = some (.leaf 1 "a") := by
  decide +kernel

end Shared

end Criteria
