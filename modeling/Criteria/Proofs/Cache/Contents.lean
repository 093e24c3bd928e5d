/-
# Criteria.Proofs.Cache.Contents -- what a cache holds after a request

A request finds its text in the cache, or reads it and is refused, or reads it
and keeps it (`fetch_cases`); what a cache holds is followed through these three.

A cache is `Faithful` when it holds every text with the rule that reading it
anew would give. Then it makes no difference to an answer whether a text is
found or not (`Faithful.fetch_fst`, `Faithful.check_fst`). `Keeps` says exactly
which texts are held: the first ones of a list, as many as there is room for. A
text that can be read and is new joins the list, even if there is no room left
for it (`Keeps.fetch_of_new`), and any other text changes nothing.
-/
import Criteria.Cache

namespace Criteria.Cache

set_option autoImplicit false

variable {cache : Cache} {texts : List String} {text : String} {rule : Rule}

/-! ## One request -/

theorem find?_empty (capacity : Nat) (text : String) : (empty capacity).find? text = none :=
  Std.ExtTreeMap.getElem?_empty

theorem keep_of_room (room : cache.size < cache.capacity) (text : String) (rule : Rule) :
    cache.keep text rule = { cache with entries := cache.entries.insert text rule } :=
  if_pos room

theorem keep_of_full (full : cache.capacity ≤ cache.size) (text : String) (rule : Rule) :
    cache.keep text rule = cache :=
  if_neg (Nat.not_lt.2 full)

theorem find?_keep_of_room (room : cache.size < cache.capacity) (text other : String)
    (rule : Rule) : (cache.keep text rule).find? other =
      if text = other then some rule else cache.find? other := by
  simp only [keep_of_room room, find?, Std.ExtTreeMap.getElem?_insert, Std.compare_eq_iff_eq]

theorem size_keep_of_room (room : cache.size < cache.capacity) (missing : cache.find? text = none)
    (rule : Rule) : (cache.keep text rule).size = cache.size + 1 := by
  have absent : text ∉ cache.entries := by
    intro present
    rw [Std.ExtTreeMap.mem_iff_isSome_getElem?] at present
    rw [find?] at missing
    simp [missing] at present
  rw [keep_of_room room, size, Std.ExtTreeMap.size_insert]
  exact if_neg absent

/-- Keeping a text once more, or the last one that there is room for, takes no more
room than there is. -/
theorem size_keep_le (within : cache.size ≤ cache.capacity) (text : String) (rule : Rule) :
    (cache.keep text rule).size ≤ cache.capacity := by
  by_cases room : cache.size < cache.capacity
  · rw [keep_of_room room]
    exact Nat.le_trans Std.ExtTreeMap.size_insert_le room
  · rw [keep_of_full (Nat.not_lt.1 room)]
    exact within

theorem fetch_cases (cache : Cache) (text : String) :
    (∃ rule, cache.find? text = some rule ∧ cache.fetch text = (.ok rule, cache)) ∨
    cache.find? text = none ∧
      ((∃ error, Rule.parse text = .error error ∧ cache.fetch text = (.error error, cache)) ∨
        ∃ rule, Rule.parse text = .ok rule ∧
          cache.fetch text = (.ok rule, cache.keep text rule)) := by
  cases found : cache.find? text with
  | some rule => exact .inl ⟨rule, rfl, by rw [fetch, found]⟩
  | none =>
      refine .inr ⟨rfl, ?_⟩
      cases outcome : Rule.parse text with
      | error error => exact .inl ⟨error, rfl, by rw [fetch, found, outcome]⟩
      | ok rule => exact .inr ⟨rule, rfl, by rw [fetch, found, outcome]⟩

theorem check_eq (cache : Cache) (text : String) (record : Record) : cache.check text record =
    ((cache.fetch text).1.bind (Rule.evaluate record), (cache.fetch text).2) := rfl

@[simp] theorem capacity_keep (cache : Cache) (text : String) (rule : Rule) :
    (cache.keep text rule).capacity = cache.capacity := by
  unfold keep
  split <;> rfl

@[simp] theorem capacity_fetch (cache : Cache) (text : String) :
    (cache.fetch text).2.capacity = cache.capacity := by
  rcases cache.fetch_cases text with ⟨rule, -, same⟩ | ⟨-, ⟨error, -, same⟩ | ⟨rule, -, same⟩⟩
  · rw [same]
  · rw [same]
  · rw [same, capacity_keep]

/-! ## Faithful caches -/

/-- Every text is held with the rule that it reads as. -/
def Faithful (cache : Cache) : Prop :=
  ∀ text rule, cache.find? text = some rule → Rule.parse text = .ok rule

theorem faithful_empty (capacity : Nat) : (empty capacity).Faithful := by
  intro text rule found
  rw [find?_empty] at found
  cases found

namespace Faithful

theorem keep (faithful : cache.Faithful) (read : Rule.parse text = .ok rule) :
    (cache.keep text rule).Faithful := by
  by_cases room : cache.size < cache.capacity
  · intro other held found
    rw [find?_keep_of_room room] at found
    split at found
    · rename_i same
      cases found
      rw [← same]
      exact read
    · exact faithful other held found
  · rw [keep_of_full (Nat.not_lt.1 room)]
    exact faithful

theorem fetch (faithful : cache.Faithful) (text : String) : (cache.fetch text).2.Faithful := by
  rcases cache.fetch_cases text with ⟨rule, -, same⟩ | ⟨-, ⟨error, -, same⟩ | ⟨rule, read, same⟩⟩
  · rw [same]
    exact faithful
  · rw [same]
    exact faithful
  · rw [same]
    exact faithful.keep read

/-- The answer is the one that reading anew would give. -/
theorem fetch_fst (faithful : cache.Faithful) (text : String) :
    (cache.fetch text).1 = Rule.parse text := by
  rcases cache.fetch_cases text with
    ⟨rule, found, same⟩ | ⟨-, ⟨error, refused, same⟩ | ⟨rule, read, same⟩⟩
  · rw [same, faithful text rule found]
  · rw [same, refused]
  · rw [same, read]

theorem check_fst (faithful : cache.Faithful) (text : String) (record : Record) :
    (cache.check text record).1 = (Rule.parse text).bind (Rule.evaluate record) := by
  rw [check_eq, faithful.fetch_fst]

end Faithful

/-! ## Which texts are held -/

/-- Of these texts the first are held, each with its rule, and no others. -/
structure Keeps (cache : Cache) (texts : List String) : Prop where
  find?_eq_some_iff : ∀ text rule, cache.find? text = some rule ↔
    text ∈ texts.take cache.capacity ∧ Rule.parse text = .ok rule
  size_eq : cache.size = min cache.capacity texts.length

theorem keeps_empty (capacity : Nat) : (empty capacity).Keeps [] where
  find?_eq_some_iff text rule := by simp [find?_empty]
  size_eq := by
    rw [List.length_nil, Nat.min_zero]
    exact Std.ExtTreeMap.size_empty

namespace Keeps

theorem faithful (keeps : cache.Keeps texts) : cache.Faithful := by
  intro text rule found
  exact ((keeps.find?_eq_some_iff text rule).1 found).2

/-- A text that is missing but was read before came when the cache was full. -/
theorem full_of_missing (keeps : cache.Keeps texts) (listed : text ∈ texts)
    (missing : cache.find? text = none) (read : Rule.parse text = .ok rule) :
    cache.capacity ≤ cache.size := by
  rw [keeps.size_eq]
  refine Nat.le_min.2 ⟨Nat.le_refl _, Nat.le_of_not_lt ?_⟩
  intro room
  have found : cache.find? text = some rule := by
    rw [keeps.find?_eq_some_iff, List.take_of_length_le (Nat.le_of_lt room)]
    exact ⟨listed, read⟩
  rw [missing] at found
  cases found

theorem fetch_of_mem (keeps : cache.Keeps texts) (listed : text ∈ texts) :
    (cache.fetch text).2 = cache := by
  rcases cache.fetch_cases text with
    ⟨rule, -, same⟩ | ⟨missing, ⟨error, -, same⟩ | ⟨rule, read, same⟩⟩
  · rw [same]
  · rw [same]
  · rw [same, keep_of_full (keeps.full_of_missing listed missing read)]

theorem fetch_of_refused (keeps : cache.Keeps texts)
    (refused : ∀ rule, Rule.parse text ≠ .ok rule) : (cache.fetch text).2 = cache := by
  rcases cache.fetch_cases text with
    ⟨rule, found, -⟩ | ⟨-, ⟨error, -, same⟩ | ⟨rule, read, -⟩⟩
  · exact absurd (keeps.faithful text rule found) (refused rule)
  · rw [same]
  · exact absurd read (refused rule)

theorem find?_of_new (keeps : cache.Keeps texts) (new : text ∉ texts) :
    cache.find? text = none := by
  cases found : cache.find? text with
  | none => rfl
  | some rule =>
      have listed := ((keeps.find?_eq_some_iff text rule).1 found).1
      exact absurd (List.mem_of_mem_take listed) new

/-- As long as there is room, a new text is held as well. -/
theorem keep_of_room (keeps : cache.Keeps texts) (room : texts.length < cache.capacity)
    (new : text ∉ texts) (read : Rule.parse text = .ok rule) :
    (cache.keep text rule).Keeps (texts ++ [text]) := by
  have all := List.take_of_length_le (Nat.le_of_lt room)
  have allAndOne : (texts ++ [text]).take cache.capacity = texts ++ [text] := by
    apply List.take_of_length_le
    rw [List.length_append]
    exact room
  have size : cache.size = texts.length := by
    rw [keeps.size_eq, Nat.min_eq_right (Nat.le_of_lt room)]
  have room' : cache.size < cache.capacity := by rw [size]; exact room
  refine ⟨?_, ?_⟩
  · intro other held
    rw [find?_keep_of_room room', capacity_keep, allAndOne, List.mem_append, List.mem_singleton]
    split
    · rename_i same
      subst same
      simp [read]
    · rename_i others
      rw [keeps.find?_eq_some_iff, all]
      simp [Ne.symm others]
  · rw [capacity_keep, size_keep_of_room room' (keeps.find?_of_new new), size,
      List.length_append, List.length_singleton, Nat.min_eq_right room]

/-- A full cache holds what it held. -/
theorem append_of_full (keeps : cache.Keeps texts) (full : cache.capacity ≤ texts.length)
    (text : String) : cache.Keeps (texts ++ [text]) where
  find?_eq_some_iff other held := by
    rw [List.take_append_of_le_length full]
    exact keeps.find?_eq_some_iff other held
  size_eq := by
    rw [keeps.size_eq, List.length_append]
    omega

theorem fetch_of_new (keeps : cache.Keeps texts) (new : text ∉ texts)
    (read : Rule.parse text = .ok rule) : (cache.fetch text).2.Keeps (texts ++ [text]) := by
  have fetched : (cache.fetch text).2 = cache.keep text rule := by
    rw [fetch, keeps.find?_of_new new, read]
  rw [fetched]
  by_cases room : texts.length < cache.capacity
  · exact keeps.keep_of_room room new read
  · have full := Nat.not_lt.1 room
    have fullNow : cache.capacity ≤ cache.size := by
      rw [keeps.size_eq]
      exact Nat.le_min.2 ⟨Nat.le_refl _, full⟩
    rw [Cache.keep_of_full fullNow]
    exact keeps.append_of_full full text

end Keeps

end Criteria.Cache
