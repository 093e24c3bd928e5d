/-
# Criteria.Proofs.Json.Members -- what a text says, and its members by name

`Means` is the meaning of a whole text without a reader: some term is written
there that nests at most `maxDepth` levels and has a value. `Value.parse?` finds
just that (`Value.parse?_eq_some_iff`).

Of an object only the last member of each name is looked at. `lastValue?` says
which value that is by going through the members as they are written, and the
map of the last members answers the same (`getElem?_lastMembers`).
-/
import Criteria.Json.Value
import Criteria.Proofs.Json.Soundness

namespace Criteria.Json

set_option autoImplicit false

/-! ## Values of texts -/

/-- The text is JSON within the limits and stands for the value. -/
def Means (text : String) (value : Value) : Prop :=
  ∃ term, Writes text term ∧ term.depth ≤ maxDepth ∧ Value.ofTerm? term = some value

theorem Value.parse?_eq_some_iff {text : String} {value : Value} :
    parse? text = some value ↔ Means text value := by
  simp only [parse?, Means, Option.bind_eq_bind, Option.bind_eq_some_iff, Term.parse?_eq_some_iff,
    Option.ite_none_right_eq_some]

theorem Value.parse?_eq_none_iff {text : String} :
    parse? text = none ↔ ∀ value, ¬ Means text value := by
  simp only [Option.eq_none_iff_forall_ne_some, ne_eq, parse?_eq_some_iff]

theorem Value.ofMembers?_cons_eq_some_iff {pieces : List Piece} {term : Term}
    {members : List (List Piece × Term)} {values : List (String × Value)} :
    ofMembers? ((pieces, term) :: members) = some values ↔
      ∃ name value others, Piece.text? pieces = some name ∧ ofTerm? term = some value ∧
        ofMembers? members = some others ∧ values = (name, value) :: others := by
  simp only [ofMembers?, Option.bind_eq_bind, Option.bind_eq_some_iff, Option.some.injEq]
  constructor
  · rintro ⟨name, here, value, said, others, later, rfl⟩
    exact ⟨name, value, others, here, said, later, rfl⟩
  · rintro ⟨name, value, others, here, said, later, rfl⟩
    exact ⟨name, here, value, said, others, later, rfl⟩

/-- Only an object stands for members. -/
theorem Value.eq_object_of_ofTerm? {term : Term} {values : List (String × Value)}
    (said : ofTerm? term = some (.object values)) :
    ∃ members, term = .object members ∧ ofMembers? members = some values := by
  cases term with
  | object members =>
      simp only [ofTerm?, Option.map_eq_some_iff, object.injEq, exists_eq_right] at said
      exact ⟨members, rfl, said⟩
  | number numeral =>
      simp only [ofTerm?, ofNumeral?] at said
      split at said
      · cases said
      · split at said <;> cases said
  | _ => simp [ofTerm?] at said

/-! ## Members by name -/

variable {α : Type} {members members' : List (String × α)}

/-- The value of the last member of a name. -/
def lastValue? (members : List (String × α)) (name : String) : Option α :=
  (members.filter fun member => member.1 = name).getLast?.map Prod.snd

theorem lastValue?_cons (member : String × α) (members : List (String × α)) (name : String) :
    lastValue? (member :: members) name =
      (lastValue? members name).or (if member.1 = name then some member.2 else none) := by
  simp only [lastValue?, List.filter_cons]
  split
  · rename_i same
    simp only [decide_eq_true_eq] at same
    rw [List.getLast?_cons, if_pos same]
    cases (members.filter fun member => member.1 = name).getLast? <;> rfl
  · rename_i other
    simp only [decide_eq_true_eq] at other
    rw [if_neg other, Option.or_none]

theorem lastValue?_append (members members' : List (String × α)) (name : String) :
    lastValue? (members ++ members') name =
      (lastValue? members' name).or (lastValue? members name) := by
  simp only [lastValue?, List.filter_append, List.getLast?_append, Option.map_or]

theorem mem_of_lastValue? {name : String} {value : α}
    (found : lastValue? members name = some value) : (name, value) ∈ members := by
  obtain ⟨⟨name', value'⟩, last, rfl⟩ := Option.map_eq_some_iff.1 found
  obtain ⟨inside, same⟩ := List.mem_filter.1 (List.mem_of_getLast? last)
  simp only [decide_eq_true_eq] at same
  exact same ▸ inside

/-- Where no name occurs twice every member is the last of its name. -/
theorem lastValue?_eq_some_iff {name : String} {value : α}
    (distinct : (members.map Prod.fst).Nodup) :
    lastValue? members name = some value ↔ (name, value) ∈ members := by
  induction members generalizing value with
  | nil => simp [lastValue?]
  | cons member members ih =>
      obtain ⟨new, others⟩ := List.nodup_cons.1 distinct
      obtain ⟨name', value'⟩ := member
      rw [lastValue?_cons, List.mem_cons, ← ih others, Prod.mk.injEq]
      by_cases same : name' = name
      · subst same
        have none : lastValue? members name' = none := by
          rw [Option.eq_none_iff_forall_ne_some]
          intro other found
          exact new (List.mem_map.2 ⟨(name', other), (ih others).1 found, rfl⟩)
        simp [none, eq_comm]
      · simp [same, Ne.symm same]

theorem getElem?_lastMembers (members : List (String × α)) (name : String) :
    (lastMembers members)[name]? = lastValue? members name := by
  suffices fold : ∀ map : Std.ExtTreeMap String α,
      (members.foldl (fun map member => map.insert member.1 member.2) map)[name]? =
        (lastValue? members name).or map[name]? by
    rw [lastMembers, fold, Std.ExtTreeMap.getElem?_empty, Option.or_none]
  induction members with
  | nil => intro map; rfl
  | cons member members ih =>
      intro map
      rw [List.foldl_cons, ih, lastValue?_cons, Option.or_assoc]
      simp only [Std.ExtTreeMap.getElem?_insert, Std.compare_eq_iff_eq]
      split <;> rfl

/-- The map does not depend on the order of members with different names. -/
theorem lastMembers_congr
    (same : ∀ name, (members.filter fun member => member.1 = name) =
      members'.filter fun member => member.1 = name) :
    lastMembers members = lastMembers members' := by
  apply Std.ExtTreeMap.ext_getElem?
  intro name
  rw [getElem?_lastMembers, getElem?_lastMembers, lastValue?, lastValue?, same name]

end Criteria.Json
