/-
# Criteria.Proofs.Engine.Payload -- what becomes of a payload

`Payload.Reads` gives the five outcomes of a payload text by what the text
means, not by how it is read. Every text has one of them, and it is the one that
`Payload.parse` finds (`Payload.parse_eq_iff`). What an engine makes of a
payload follows: it answers an outcome that is an error with that error and
stays as it is, and otherwise evaluates the rule text for the other members
(`evaluatePayload_law`).
-/
import Criteria.Proofs.Attribute.Writing
import Criteria.Proofs.Engine.Replies

namespace Criteria

set_option autoImplicit false

open Json (Means lastValue? lastMembers)

namespace Payload

variable {members : List (String × Json.Value)} {text : String}

/-- The name is that of a member besides the rule whose value is no attribute. -/
def Unfit (members : List (String × Json.Value)) (name : String) : Prop :=
  name ≠ ruleField ∧
    ∃ value, lastValue? members name = some value ∧ ∀ a, ¬ Attribute.Denotes value a

/-- What a payload text comes to. -/
inductive Reads (text : String) : Except Error Payload → Prop
  | unreadable (fails : ∀ value, ¬ Means text value) : Reads text (.error .unreadable)
  | notObject {value : Json.Value} (means : Means text value)
      (other : ∀ members, value ≠ .object members) : Reads text (.error .payloadNotObject)
  | withoutRule {members : List (String × Json.Value)} (means : Means text (.object members))
      (absent : ∀ rule, lastValue? members ruleField ≠ some (.string rule)) :
      Reads text (.error .payloadWithoutRule)
  | invalid {members : List (String × Json.Value)} {rule name : String}
      (means : Means text (.object members))
      (present : lastValue? members ruleField = some (.string rule)) (unfit : Unfit members name)
      (first : ∀ other, Unfit members other → Text.bytes name ≤ Text.bytes other) :
      Reads text (.error (.invalidAttribute name))
  | read {members : List (String × Json.Value)} {rule : String} {record : Record}
      (means : Means text (.object members))
      (present : lastValue? members ruleField = some (.string rule))
      (fit : ∀ name, ¬ Unfit members name)
      (holds : ∀ (name : String) (a : Attribute), record[name]? = some a ↔
        name ≠ ruleField ∧
          ∃ value, lastValue? members name = some value ∧ Attribute.Denotes value a) :
      Reads text (.ok ⟨rule, record⟩)

/-! ## The members besides the rule -/

theorem getElem?_erase_eq_some_iff {name : String} {value : Json.Value} :
    ((lastMembers members).erase ruleField)[name]? = some value ↔
      name ≠ ruleField ∧ lastValue? members name = some value := by
  rw [← Json.getElem?_lastMembers]
  simp only [Std.ExtTreeMap.getElem?_erase, Std.compare_eq_iff_eq]
  split
  · simp_all
  · rename_i other
    simp [Ne.symm other]

theorem unfit_iff {name : String} :
    Record.Unfit ((lastMembers members).erase ruleField) name ↔ Unfit members name := by
  simp only [Record.Unfit, getElem?_erase_eq_some_iff, Unfit, and_assoc, exists_and_left]

theorem parse_of_object {rule : String} (means : Means text (.object members))
    (present : lastValue? members ruleField = some (.string rule)) :
    parse text = (Record.ofMembers ((lastMembers members).erase ruleField)).map (Payload.mk rule) := by
  rw [parse, Json.Value.parse?_eq_some_iff.2 means]
  show ofMembers (lastMembers members) = _
  rw [ofMembers, Json.getElem?_lastMembers, present]
  cases Record.ofMembers ((lastMembers members).erase ruleField) <;> rfl

/-- Which of the values that are found by name the record holds. -/
theorem holds_iff {record : Record} :
    (∀ (name : String) (a : Attribute), record[name]? = some a ↔
      ∃ value, ((lastMembers members).erase ruleField)[name]? = some value ∧
        Attribute.Denotes value a) ↔
      ∀ (name : String) (a : Attribute), record[name]? = some a ↔ name ≠ ruleField ∧
        ∃ value, lastValue? members name = some value ∧ Attribute.Denotes value a := by
  simp only [getElem?_erase_eq_some_iff, and_assoc, exists_and_left]

/-! ## Outcomes -/

theorem exists_reads (text : String) : ∃ outcome, Reads text outcome := by
  cases said : Json.Value.parse? text with
  | none => exact ⟨_, .unreadable (Json.Value.parse?_eq_none_iff.1 said)⟩
  | some value =>
      have means := Json.Value.parse?_eq_some_iff.1 said
      by_cases object : ∃ members, value = .object members
      · obtain ⟨members, rfl⟩ := object
        by_cases present : ∃ rule, lastValue? members ruleField = some (.string rule)
        · obtain ⟨rule, present⟩ := present
          cases outcome : Record.ofMembers ((lastMembers members).erase ruleField) with
          | error error =>
              obtain ⟨name, ⟨unfit, first⟩, -⟩ := Record.ofMembers_eq_error_iff.1 outcome
              exact ⟨_, .invalid means present (unfit_iff.1 unfit)
                fun other bad => first other (unfit_iff.2 bad)⟩
          | ok record =>
              obtain ⟨fit, holds⟩ := Record.ofMembers_eq_ok_iff.1 outcome
              exact ⟨_, .read means present (fun name bad => fit name (unfit_iff.2 bad))
                (holds_iff.1 holds)⟩
        · exact ⟨_, .withoutRule means (not_exists.1 present)⟩
      · exact ⟨_, .notObject means (not_exists.1 object)⟩

theorem Reads.parse_eq {outcome : Except Error Payload} (reads : Reads text outcome) :
    parse text = outcome := by
  cases reads with
  | unreadable fails => rw [parse, Json.Value.parse?_eq_none_iff.2 fails]
  | @notObject value means other =>
      rw [parse, Json.Value.parse?_eq_some_iff.2 means]
      cases value with
      | object members => exact absurd rfl (other members)
      | _ => rfl
  | @withoutRule members means absent =>
      rw [parse, Json.Value.parse?_eq_some_iff.2 means]
      show ofMembers (lastMembers members) = _
      rw [ofMembers, Json.getElem?_lastMembers]
      split
      · rename_i rule present
        exact absurd present (absent rule)
      · rfl
  | @invalid members rule name means present unfit first =>
      have refused := Record.ofMembers_eq_error_iff.2
        ⟨name, ⟨unfit_iff.2 unfit, fun other bad => first other (unfit_iff.1 bad)⟩, rfl⟩
      rw [parse_of_object means present, refused]
      rfl
  | @read members rule record means present fit holds =>
      have made := Record.ofMembers_eq_ok_iff.2
        ⟨fun name bad => fit name (unfit_iff.1 bad), holds_iff.2 holds⟩
      rw [parse_of_object means present, made]
      rfl

theorem parse_eq_iff {outcome : Except Error Payload} :
    parse text = outcome ↔ Reads text outcome := by
  constructor
  · rintro rfl
    obtain ⟨outcome, reads⟩ := exists_reads text
    exact reads.parse_eq.symm ▸ reads
  · exact Reads.parse_eq

/-- Members of different names may be written in any order. -/
theorem parse_congr {text' : String} {members' : List (String × Json.Value)}
    (means : Means text (.object members)) (means' : Means text' (.object members'))
    (same : ∀ name, (members.filter fun member => member.1 = name) =
      members'.filter fun member => member.1 = name) : parse text = parse text' := by
  rw [parse, parse, Json.Value.parse?_eq_some_iff.2 means, Json.Value.parse?_eq_some_iff.2 means']
  show ofMembers (lastMembers members) = ofMembers (lastMembers members')
  rw [Json.lastMembers_congr same]

/-! ## Writing a payload -/

variable {rule : String} {record : Record} {written : List (String × Attribute)}

theorem nodup_names (free : ruleField ∉ record)
    (same : written.Perm ((ruleField, .text rule) :: record.toList)) :
    ((valuesOf written).map Prod.fst).Nodup := by
  have names : (valuesOf written).map Prod.fst = written.map Prod.fst := by simp [valuesOf]
  rw [names, (same.map Prod.fst).nodup_iff, List.map_cons, Std.ExtTreeMap.map_fst_toList_eq_keys]
  exact List.nodup_cons.2 ⟨fun mem => free (Std.ExtTreeMap.mem_keys.1 mem),
    Std.ExtTreeMap.nodup_keys⟩

/-- The rule is found under its own name, an attribute under the name that it has
in the record. -/
theorem lastValue?_written (free : ruleField ∉ record)
    (same : written.Perm ((ruleField, .text rule) :: record.toList)) {name : String}
    {value : Json.Value} : lastValue? (valuesOf written) name = some value ↔
      ∃ a : Attribute, (name = ruleField ∧ a = .text rule ∨ record[name]? = some a) ∧
        a.toValue = value := by
  have mem : ∀ a : Attribute, (name, a) ∈ written ↔
      name = ruleField ∧ a = .text rule ∨ record[name]? = some a := by
    intro a
    rw [same.mem_iff, List.mem_cons, Prod.mk.injEq,
      Std.ExtTreeMap.mem_toList_iff_getElem?_eq_some]
  rw [Json.lastValue?_eq_some_iff (nodup_names free same)]
  simp only [valuesOf, List.mem_map, Prod.exists, Prod.mk.injEq, ← mem]
  constructor
  · rintro ⟨_, a, inside, rfl, rfl⟩
    exact ⟨a, inside, rfl⟩
  · rintro ⟨a, inside, rfl⟩
    exact ⟨name, a, inside, rfl, rfl⟩

theorem parse_objectText (free : ruleField ∉ record)
    (same : written.Perm ((ruleField, .text rule) :: record.toList)) :
    parse (objectText written) = .ok ⟨rule, record⟩ := by
  apply parse_eq_iff.2
  refine .read (means_objectText written) ?_ ?_ ?_
  · exact (lastValue?_written free same).2 ⟨.text rule, .inl ⟨rfl, rfl⟩, rfl⟩
  · rintro name ⟨-, value, found, nothing⟩
    obtain ⟨a, -, rfl⟩ := (lastValue?_written free same).1 found
    exact nothing a (Attribute.denotes_toValue_iff.2 rfl)
  · intro name a
    constructor
    · intro held
      have other : name ≠ ruleField := by
        rintro rfl
        exact free (Std.ExtTreeMap.mem_iff_isSome_getElem?.2 (held ▸ rfl))
      exact ⟨other, a.toValue, (lastValue?_written free same).2 ⟨a, .inr held, rfl⟩,
        Attribute.denotes_toValue_iff.2 rfl⟩
    · rintro ⟨other, value, found, denotes⟩
      obtain ⟨b, place, rfl⟩ := (lastValue?_written free same).1 found
      rw [Attribute.denotes_toValue_iff] at denotes
      subst denotes
      exact place.resolve_left fun rule => other rule.1

end Payload

namespace Engine

/-- Every payload text has exactly one outcome. An error leaves the engine as it
was; a rule and a record are evaluated just as if they had been given apart.
Members of different names may change places. A number is an integer attribute
only by how it is written: without a point or an exponent, not as minus zero,
and with the value of a 32-bit word. Writing any rule text and any record that
leaves the name of the rule free, in any order, evaluates them. -/
theorem evaluatePayload_law (engine : Engine) :
    (∀ text, ∃ outcome, Payload.Reads text outcome ∧
      ∀ other, Payload.Reads text other → other = outcome) ∧
    (∀ text error, Payload.Reads text (.error error) →
      engine.evaluatePayload text = (.error error, engine)) ∧
    (∀ text rule record, Payload.Reads text (.ok ⟨rule, record⟩) →
      engine.evaluatePayload text = engine.evaluateText rule record) ∧
    (∀ text text' members members', Means text (.object members) → Means text' (.object members') →
      (∀ name, (members.filter fun member => member.1 = name) =
        members'.filter fun member => member.1 = name) →
      engine.evaluatePayload text = engine.evaluatePayload text') ∧
    (∀ (n : Json.Numeral) word, (∃ value, Json.Value.ofNumeral? n = some value ∧
        Attribute.Denotes value (.integer word)) ↔
      n.fraction = [] ∧ n.exponent? = none ∧ (n.negative → Decimal.value n.whole ≠ 0) ∧
        word.toInt = n.signed) ∧
    (∀ rule (record : Record) written, Payload.ruleField ∉ record →
      written.Perm ((Payload.ruleField, .text rule) :: record.toList) →
      engine.evaluatePayload (objectText written) = engine.evaluateText rule record) ∧
    Error.payloadNotObject.message? =
      some "Serialization error: evaluation payload must be a JSON object" ∧
    Error.payloadWithoutRule.message? =
      some "Serialization error: payload has no \"rule\" string" := by
  refine ⟨?_, ?_, ?_, ?_, ?_, ?_, rfl, rfl⟩
  · intro text
    refine ⟨Payload.parse text, Payload.parse_eq_iff.1 rfl, ?_⟩
    intro other reads
    exact (Payload.parse_eq_iff.2 reads).symm
  · intro text error reads
    exact evaluatePayload_of_error (Payload.parse_eq_iff.2 reads)
  · intro text rule record reads
    exact evaluatePayload_of_ok (Payload.parse_eq_iff.2 reads)
  · intro text text' members members' means means' same
    rw [evaluatePayload, evaluatePayload, Payload.parse_congr means means' same]
  · intro n word
    exact Attribute.denotes_ofNumeral?_iff
  · intro rule record written free same
    exact evaluatePayload_of_ok (Payload.parse_objectText free same)

/-- Names are compared as they are read, so that the second `b` counts. -/
example : ((ofSettings ⟨.and, 1⟩).evaluatePayload
    "\x7b\"b\":null,\"rule\":\"b > 1\",\"\\u0062\":2\x7d").1.toOption = some true := by
  decide +kernel

end Engine

end Criteria
