/-
# Criteria.Proofs.Attribute.Readings -- two ways to read a record

A record can be read from its text in one go, each member as an attribute by how
it is written, or from the value that the text stands for. The first looks at
every member, the second at the last of each name. They take the same members for
the same attributes (`Attribute.ofTerm?_eq`), so the first way gives a record just
when the second does and no member is anything else than an attribute, not even
one that another member of its name replaces (`Record.ofText_eq_ok_iff`).
-/
import Criteria.Proofs.Attribute.Record
import Criteria.Proofs.Json.Fields
import Criteria.Proofs.Json.Members

namespace Criteria

set_option autoImplicit false

open Json (Means lastValue? lastMembers)

/-! ## Attributes -/

/-- How a member is written and what it stands for make the same attribute of it. -/
theorem Attribute.ofTerm?_eq (term : Json.Term) :
    ofTerm? term = (Json.Value.ofTerm? term).bind ofValue? := by
  cases term with
  | string pieces =>
      rw [ofTerm?, Json.Value.ofTerm?]
      cases Json.Piece.text? pieces <;> rfl
  | number numeral =>
      rw [ofTerm?, Json.Value.ofTerm?, Json.Value.ofNumeral?]
      cases numeral.integer? with
      | some value => rfl
      | none => cases numeral.overflows <;> rfl
  | null => rfl
  | bool value => rfl
  | array items =>
      rw [Json.Value.ofTerm?]
      cases Json.Value.ofItems? items <;> rfl
  | object members =>
      rw [Json.Value.ofTerm?]
      cases Json.Value.ofMembers? members <;> rfl

theorem Attribute.depth_eq_zero {term : Json.Term} {value : Json.Value} {a : Attribute}
    (said : Json.Value.ofTerm? term = some value) (denotes : Denotes value a) : term.depth = 0 := by
  have read : ofTerm? term = some a := by
    rw [ofTerm?_eq, said]
    exact ofValue?_eq_some_iff.2 denotes
  cases term with
  | array items => cases read
  | object members => cases read
  | _ => rfl

namespace Record

/-! ## Members one by one -/

/-- The members of a value as attributes, if all of them are. -/
def attributes? (values : List (String × Json.Value)) : Option (List (String × Attribute)) :=
  values.mapM fun member => (Attribute.ofValue? member.2).map fun a => (member.1, a)

variable {values : List (String × Json.Value)} {attributes : List (String × Attribute)}

theorem attributes?_cons_eq_some_iff {name : String} {value : Json.Value} :
    attributes? ((name, value) :: values) = some attributes ↔
      ∃ a others, Attribute.Denotes value a ∧ attributes? values = some others ∧
        attributes = (name, a) :: others := by
  rw [attributes?, mapM_cons_eq_some_iff]
  simp only [Option.map_eq_some_iff, Attribute.ofValue?_eq_some_iff]
  constructor
  · rintro ⟨_, others, ⟨a, denotes, rfl⟩, later, rfl⟩
    exact ⟨a, others, denotes, later, rfl⟩
  · rintro ⟨a, others, denotes, later, rfl⟩
    exact ⟨_, others, ⟨a, denotes, rfl⟩, later, rfl⟩

theorem exists_attributes?_iff : (∃ attributes, attributes? values = some attributes) ↔
    ∀ member ∈ values, ∃ a, Attribute.Denotes member.2 a := by
  induction values with
  | nil => simp [attributes?]
  | cons member values ih =>
      obtain ⟨name, value⟩ := member
      simp only [attributes?_cons_eq_some_iff, List.forall_mem_cons, ← ih]
      constructor
      · rintro ⟨_, a, others, denotes, later, -⟩
        exact ⟨⟨a, denotes⟩, others, later⟩
      · rintro ⟨⟨a, denotes⟩, others, later⟩
        exact ⟨_, a, others, denotes, later, rfl⟩

/-- The last attribute of a name is what the last value of the name denotes. -/
theorem lastValue?_of_attributes? (read : attributes? values = some attributes) (name : String) :
    lastValue? attributes name = (lastValue? values name).bind Attribute.ofValue? := by
  induction values generalizing attributes with
  | nil => cases read; rfl
  | cons member values ih =>
      obtain ⟨name', value⟩ := member
      obtain ⟨a, others, denotes, later, rfl⟩ := attributes?_cons_eq_some_iff.1 read
      rw [Json.lastValue?_cons, Json.lastValue?_cons, ih later]
      cases found : lastValue? values name with
      | none =>
          by_cases same : name' = name
          · simp [same, Attribute.ofValue?_eq_some_iff.2 denotes]
          · simp [same]
      | some last =>
          have inside := Json.mem_of_lastValue? found
          obtain ⟨b, denotes'⟩ := exists_attributes?_iff.1 ⟨_, later⟩ _ inside
          simp [Attribute.ofValue?_eq_some_iff.2 denotes']

theorem ofValue_of_attributes? (read : attributes? values = some attributes) :
    ofValue (.object values) = .ok (lastMembers attributes) := by
  refine ofMembers_eq_ok_iff.2 ⟨?_, ?_⟩
  · rintro name ⟨value, found, nothing⟩
    rw [Json.getElem?_lastMembers] at found
    obtain ⟨a, denotes⟩ := exists_attributes?_iff.1 ⟨_, read⟩ _ (Json.mem_of_lastValue? found)
    exact nothing a denotes
  · intro name a
    simp only [Json.getElem?_lastMembers, lastValue?_of_attributes? read, Option.bind_eq_some_iff,
      Attribute.ofValue?_eq_some_iff]

/-! ## The text itself -/

/-- Members may be read as attributes before or after they are read as values. -/
theorem exists_named?_iff {members : List (List Json.Piece × Json.Term)} :
    (∃ named, Json.Fields.named? members = some named ∧ (named.mapM fun member =>
        (Attribute.ofTerm? member.2).map fun a => (member.1, a)) = some attributes) ↔
      ∃ values, Json.Value.ofMembers? members = some values ∧
        attributes? values = some attributes := by
  induction members generalizing attributes with
  | nil => simp [Json.Fields.named?, Json.Value.ofMembers?, attributes?]
  | cons member members ih =>
      obtain ⟨pieces, term⟩ := member
      simp only [Json.Fields.named?_cons_eq_some_iff, Json.Value.ofMembers?_cons_eq_some_iff]
      constructor
      · rintro ⟨_, ⟨name, named, here, texts, rfl⟩, read⟩
        obtain ⟨_, others, first, later, rfl⟩ := mapM_cons_eq_some_iff.1 read
        obtain ⟨a, same, rfl⟩ := Option.map_eq_some_iff.1 first
        rw [Attribute.ofTerm?_eq] at same
        obtain ⟨value, said, denotes⟩ := Option.bind_eq_some_iff.1 same
        obtain ⟨values, saidOthers, readOthers⟩ := ih.1 ⟨named, texts, later⟩
        refine ⟨_, ⟨name, value, values, here, said, saidOthers, rfl⟩, ?_⟩
        exact attributes?_cons_eq_some_iff.2
          ⟨a, others, Attribute.ofValue?_eq_some_iff.1 denotes, readOthers, rfl⟩
      · rintro ⟨_, ⟨name, value, values, here, said, saidOthers, rfl⟩, read⟩
        obtain ⟨a, others, denotes, readOthers, rfl⟩ := attributes?_cons_eq_some_iff.1 read
        obtain ⟨named, texts, later⟩ := ih.2 ⟨values, saidOthers, readOthers⟩
        refine ⟨_, ⟨name, named, here, texts, rfl⟩, mapM_cons_eq_some_iff.2 ?_⟩
        have first : Attribute.ofTerm? term = some a := by
          rw [Attribute.ofTerm?_eq, said]
          exact Attribute.ofValue?_eq_some_iff.2 denotes
        exact ⟨_, others, Option.map_eq_some_iff.2 ⟨a, first, rfl⟩, later, rfl⟩

theorem ofTerm?_eq_some_iff {term : Json.Term} {record : Record} : ofTerm? term = some record ↔
    ∃ values, Json.Value.ofTerm? term = some (.object values) ∧
      ∃ attributes, attributes? values = some attributes ∧ lastMembers attributes = record := by
  constructor
  · intro read
    cases term with
    | object members =>
        simp only [ofTerm?, Option.bind_eq_bind, Option.bind_eq_some_iff, Option.some.injEq] at read
        obtain ⟨named, texts, attributes, made, rfl⟩ := read
        obtain ⟨values, said, read⟩ := exists_named?_iff.1 ⟨named, texts, made⟩
        exact ⟨values, by rw [Json.Value.ofTerm?, said]; rfl, attributes, read, rfl⟩
    | _ => cases read
  · rintro ⟨values, said, attributes, read, rfl⟩
    obtain ⟨members, rfl, saidMembers⟩ := Json.Value.eq_object_of_ofTerm? said
    obtain ⟨named, texts, made⟩ := exists_named?_iff.2 ⟨values, saidMembers, read⟩
    simp only [ofTerm?, texts, made, Option.bind_eq_bind, Option.bind_some]

theorem depthOfMembers_eq_zero {members : List (List Json.Piece × Json.Term)}
    (said : Json.Value.ofMembers? members = some values)
    (fit : ∀ member ∈ values, ∃ a, Attribute.Denotes member.2 a) :
    Json.Term.depthOfMembers members = 0 := by
  induction members generalizing values with
  | nil => rfl
  | cons member members ih =>
      obtain ⟨pieces, term⟩ := member
      obtain ⟨name, value, others, -, here, later, rfl⟩ :=
        Json.Value.ofMembers?_cons_eq_some_iff.1 said
      obtain ⟨⟨a, denotes⟩, fitOthers⟩ := List.forall_mem_cons.1 fit
      rw [Json.Term.depthOfMembers, Attribute.depth_eq_zero here denotes, ih later fitOthers]
      rfl

/-- A text gives a record in one go if all members of its value are attributes. -/
theorem ofText_eq_ok_iff {text : String} {record : Record} : ofText text = .ok record ↔
    ∃ values, Means text (.object values) ∧
      (∀ member ∈ values, ∃ a, Attribute.Denotes member.2 a) ∧
        ofValue (.object values) = .ok record := by
  have found : ofText text = .ok record ↔
      ∃ term, Json.Writes text term ∧ ofTerm? term = some record := by
    simp only [← Json.Term.parse?_eq_some_iff, ← Option.bind_eq_some_iff]
    unfold ofText
    cases (Json.Term.parse? text).bind ofTerm? <;> simp
  rw [found]
  constructor
  · rintro ⟨term, written, taken⟩
    obtain ⟨values, said, attributes, read, rfl⟩ := ofTerm?_eq_some_iff.1 taken
    have fit := exists_attributes?_iff.1 ⟨attributes, read⟩
    refine ⟨values, ⟨term, written, ?_, said⟩, fit, ofValue_of_attributes? read⟩
    obtain ⟨members, rfl, saidMembers⟩ := Json.Value.eq_object_of_ofTerm? said
    rw [Json.Term.depth, depthOfMembers_eq_zero saidMembers fit]
    decide
  · rintro ⟨values, ⟨term, written, -, said⟩, fit, made⟩
    obtain ⟨attributes, read⟩ := exists_attributes?_iff.2 fit
    have same := Except.ok.inj ((ofValue_of_attributes? read).symm.trans made)
    exact ⟨term, written, ofTerm?_eq_some_iff.2 ⟨values, said, attributes, read, same⟩⟩

/-! ## Where the two part -/

/-- A member that is no attribute escapes the second way only behind another of
its name. -/
theorem exists_later_of_unfit {record : Record} (made : ofValue (.object values) = .ok record)
    {name : String} {earlier : Json.Value} (member : (name, earlier) ∈ values)
    (nothing : ∀ a, ¬ Attribute.Denotes earlier a) : ∃ before between later after,
      values = before ++ (name, earlier) :: between ++ (name, later) :: after := by
  obtain ⟨before, behind, rfl⟩ := List.append_of_mem member
  cases found : lastValue? behind name with
  | none =>
      -- then it is the last of its name, and the record would be refused for it
      have last : lastValue? (before ++ (name, earlier) :: behind) name = some earlier := by
        rw [Json.lastValue?_append, Json.lastValue?_cons, found]
        simp
      have unfit : Unfit (lastMembers (before ++ (name, earlier) :: behind)) name :=
        ⟨earlier, by rw [Json.getElem?_lastMembers, last], nothing⟩
      exact absurd unfit ((ofMembers_eq_ok_iff.1 made).1 name)
  | some later =>
      obtain ⟨between, after, rfl⟩ := List.append_of_mem (Json.mem_of_lastValue? found)
      exact ⟨before, between, later, after, by simp⟩

/-- A record that is read from a text in one go is also read from its value; one
that is read from a value whose names are all different is also read in one go;
and where only the second way gives a record, some member is no attribute but
has another of its name behind it. -/
theorem readings_agree (text : String) (record : Record) :
    (ofText text = .ok record →
      ∃ value, Json.Value.parse? text = some value ∧ ofValue value = .ok record) ∧
    (∀ values, Json.Value.parse? text = some (.object values) →
      (values.map Prod.fst).Nodup → ofValue (.object values) = .ok record →
        ofText text = .ok record) ∧
    (∀ value, Json.Value.parse? text = some value → ofValue value = .ok record →
      ofText text ≠ .ok record → ∃ before name earlier between later after,
        value = .object (before ++ (name, earlier) :: between ++ (name, later) :: after) ∧
          ∀ a, ¬ Attribute.Denotes earlier a) := by
  refine ⟨?_, ?_, ?_⟩
  · intro read
    obtain ⟨values, means, -, made⟩ := ofText_eq_ok_iff.1 read
    exact ⟨_, Json.Value.parse?_eq_some_iff.2 means, made⟩
  · intro values parsed distinct made
    refine ofText_eq_ok_iff.2 ⟨values, Json.Value.parse?_eq_some_iff.1 parsed, ?_, made⟩
    rintro ⟨name, value⟩ member
    apply Classical.byContradiction
    intro nothing
    obtain ⟨before, between, later, after, rfl⟩ :=
      exists_later_of_unfit made member (not_exists.1 nothing)
    simp [List.nodup_append] at distinct
  · intro value parsed made differs
    cases value with
    | object values =>
        have spoiled : ¬ ∀ member ∈ values, ∃ a, Attribute.Denotes member.2 a := by
          intro fit
          exact differs (ofText_eq_ok_iff.2
            ⟨values, Json.Value.parse?_eq_some_iff.1 parsed, fit, made⟩)
        simp only [Classical.not_forall, not_exists] at spoiled
        obtain ⟨⟨name, earlier⟩, member, nothing⟩ := spoiled
        obtain ⟨before, between, later, after, rfl⟩ := exists_later_of_unfit made member nothing
        exact ⟨before, name, earlier, between, later, after, rfl, nothing⟩
    | _ => cases made

/-- The null is replaced, and that is good enough for the second way alone. -/
example : (ofText "\x7b\"a\":null,\"\\u0061\":1\x7d").toOption = none ∧
    ((Json.Value.parse? "\x7b\"a\":null,\"\\u0061\":1\x7d").map ofValue).any
      (fun record => record.toOption.isSome) := by
  decide +kernel

end Record

end Criteria
