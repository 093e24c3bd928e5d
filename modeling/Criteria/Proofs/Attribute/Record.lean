/-
# Criteria.Proofs.Attribute.Record -- which members make a record

`Attribute.Denotes` lists the values that are attributes: texts, and integers
that are the value of a 32-bit word. A map of values makes a record exactly if
all of them are attributes, and the record then holds these and nothing else
(`ofMembers_eq_ok_iff`). Otherwise it is refused for the name that comes first
in the order of bytes among those that denote nothing (`ofMembers_eq_error_iff`).
-/
import Criteria.Attribute.Json
import Criteria.Proofs.Text.Bytes

namespace Criteria

set_option autoImplicit false

/-! ## Integers -/

namespace Json.Numeral

/-- What the sign and the digits before the point write. -/
def signed (n : Numeral) : Int :=
  if n.negative then -(Decimal.value n.whole : Int) else Decimal.value n.whole

theorem integer?_eq_some_iff {n : Numeral} {value : Int} : n.integer? = some value ↔
    n.fraction = [] ∧ n.exponent? = none ∧ (n.negative → Decimal.value n.whole ≠ 0) ∧
      value = n.signed ∧ Int64.minValue.toInt ≤ value ∧ value < UInt64.size := by
  have size : UInt64.size = 18446744073709551616 := by decide
  have least : Int64.minValue.toInt = -9223372036854775808 := by decide
  unfold integer? signed
  generalize Decimal.value n.whole = digits
  by_cases fraction : n.fraction = []
  · by_cases exponent : n.exponent? = none
    · cases n.negative with
      | false =>
          simp only [fraction, exponent, size, least, ne_eq, not_true_eq_false, or_self, ↓reduceIte,
            Option.ite_none_right_eq_some, Option.some.injEq, Bool.false_eq_true, false_implies,
            true_and]
          omega
      | true =>
          simp only [fraction, exponent, size, least, ne_eq, not_true_eq_false, or_self, ↓reduceIte,
            Option.ite_none_right_eq_some, Option.some.injEq, forall_const, true_and,
            Int.ofNat_eq_natCast]
          omega
    · simp [exponent]
  · simp [fraction]

end Json.Numeral

/-! ## Attributes -/

/-- The values that are attributes. -/
inductive Attribute.Denotes : Json.Value → Attribute → Prop
  | text (value : String) : Denotes (.string value) (.text value)
  | integer (word : Int32) : Denotes (.integer word.toInt) (.integer word)

theorem Attribute.ofValue?_eq_some_iff {value : Json.Value} {a : Attribute} :
    ofValue? value = some a ↔ Denotes value a := by
  constructor
  · intro read
    cases value with
    | string value => cases read; exact .text value
    | integer value =>
        simp only [ofValue?, Option.map_eq_some_iff, Decimal.word32?_eq_some_iff] at read
        obtain ⟨word, rfl, rfl⟩ := read
        exact .integer word
    | _ => cases read
  · intro denotes
    cases denotes with
    | text value => rfl
    | integer word =>
        rw [ofValue?, Decimal.word32?_eq_some_iff.2 rfl]
        rfl

theorem Attribute.isNone_ofValue?_iff {value : Json.Value} :
    (ofValue? value).isNone ↔ ∀ a, ¬ Denotes value a := by
  simp only [Option.isNone_iff_eq_none, Option.eq_none_iff_forall_ne_some, ne_eq,
    ofValue?_eq_some_iff]

theorem Attribute.denotes_text_iff {value : Json.Value} {text : String} :
    Denotes value (.text text) ↔ value = .string text := by
  constructor
  · intro denotes
    cases denotes
    rfl
  · rintro rfl
    exact .text text

theorem Attribute.denotes_integer_iff {value : Json.Value} {word : Int32} :
    Denotes value (.integer word) ↔ value = .integer word.toInt := by
  constructor
  · intro denotes
    cases denotes
    rfl
  · rintro rfl
    exact .integer word

/-- The numbers that are attributes: no point and no exponent is written, nor
minus zero, and the value is that of a 32-bit word. -/
theorem Attribute.denotes_ofNumeral?_iff {n : Json.Numeral} {word : Int32} :
    (∃ value, Json.Value.ofNumeral? n = some value ∧ Denotes value (.integer word)) ↔
      n.fraction = [] ∧ n.exponent? = none ∧ (n.negative → Decimal.value n.whole ≠ 0) ∧
        word.toInt = n.signed := by
  have integer : (∃ value, Json.Value.ofNumeral? n = some value ∧ Denotes value (.integer word)) ↔
      n.integer? = some word.toInt := by
    simp only [denotes_integer_iff, Json.Value.ofNumeral?, exists_eq_right]
    cases n.integer? with
    | some value => simp
    | none => simp
  have size : UInt64.size = 18446744073709551616 := by decide
  have least : Int64.minValue.toInt = -9223372036854775808 := by decide
  have low := word.le_toInt
  have high := word.toInt_lt
  rw [integer, Json.Numeral.integer?_eq_some_iff, size, least]
  constructor
  · rintro ⟨fraction, exponent, nonzero, same, -, -⟩
    exact ⟨fraction, exponent, nonzero, same⟩
  · rintro ⟨fraction, exponent, nonzero, same⟩
    exact ⟨fraction, exponent, nonzero, same, by omega, by omega⟩

/-! ## Records -/

namespace Record

variable {members : Std.ExtTreeMap String Json.Value} {name : String}

/-- The member of the name is no attribute. -/
def Unfit (members : Std.ExtTreeMap String Json.Value) (name : String) : Prop :=
  ∃ value, members[name]? = some value ∧ ∀ a, ¬ Attribute.Denotes value a

/-- Of the members that are no attributes the one with the smallest name. -/
def FirstUnfit (members : Std.ExtTreeMap String Json.Value) (name : String) : Prop :=
  Unfit members name ∧ ∀ other, Unfit members other → Text.bytes name ≤ Text.bytes other

theorem FirstUnfit.unique {other : String} (first : FirstUnfit members name)
    (first' : FirstUnfit members other) : name = other :=
  String.le_antisymm (Text.bytes_le_iff.1 (first.2 other first'.1))
    (Text.bytes_le_iff.1 (first'.2 name first.1))

theorem unfit_iff_mem_toList : Unfit members name ↔
    ∃ value, (name, value) ∈ members.toList ∧ (Attribute.ofValue? value).isNone := by
  simp only [Unfit, Std.ExtTreeMap.mem_toList_iff_getElem?_eq_some, Attribute.isNone_ofValue?_iff]

/-- The search goes through the names in order, so it stops at the smallest one. -/
theorem firstUnfit_of_find? {member : String × Json.Value}
    (found : members.toList.find? (fun member => (Attribute.ofValue? member.2).isNone) =
      some member) : FirstUnfit members member.1 := by
  obtain ⟨nothing, earlier, later, split, before⟩ := List.find?_eq_some_iff_append.1 found
  have ordered : members.toList.Pairwise fun a b => compare a.1 b.1 = .lt :=
    Std.ExtTreeMap.ordered_keys_toList
  rw [split] at ordered
  have behind := (List.pairwise_cons.1 (List.pairwise_append.1 ordered).2.1).1
  refine ⟨unfit_iff_mem_toList.2 ⟨member.2, List.mem_of_find?_eq_some found, nothing⟩, ?_⟩
  intro other unfit
  obtain ⟨value, mem, silent⟩ := unfit_iff_mem_toList.1 unfit
  rw [split] at mem
  rcases List.mem_append.1 mem with early | late
  · have denotes := before _ early
    rw [silent] at denotes
    cases denotes
  · rcases List.mem_cons.1 late with same | late
    · rw [← same]
      exact List.le_refl _
    · have greater : member.1 < other := compareOfLessAndEq_eq_lt.1 (behind _ late)
      exact Text.bytes_le_iff.2 (String.not_lt.1 (String.lt_asymm greater))

theorem fit_of_find?
    (passed : members.toList.find? (fun member => (Attribute.ofValue? member.2).isNone) = none)
    (name : String) : ¬ Unfit members name := by
  intro unfit
  obtain ⟨value, mem, nothing⟩ := unfit_iff_mem_toList.1 unfit
  exact List.find?_eq_none.1 passed _ mem nothing

theorem ofMembers_eq_error_iff {error : Error} : ofMembers members = .error error ↔
    ∃ name, FirstUnfit members name ∧ error = .invalidAttribute name := by
  unfold ofMembers
  split
  · rename_i member found
    have first := firstUnfit_of_find? found
    constructor
    · intro same
      cases same
      exact ⟨_, first, rfl⟩
    · rintro ⟨name, first', rfl⟩
      rw [first.unique first']
  · rename_i passed
    constructor
    · intro same
      cases same
    · rintro ⟨name, first, rfl⟩
      exact absurd first.1 (fit_of_find? passed name)

theorem getElem?_filterMap_ofValue? (members : Std.ExtTreeMap String Json.Value) (name : String)
    (a : Attribute) :
    (members.filterMap fun _ value => Attribute.ofValue? value)[name]? = some a ↔
      ∃ value, members[name]? = some value ∧ Attribute.Denotes value a := by
  simp only [Std.ExtTreeMap.getElem?_filterMap', Option.bind_eq_some_iff,
    Attribute.ofValue?_eq_some_iff]

theorem ofMembers_eq_ok_iff {record : Record} : ofMembers members = .ok record ↔
    (∀ name, ¬ Unfit members name) ∧ ∀ (name : String) (a : Attribute), record[name]? = some a ↔
      ∃ value, members[name]? = some value ∧ Attribute.Denotes value a := by
  unfold ofMembers
  split
  · rename_i member found
    have unfit := (firstUnfit_of_find? found).1
    constructor
    · intro same
      cases same
    · rintro ⟨fit, -⟩
      exact absurd unfit (fit _)
  · rename_i passed
    have fit := fit_of_find? passed
    rw [Except.ok.injEq]
    constructor
    · rintro rfl
      exact ⟨fit, getElem?_filterMap_ofValue? members⟩
    · rintro ⟨-, holds⟩
      apply Std.ExtTreeMap.ext_getElem?
      intro name
      apply Option.ext
      intro a
      rw [getElem?_filterMap_ofValue?, holds]

end Record

end Criteria
