/-
# Criteria.Proofs.Json.Layout -- the ways to lay out what is given for fields

`Lays fields term given` says what a term gives for each of some fields without
looking for it: an object has one member for each field that is given, in any
order and among any members of other names, and an array has the values in the
order of the fields and may stop early. The collector for objects gets out just
what was put in (`ofObject?_of_perm`), since of a name that is known there is one
member wherever it stands (`unique?_of_perm`). A known name that stands twice is
found as well (`ofObject?_of_twice`).
-/
import Criteria.Proofs.Json.Fields
import Mathlib.Data.List.Forall2

namespace Criteria.Json

set_option autoImplicit false

namespace Fields

variable {α β : Type} {fields : List String}

/-! ## Values pass through unseen -/

theorem named?_map (f : α → β) (members : List (List Piece × α)) :
    named? (members.map fun member => (member.1, f member.2)) =
      (named? members).map (List.map fun member => (member.1, f member.2)) := by
  induction members with
  | nil => rfl
  | cons member members ih =>
      simp only [named?, List.map_cons, List.mapM_cons] at ih ⊢
      rw [ih]
      cases Piece.text? member.1 with
      | none => rfl
      | some name =>
          cases members.mapM fun member =>
            (Piece.text? member.1).map fun name => (name, member.2) <;> rfl

theorem unique?_map (f : α → β) (members : List (String × α)) (name : String) :
    unique? (members.map fun member => (member.1, f member.2)) name =
      (unique? members name).map (Option.map f) := by
  unfold unique?
  rw [List.filter_map]
  -- the same members are kept, as only their names are looked at
  simp only [Function.comp_def]
  generalize members.filter (fun member => member.1 == name) = kept
  rcases kept with _ | ⟨first, _ | ⟨second, rest⟩⟩ <;> rfl

theorem ofObject?_map (f : α → β) (members : List (List Piece × α)) :
    ofObject? fields (members.map fun member => (member.1, f member.2)) =
      (ofObject? fields members).map (List.map (Option.map f)) := by
  rw [ofObject?, ofObject?, named?_map]
  cases named? members with
  | none => rfl
  | some named =>
      show fields.mapM (unique? (named.map fun member => (member.1, f member.2))) =
        (fields.mapM (unique? named)).map (List.map (Option.map f))
      induction fields with
      | nil => rfl
      | cons name fields ih =>
          rw [List.mapM_cons, List.mapM_cons, ih, unique?_map]
          cases unique? named name with
          | none => rfl
          | some value? => cases fields.mapM (unique? named) <;> rfl

theorem ofArray?_map (f : α → β) (items : List α) :
    ofArray? fields (items.map f) = (ofArray? fields items).map (List.map (Option.map f)) := by
  unfold ofArray?
  rw [List.length_map]
  split
  · simp
  · rfl

/-! ## Members in any order -/

/-- The member has the name and the value of the entry, however the name is spelled. -/
def Names (member : List Piece × α) (entry : String × α) : Prop :=
  Piece.text? member.1 = some entry.1 ∧ entry.2 = member.2

/-- The values that are given, each under the name of its field. -/
def present (entries : List (String × Option α)) : List (String × α) :=
  entries.filterMap fun entry => entry.2.map fun value => (entry.1, value)

theorem named?_eq_some_iff {members : List (List Piece × α)} {named : List (String × α)} :
    named? members = some named ↔ List.Forall₂ Names members named := by
  have reads : (fun (member : List Piece × α) (entry : String × α) =>
      (Piece.text? member.1).map (fun name => (name, member.2)) = some entry) = Names := by
    funext member entry
    obtain ⟨name, value⟩ := entry
    simp only [Names, Option.map_eq_some_iff, Prod.mk.injEq, eq_iff_iff]
    constructor
    · rintro ⟨_, said, rfl, rfl⟩
      exact ⟨said, rfl⟩
    · rintro ⟨said, rfl⟩
      exact ⟨name, said, rfl, rfl⟩
  rw [named?, mapM_eq_some_iff, reads]

theorem present_cons (name : String) (value? : Option α) (entries : List (String × Option α)) :
    present ((name, value?) :: entries) =
      (value?.map fun value => (name, value)).toList ++ present entries := by
  cases value? <;> rfl

/-- No value stands under a name that is none of the fields. -/
theorem filter_present_eq_nil {entries : List (String × Option α)} {name : String}
    (foreign : name ∉ entries.map Prod.fst) :
    (present entries).filter (fun member => member.1 == name) = [] := by
  rw [List.filter_eq_nil_iff]
  intro member inside same
  obtain ⟨entry, listed, found⟩ := List.mem_filterMap.1 inside
  obtain ⟨value, -, rfl⟩ := Option.map_eq_some_iff.1 found
  exact foreign (List.mem_map.2 ⟨entry, listed, eq_of_beq same⟩)

/-- Under the name of a field stands what is given for it. -/
theorem filter_present {entries : List (String × Option α)}
    (distinct : (entries.map Prod.fst).Nodup) {name : String} {value? : Option α}
    (listed : (name, value?) ∈ entries) :
    (present entries).filter (fun member => member.1 == name) =
      (value?.map fun value => (name, value)).toList := by
  induction entries with
  | nil => cases listed
  | cons entry entries ih =>
      obtain ⟨name', value'?⟩ := entry
      obtain ⟨new, distinct⟩ := List.nodup_cons.1 distinct
      rw [present_cons, List.filter_append]
      rcases List.mem_cons.1 listed with same | later
      · cases same
        rw [filter_present_eq_nil new, List.append_nil]
        cases value? <;> simp
      · have other : name' ≠ name := by
          rintro rfl
          exact new (List.mem_map.2 ⟨_, later, rfl⟩)
        rw [ih distinct later]
        cases value'? <;> simp [other]

/-- Where the members of a name stand makes no difference. -/
theorem unique?_of_perm {members members' : List (String × α)} {name : String} {value? : Option α}
    (same : members.Perm members') (kept : members'.filter (fun member => member.1 == name) =
      (value?.map fun value => (name, value)).toList) :
    unique? members name = some value? := by
  have filtered := same.filter fun member => member.1 == name
  rw [kept] at filtered
  rw [unique?_eq_some_iff]
  cases value? with
  | none => exact List.perm_nil.1 filtered
  | some value => exact List.perm_singleton.1 filtered

/-- Members in any order and among any others give each field what is theirs. -/
theorem ofObject?_of_perm {members : List (List Piece × α)} {named others : List (String × α)}
    {given : List (Option α)} (distinct : fields.Nodup) (size : given.length = fields.length)
    (names : List.Forall₂ Names members named)
    (order : named.Perm (present (fields.zip given) ++ others))
    (unknown : ∀ member ∈ others, member.1 ∉ fields) : ofObject? fields members = some given := by
  have ends : (fields.zip given).map Prod.fst = fields := List.map_fst_zip (by omega)
  simp only [ofObject?, named?_eq_some_iff.2 names, Option.bind_eq_bind, Option.bind_some]
  refine mapM_eq_some_iff.2 (List.forall₂_iff_zip.2 ⟨size.symm, ?_⟩)
  intro name value? listed
  have known : name ∈ fields := ends ▸ List.mem_map.2 ⟨_, listed, rfl⟩
  have ignored : others.filter (fun member => member.1 == name) = [] := by
    rw [List.filter_eq_nil_iff]
    intro member inside same
    exact unknown member inside (eq_of_beq same ▸ known)
  apply unique?_of_perm order
  rw [List.filter_append, ignored, List.append_nil]
  exact filter_present (ends.symm ▸ distinct) listed

theorem countP_of_named? {members : List (List Piece × α)} {named : List (String × α)}
    (names : List.Forall₂ Names members named) (name : String) :
    named.countP (fun member => member.1 == name) =
      members.countP fun member => Piece.text? member.1 = some name := by
  induction names with
  | nil => rfl
  | cons names _ ih => simp [List.countP_cons, ih, names.1]

/-- A name that is known may stand once at most. -/
theorem ofObject?_of_twice {members : List (List Piece × α)} {name : String} (known : name ∈ fields)
    (twice : 1 < members.countP fun member => Piece.text? member.1 = some name) :
    ofObject? fields members = none := by
  cases read : named? members with
  | none => simp [ofObject?, read]
  | some named =>
      have refused : unique? named name = none := by
        rw [Option.eq_none_iff_forall_ne_some]
        intro value? found
        have kept := congrArg List.length (unique?_eq_some_iff.1 found)
        rw [← List.countP_eq_length_filter, countP_of_named? (named?_eq_some_iff.1 read)] at kept
        have single := (value?.map fun value => (name, value)).length_toList_le
        omega
      simp only [ofObject?, read, Option.bind_eq_bind, Option.bind_some]
      exact mapM_eq_none_of_mem known refused

/-! ## Where a value that is given ends up -/

/-- A member of a known name is what its field is given. -/
theorem mem_zip_of_ofObject? {members : List (List Piece × α)} {given : List (Option α)}
    (read : ofObject? fields members = some given) {name : String} (known : name ∈ fields)
    {pieces : List Piece} {value : α} (member : (pieces, value) ∈ members)
    (said : Piece.text? pieces = some name) : (name, some value) ∈ fields.zip given := by
  simp only [ofObject?, Option.bind_eq_bind, Option.bind_eq_some_iff] at read
  obtain ⟨named, texts, picked⟩ := read
  obtain ⟨size, picked⟩ := List.forall₂_iff_zip.1 (mapM_eq_some_iff.1 picked)
  have inside : (name, value) ∈ named := by
    obtain ⟨entry, inside, same⟩ := exists_of_mapM texts member
    rw [said, Option.map_some, Option.some.injEq] at same
    exact same ▸ inside
  obtain ⟨⟨name, value?⟩, listed, rfl⟩ : ∃ entry ∈ fields.zip given, entry.1 = name := by
    rw [← List.map_fst_zip (Nat.le_of_eq size)] at known
    exact List.mem_map.1 known
  have kept : (name, value) ∈ named.filter fun member => member.1 == name :=
    List.mem_filter.2 ⟨inside, beq_self_eq_true name⟩
  rw [unique?_eq_some_iff.1 (picked listed), Option.mem_toList, Option.map_eq_some_iff] at kept
  obtain ⟨_, rfl, same⟩ := kept
  cases same
  exact listed

/-- An item is what the field in its place is given. -/
theorem mem_zip_of_ofArray? {items : List α} {given : List (Option α)}
    (read : ofArray? fields items = some given) {name : String} {value : α}
    (place : (name, value) ∈ fields.zip items) : (name, some value) ∈ fields.zip given := by
  unfold ofArray? at read
  split at read
  · cases read
    obtain ⟨i, here⟩ := List.mem_iff_getElem?.1 place
    obtain ⟨field, item⟩ := List.getElem?_zip_eq_some.1 here
    refine List.mem_iff_getElem?.2 ⟨i, List.getElem?_zip_eq_some.2 ⟨field, ?_⟩⟩
    have inside : i < items.length := (List.getElem?_eq_some_iff.1 item).1
    rw [List.getElem?_append_left (by rwa [List.length_map]), List.getElem?_map, item,
      Option.map_some]
  · cases read

end Fields

/-- A term that gives what is given for the fields: an object with a member for
each, in any order and among any members of other names, or an array of them in
the order of the fields, of which the last ones may be absent. Each name, known or
not, is a text. -/
inductive Term.Lays (fields : List String) : Term → List (Option Term) → Prop
  | object {members : List (List Piece × Term)} {named others : List (String × Term)}
      {given : List (Option Term)} (names : List.Forall₂ Fields.Names members named)
      (order : named.Perm (Fields.present (fields.zip given) ++ others))
      (unknown : ∀ member ∈ others, member.1 ∉ fields) : Lays fields (.object members) given
  | array {items : List Term} {given : List (Option Term)} (absent : Nat)
      (order : given = items.map some ++ List.replicate absent none) :
      Lays fields (.array items) given

end Criteria.Json
