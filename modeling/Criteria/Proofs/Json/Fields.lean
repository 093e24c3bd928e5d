/-
# Criteria.Proofs.Json.Fields -- where the parts of a document come from

A reader of fields makes nothing up: whatever is given for a field is the value
of a member of the object, the only one of that name (`unique?_eq_some_iff`), or
an item of the array (`mem_of_ofObject?`, `mem_of_ofArray?`). Members and items
lie one level deeper than the brackets around them, which bounds what is read from
them by what is read from the whole.
-/
import Criteria.Json.Fields
import Criteria.Proofs.Refusal

namespace Criteria.Json

set_option autoImplicit false

namespace Fields

variable {α : Type} {fields : List String} {value : α} {values : List (Option α)}

theorem named?_cons_eq_some_iff {pieces : List Piece} {members : List (List Piece × α)}
    {named : List (String × α)} : named? ((pieces, value) :: members) = some named ↔
      ∃ name others, Piece.text? pieces = some name ∧ named? members = some others ∧
        named = (name, value) :: others := by
  rw [named?, mapM_cons_eq_some_iff]
  simp only [Option.map_eq_some_iff]
  constructor
  · rintro ⟨_, others, ⟨name, here, rfl⟩, later, rfl⟩
    exact ⟨name, others, here, later, rfl⟩
  · rintro ⟨name, others, here, later, rfl⟩
    exact ⟨_, others, ⟨name, here, rfl⟩, later, rfl⟩

theorem mem_of_named? {members : List (List Piece × α)} {named : List (String × α)}
    (read : named? members = some named) {name : String} (member : (name, value) ∈ named) :
    ∃ pieces, (pieces, value) ∈ members := by
  obtain ⟨⟨pieces, value'⟩, inside, same⟩ := mem_of_mapM read member
  simp only [Option.map_eq_some_iff, Prod.mk.injEq] at same
  obtain ⟨-, -, -, rfl⟩ := same
  exact ⟨pieces, inside⟩

/-- An object gives a field what stands alone under its name, or nothing. -/
theorem unique?_eq_some_iff {members : List (String × α)} {name : String} {value? : Option α} :
    unique? members name = some value? ↔ members.filter (fun member => member.1 == name) =
      (value?.map fun value => (name, value)).toList := by
  unfold unique?
  constructor
  · intro found
    split at found
    · rename_i none
      cases found
      exact none
    · rename_i only alone
      cases found
      have kept : only ∈ members.filter fun member => member.1 == name := by
        rw [alone]
        exact List.mem_singleton_self _
      rw [alone, ← eq_of_beq (List.mem_filter.1 kept).2]
      rfl
    · cases found
  · intro kept
    rw [kept]
    cases value? <;> rfl

theorem mem_of_unique? {members : List (String × α)} {name : String}
    (found : unique? members name = some (some value)) : (name, value) ∈ members := by
  have kept : (name, value) ∈ members.filter fun member => member.1 == name := by
    rw [unique?_eq_some_iff.1 found]
    exact List.mem_singleton_self _
  exact (List.mem_filter.1 kept).1

theorem mem_of_ofObject? {members : List (List Piece × α)}
    (read : ofObject? fields members = some values) (given : some value ∈ values) :
    ∃ pieces, (pieces, value) ∈ members := by
  simp only [ofObject?, Option.bind_eq_bind, Option.bind_eq_some_iff] at read
  obtain ⟨named, texts, picked⟩ := read
  obtain ⟨name, -, found⟩ := mem_of_mapM picked given
  exact mem_of_named? texts (mem_of_unique? found)

theorem mem_of_ofArray? {items : List α} (read : ofArray? fields items = some values)
    (given : some value ∈ values) : value ∈ items := by
  unfold ofArray? at read
  split at read
  · cases read
    simpa [List.mem_replicate] using given
  · cases read

end Fields

namespace Term

theorem depth_le_of_mem_items {item : Term} {items : List Term} (member : item ∈ items) :
    item.depth ≤ depthOfItems items := by
  induction items with
  | nil => cases member
  | cons first items ih =>
      rw [depthOfItems]
      rcases List.mem_cons.1 member with rfl | member
      · exact Nat.le_max_left _ _
      · exact Nat.le_trans (ih member) (Nat.le_max_right _ _)

theorem depth_le_of_mem_members {pieces : List Piece} {term : Term}
    {members : List (List Piece × Term)} (member : (pieces, term) ∈ members) :
    term.depth ≤ depthOfMembers members := by
  induction members with
  | nil => cases member
  | cons first members ih =>
      obtain ⟨name, value⟩ := first
      rw [depthOfMembers]
      rcases List.mem_cons.1 member with same | member
      · cases same
        exact Nat.le_max_left _ _
      · exact Nat.le_trans (ih member) (Nat.le_max_right _ _)

end Term

end Criteria.Json
