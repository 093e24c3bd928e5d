/-
# Criteria.Proofs.Text.Run -- where a run of characters ends

Every scanner of the library takes the longest run of characters of one class.
`Ends` says that such a run is over: the text behind it is empty or starts with
a character of another class. Under it `takeWhile` and `dropWhile` cut exactly
where the run was put (`takeWhile_run`, `dropWhile_run`).
-/

namespace Criteria.Text

set_option autoImplicit false

variable {belongs : Char → Bool}

/-- No character of the class comes next. -/
def Ends (belongs : Char → Bool) (rest : List Char) : Prop :=
  ∀ c ∈ rest.head?, belongs c = false

theorem ends_nil : Ends belongs [] := by simp [Ends]

theorem ends_cons {c : Char} {rest : List Char} :
    Ends belongs (c :: rest) ↔ belongs c = false := by
  simp [Ends]

theorem takeWhile_of_ends {rest : List Char} (ends : Ends belongs rest) :
    rest.takeWhile belongs = [] := by
  cases rest with
  | nil => rfl
  | cons c rest => rw [List.takeWhile_cons, ends_cons.1 ends]; rfl

theorem dropWhile_of_ends {rest : List Char} (ends : Ends belongs rest) :
    rest.dropWhile belongs = rest := by
  cases rest with
  | nil => rfl
  | cons c rest => rw [List.dropWhile_cons, ends_cons.1 ends]; rfl

/-- What is left of a text once a run is dropped. -/
theorem ends_dropWhile (belongs : Char → Bool) (chars : List Char) :
    Ends belongs (chars.dropWhile belongs) := by
  intro c first
  have solid := List.head?_dropWhile_not belongs chars
  rw [Option.mem_def.1 first] at solid
  simpa using solid

theorem takeWhile_run {run rest : List Char} (inside : ∀ c ∈ run, belongs c)
    (ends : Ends belongs rest) : (run ++ rest).takeWhile belongs = run := by
  rw [List.takeWhile_append_of_pos inside, takeWhile_of_ends ends, List.append_nil]

theorem dropWhile_run {run rest : List Char} (inside : ∀ c ∈ run, belongs c)
    (ends : Ends belongs rest) : (run ++ rest).dropWhile belongs = rest := by
  rw [List.dropWhile_append_of_pos inside, dropWhile_of_ends ends]

end Criteria.Text
