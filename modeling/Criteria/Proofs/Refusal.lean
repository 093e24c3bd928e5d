/-
# Criteria.Proofs.Refusal -- where a chain of steps stops

Reading goes step by step and stops at the first step that is refused. These
lemmas turn the outcome of a chain into the outcomes of its steps: a chain gives
a result only through one of every step, and an error only through that of the
first step that has none (`foldlM_eq_error`). A list that is read item by item
and without reasons has a result if and only if every item has one
(`mapM_eq_some_iff`).
-/
import Mathlib.Data.List.Forall2

namespace Criteria

set_option autoImplicit false

variable {ε α β σ : Type}

theorem bind_eq_ok_iff {first : Except ε α} {next : α → Except ε β} {result : β} :
    first >>= next = .ok result ↔ ∃ middle, first = .ok middle ∧ next middle = .ok result := by
  cases first with
  | error error => simp [bind, Except.bind]
  | ok middle => simp [bind, Except.bind]

theorem bind_eq_error_iff {first : Except ε α} {next : α → Except ε β} {error : ε} :
    first >>= next = .error error ↔
      first = .error error ∨ ∃ middle, first = .ok middle ∧ next middle = .error error := by
  cases first with
  | error other => simp [bind, Except.bind]
  | ok middle => simp [bind, Except.bind]

theorem map_eq_ok_iff {first : Except ε α} {f : α → β} {result : β} :
    first.map f = .ok result ↔ ∃ middle, first = .ok middle ∧ f middle = result := by
  cases first <;> simp [Except.map]

theorem map_eq_error_iff {first : Except ε α} {f : α → β} {error : ε} :
    first.map f = .error error ↔ first = .error error := by
  cases first <;> simp [Except.map]

theorem toOption_eq_some_iff {first : Except ε α} {result : α} :
    first.toOption = some result ↔ first = .ok result := by
  cases first <;> simp [Except.toOption]

theorem foldlM_cons_eq_ok_iff {step : σ → α → Except ε σ} {start last : σ} {x : α} {xs : List α} :
    (x :: xs).foldlM step start = .ok last ↔
      ∃ next, step start x = .ok next ∧ xs.foldlM step next = .ok last := by
  rw [List.foldlM_cons, bind_eq_ok_iff]

theorem foldlM_append_eq_ok_iff {step : σ → α → Except ε σ} {start last : σ} {xs ys : List α} :
    (xs ++ ys).foldlM step start = .ok last ↔
      ∃ middle, xs.foldlM step start = .ok middle ∧ ys.foldlM step middle = .ok last := by
  rw [List.foldlM_append, bind_eq_ok_iff]

/-- A fold fails at one of its steps, and all steps before that one succeed. -/
theorem foldlM_eq_error {step : σ → α → Except ε σ} {start : σ} {xs : List α} {error : ε}
    (failed : xs.foldlM step start = .error error) :
    ∃ before x after middle, xs = before ++ x :: after ∧
      before.foldlM step start = .ok middle ∧ step middle x = .error error := by
  induction xs generalizing start with
  | nil => cases failed
  | cons x xs ih =>
      rw [List.foldlM_cons, bind_eq_error_iff] at failed
      rcases failed with here | ⟨next, taken, later⟩
      · exact ⟨[], x, xs, start, rfl, rfl, here⟩
      · obtain ⟨before, y, after, middle, rfl, run, fault⟩ := ih later
        exact ⟨x :: before, y, after, middle, rfl, foldlM_cons_eq_ok_iff.2 ⟨next, taken, run⟩,
          fault⟩

theorem mapM_cons_eq_some_iff {f : α → Option β} {x : α} {xs : List α} {ys : List β} :
    (x :: xs).mapM f = some ys ↔ ∃ y others, f x = some y ∧ xs.mapM f = some others ∧
      ys = y :: others := by
  simp only [List.mapM_cons, Option.bind_eq_bind, Option.bind_eq_some_iff, Option.pure_def,
    Option.some.injEq]
  constructor
  · rintro ⟨y, here, others, later, rfl⟩
    exact ⟨y, others, here, later, rfl⟩
  · rintro ⟨y, others, here, later, rfl⟩
    exact ⟨y, here, others, later, rfl⟩

theorem mapM_eq_some_iff {f : α → Option β} {xs : List α} {ys : List β} :
    xs.mapM f = some ys ↔ List.Forall₂ (fun x y => f x = some y) xs ys := by
  induction xs generalizing ys with
  | nil => simp [eq_comm]
  | cons x xs ih => simp only [mapM_cons_eq_some_iff, List.forall₂_cons_left_iff, ih]

theorem mapM_eq_none_of_mem {f : α → Option β} {xs : List α} {x : α} (member : x ∈ xs)
    (failed : f x = none) : xs.mapM f = none := by
  induction xs with
  | nil => cases member
  | cons first xs ih =>
      rw [List.mapM_cons]
      rcases List.mem_cons.1 member with rfl | member
      · rw [failed]
        rfl
      · rw [ih member]
        cases f first <;> rfl

theorem mem_of_mapM {f : α → Option β} {xs : List α} {ys : List β} (read : xs.mapM f = some ys)
    {y : β} (member : y ∈ ys) : ∃ x ∈ xs, f x = some y := by
  induction xs generalizing ys with
  | nil => cases read; cases member
  | cons x xs ih =>
      obtain ⟨first, others, here, later, rfl⟩ := mapM_cons_eq_some_iff.1 read
      rcases List.mem_cons.1 member with rfl | member
      · exact ⟨x, List.mem_cons_self, here⟩
      · obtain ⟨x', inside, found⟩ := ih later member
        exact ⟨x', List.mem_cons_of_mem x inside, found⟩

theorem exists_of_mapM {f : α → Option β} {xs : List α} {ys : List β} (read : xs.mapM f = some ys)
    {x : α} (member : x ∈ xs) : ∃ y ∈ ys, f x = some y := by
  induction xs generalizing ys with
  | nil => cases member
  | cons first xs ih =>
      obtain ⟨y, others, here, later, rfl⟩ := mapM_cons_eq_some_iff.1 read
      rcases List.mem_cons.1 member with rfl | member
      · exact ⟨y, List.mem_cons_self, here⟩
      · obtain ⟨y', inside, found⟩ := ih later member
        exact ⟨y', List.mem_cons_of_mem y inside, found⟩

end Criteria
