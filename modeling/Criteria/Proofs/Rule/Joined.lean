/-
# Criteria.Proofs.Rule.Joined -- where the rules of a joined list end up

A list is joined from the left, so each rule is put one level further down by
every rule behind it, and the first two start side by side. `place` is the path to
a rule of the list and `levelsAbove` its length; the whole has as many levels as
the rule that reaches deepest (`joinedHeight`). One more rule at the end adds one
level above all the others (`joinedHeight_concat`), so heights only grow along the
list. That is why the height of the whole tells whether some join on the way is
refused, whichever rule is to blame (`joinAll_eq_error_iff`).
-/
import Criteria.Proofs.Rule.Paths
import Mathlib.Data.List.Induction
import Mathlib.Data.Nat.Basic
import Mathlib.Order.Basic

namespace Criteria.Rule

set_option autoImplicit false

/-- The path to rule `i` of `n` rules joined from the left, counted from 0. -/
def place (n i : Nat) : List Branch :=
  if i = 0 then List.replicate (n - 1) .left else List.replicate (n - 1 - i) .left ++ [.right]

/-- The number of levels above rule `i` of `n` rules joined from the left. -/
def levelsAbove (n i : Nat) : Nat := if i = 0 then n - 1 else n - i

/-- The number of levels down to the deepest leaf of any rule of a joined list. -/
def joinedHeight (rules : List Rule) : Nat :=
  (rules.mapIdx fun i rule => rule.height + levelsAbove rules.length i).foldr max 0

/-- The rule is what a list joined from the left looks like: every rule of the list
in its place, and above them new nodes with the one connective and no tag. -/
structure Joined (c : Connective) (rules : List Rule) (rule : Rule) : Prop where
  height : rule.height = joinedHeight rules
  inPlace : ∀ i < rules.length, rule.at? (place rules.length i) = rules[i]?
  above : ∀ k, k + 1 < rules.length → ∃ height left right,
    rule.at? (List.replicate k .left) = some (node 0 height c left right)

variable {c : Connective} {rules : List Rule} {rule last : Rule} {n i m : Nat}

/-! ## Places -/

theorem length_place (inside : i < n) : (place n i).length = levelsAbove n i := by
  unfold place levelsAbove
  split
  · rw [List.length_replicate]
  · rw [List.length_append, List.length_replicate, List.length_singleton]
    omega

/-- One rule more puts the others one level further down. -/
theorem place_succ (inside : i < n) : place (n + 1) i = .left :: place n i := by
  unfold place
  split
  · rw [← List.replicate_succ]
    congr 1
    omega
  · rw [← List.cons_append, ← List.replicate_succ]
    congr 2
    omega

theorem place_last (some : n ≠ 0) : place (n + 1) n = [.right] := by
  simp [place, some]

theorem levelsAbove_succ (inside : i < n) : levelsAbove (n + 1) i = levelsAbove n i + 1 := by
  rw [← length_place inside, ← length_place (by omega), place_succ inside, List.length_cons]

theorem levelsAbove_last (some : n ≠ 0) : levelsAbove (n + 1) n = 1 := by
  rw [← length_place (by omega), place_last some, List.length_singleton]

/-! ## The height of a joined list -/

theorem getElem?_concat_cases (found : (rules ++ [last])[i]? = some rule) :
    (i < rules.length ∧ rules[i]? = some rule) ∨ (i = rules.length ∧ rule = last) := by
  rw [List.getElem?_append] at found
  split at found
  · rename_i earlier
    exact .inl ⟨earlier, found⟩
  · rw [List.getElem?_singleton] at found
    split at found
    · cases found
      exact .inr ⟨by omega, rfl⟩
    · cases found

theorem foldr_max_le_iff {heights : List Nat} :
    heights.foldr max 0 ≤ m ↔ ∀ height ∈ heights, height ≤ m := by
  induction heights with
  | nil => simp
  | cons height heights ih => rw [List.foldr_cons, Nat.max_le, ih, List.forall_mem_cons]

theorem joinedHeight_le_iff : joinedHeight rules ≤ m ↔
    ∀ i rule, rules[i]? = some rule → rule.height + levelsAbove rules.length i ≤ m := by
  simp only [joinedHeight, foldr_max_le_iff, List.mem_mapIdx, List.getElem?_eq_some_iff]
  constructor
  · rintro low i rule ⟨inside, rfl⟩
    exact low _ ⟨i, inside, rfl⟩
  · rintro low _ ⟨i, inside, rfl⟩
    exact low i _ ⟨inside, rfl⟩

theorem joinedHeight_singleton (rule : Rule) : joinedHeight [rule] = rule.height := by
  apply eq_of_forall_ge_iff
  intro m
  simp [joinedHeight, levelsAbove]

theorem joinedHeight_concat (some : rules ≠ []) :
    joinedHeight (rules ++ [last]) = 1 + max (joinedHeight rules) last.height := by
  have length : (rules ++ [last]).length = rules.length + 1 := by simp
  have many : rules.length ≠ 0 := by simpa using some
  apply eq_of_forall_ge_iff
  intro m
  rw [joinedHeight_le_iff, length]
  constructor
  · intro low
    have lowLast := low rules.length last List.getElem?_concat_length
    rw [levelsAbove_last many] at lowLast
    have lowOthers : joinedHeight rules ≤ m - 1 := by
      rw [joinedHeight_le_iff]
      intro i rule found
      have inside := (List.getElem?_eq_some_iff.1 found).1
      have lowHere := low i rule (by rwa [List.getElem?_append_left inside])
      rw [levelsAbove_succ inside] at lowHere
      omega
    omega
  · intro low i rule found
    rcases getElem?_concat_cases found with ⟨earlier, here⟩ | ⟨rfl, rfl⟩
    · have lowHere := joinedHeight_le_iff.1 (Nat.le_refl (joinedHeight rules)) i rule here
      rw [levelsAbove_succ earlier]
      omega
    · rw [levelsAbove_last many]
      omega

/-! ## Joining -/

theorem joinAll_concat (c : Connective) (some : rules ≠ []) (last : Rule) :
    joinAll c (rules ++ [last]) = joinAll c rules >>= fun rule => join c rule last := by
  obtain ⟨first, rest, rfl⟩ := List.exists_cons_of_ne_nil some
  rw [List.cons_append, joinAll, List.foldlM_append, joinAll]
  simp

theorem joined_singleton (c : Connective) (rule : Rule) : Joined c [rule] rule where
  height := (joinedHeight_singleton rule).symm
  inPlace i inside := by
    obtain rfl : i = 0 := by simpa using inside
    simp [place]
  above k few := by simp at few

theorem Joined.concat {both : Rule} (joined : Joined c rules rule) (some : rules ≠ [])
    (next : join c rule last = .ok both) : Joined c (rules ++ [last]) both := by
  obtain ⟨-, rfl⟩ := join_eq_ok_iff.1 next
  have length : (rules ++ [last]).length = rules.length + 1 := by simp
  have many : rules.length ≠ 0 := by simpa using some
  refine ⟨?_, ?_, ?_⟩
  · rw [joinedHeight_concat some, ← joined.height]
    rfl
  · intro i inside
    rw [length] at inside ⊢
    by_cases earlier : i < rules.length
    · rw [place_succ earlier, List.getElem?_append_left earlier, ← joined.inPlace i earlier]
      rfl
    · obtain rfl : i = rules.length := by omega
      rw [place_last many, List.getElem?_concat_length]
      exact at?_cons_eq_some_iff.2 ⟨last, rfl, at?_nil last⟩
  · intro k few
    rw [length] at few
    cases k with
    | zero => exact ⟨_, rule, last, at?_nil _⟩
    | succ k =>
        obtain ⟨height, left, right, found⟩ := joined.above k (by omega)
        exact ⟨height, left, right, at?_cons_eq_some_iff.2 ⟨rule, rfl, found⟩⟩

/-- The induction is on the list from its end, where one join after the other is done. -/
theorem joined_of_joinAll (done : joinAll c rules = .ok rule) : Joined c rules rule := by
  induction rules using List.reverseRecOn generalizing rule with
  | nil => cases done
  | append_singleton rules last ih =>
      by_cases none : rules = []
      · subst none
        cases done
        exact joined_singleton c last
      · rw [joinAll_concat c none] at done
        obtain ⟨others, doneOthers, next⟩ := bind_eq_ok_iff.1 done
        exact (ih doneOthers).concat none next

/-- Rules that may stand alone are joined unless the whole has too many levels. -/
theorem joinAll_eq_error_iff (some : rules ≠ []) (low : ∀ rule ∈ rules, rule.height ≤ maxHeight)
    {error : Error} : joinAll c rules = .error error ↔
      maxHeight < joinedHeight rules ∧ error = .nestingTooDeep := by
  induction rules using List.reverseRecOn generalizing error with
  | nil => exact absurd rfl some
  | append_singleton rules last ih =>
      obtain ⟨lowOthers, lowLast⟩ := List.forall_mem_append.1 low
      by_cases none : rules = []
      · subst none
        have alone := lowLast last (List.mem_singleton.2 rfl)
        have done : joinAll c ([] ++ [last]) = .ok last := rfl
        rw [done, List.nil_append, joinedHeight_singleton]
        simp only [reduceCtorEq, false_iff]
        omega
      · rw [joinAll_concat c none, bind_eq_error_iff, joinedHeight_concat none]
        cases done : joinAll c rules with
        | error other =>
            -- refused on the way, and one rule more does not make the whole lower
            obtain ⟨tall, rfl⟩ := (ih none lowOthers).1 done
            constructor
            · rintro (same | ⟨rule, same, -⟩)
              · cases same
                exact ⟨by omega, rfl⟩
              · cases same
            · rintro ⟨-, rfl⟩
              exact .inl rfl
        | ok others =>
            rw [← (joined_of_joinAll done).height]
            constructor
            · rintro (same | ⟨rule, same, next⟩)
              · cases same
              · cases same
                exact join_eq_error_iff.1 next
            · intro tall
              exact .inr ⟨others, rfl, join_eq_error_iff.2 tall⟩

theorem exists_joinAll (some : rules ≠ []) (low : ∀ rule ∈ rules, rule.height ≤ maxHeight)
    (fits : joinedHeight rules ≤ maxHeight) : ∃ rule, joinAll c rules = .ok rule := by
  cases done : joinAll c rules with
  | ok rule => exact ⟨rule, rfl⟩
  | error error => exact absurd ((joinAll_eq_error_iff some low).1 done).1 (Nat.not_lt.2 fits)

end Criteria.Rule
