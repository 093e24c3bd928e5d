/-
# Criteria.Proofs.Rule.Paths -- the nodes of a rule by their paths

A node stands at the end of a path, the branches taken from the root; a path that
a leaf cuts short leads nowhere (`Rule.at?`). `Longest` says what the height of a
rule ought to be without going through the rule: no path is longer, and one path
is as long. The number of levels is that (`longest_iff`).
-/
import Criteria.Proofs.Rule.Levels
import Criteria.Rule.Cursor

namespace Criteria.Rule

set_option autoImplicit false

/-- The node at the end of a path, if the path stays inside the rule. -/
def at? : Rule → List Branch → Option Rule
  | rule, [] => some rule
  | rule, branch :: path => (rule.child? branch).bind fun child => child.at? path

variable {rule node : Rule} {path : List Branch}

@[simp] theorem at?_nil (rule : Rule) : rule.at? [] = some rule := by
  cases rule <;> rfl

theorem at?_cons_eq_some_iff {branch : Branch} : rule.at? (branch :: path) = some node ↔
    ∃ child, rule.child? branch = some child ∧ child.at? path = some node := by
  rw [at?, Option.bind_eq_some_iff]

theorem at?_append (rule : Rule) (path below : List Branch) :
    rule.at? (path ++ below) = (rule.at? path).bind fun node => node.at? below := by
  induction path generalizing rule with
  | nil => rw [List.nil_append, at?_nil, Option.bind_some]
  | cons branch path ih =>
      rw [List.cons_append, at?, at?, Option.bind_assoc]
      simp only [ih]

/-- What goes down along every branch goes down along every path; `n` is the depth. -/
theorem at?_of_child? {image : Nat → Rule → Rule} (down : ∀ n rule branch,
      (image n rule).child? branch = (rule.child? branch).map (image (n + 1)))
    (n : Nat) (rule : Rule) (path : List Branch) :
    (image n rule).at? path = (rule.at? path).map (image (n + path.length)) := by
  induction path generalizing n rule with
  | nil => rw [at?_nil, at?_nil, List.length_nil, Nat.add_zero, Option.map_some]
  | cons branch path ih =>
      rw [at?, at?, down, List.length_cons, Nat.add_comm path.length, ← Nat.add_assoc]
      cases rule.child? branch with
      | none => rfl
      | some child => exact ih (n + 1) child

/-- A path that stays inside the rule is followed to its end. -/
theorem descend_of_at? (found : rule.at? path = some node) : rule.descend path = node := by
  induction path generalizing rule with
  | nil => simpa [descend] using found
  | cons branch path ih =>
      obtain ⟨child, below, found⟩ := at?_cons_eq_some_iff.1 found
      simp only [descend, below]
      exact ih found

/-- Following a path as far as it leads ends at a node in any case. -/
theorem exists_at?_descend (rule : Rule) (path : List Branch) :
    ∃ reached, rule.at? reached = some (rule.descend path) := by
  induction path generalizing rule with
  | nil => exact ⟨[], by simp [descend]⟩
  | cons branch path ih =>
      cases below : rule.child? branch with
      | none => exact ⟨[], by simp [descend, below]⟩
      | some child =>
          obtain ⟨reached, found⟩ := ih child
          refine ⟨branch :: reached, ?_⟩
          simp only [descend, below]
          exact at?_cons_eq_some_iff.2 ⟨child, below, found⟩

theorem Sound.at? (sound : rule.Sound) (found : rule.at? path = some node) : node.Sound := by
  induction path generalizing rule with
  | nil =>
      rw [at?_nil, Option.some.injEq] at found
      exact found ▸ sound
  | cons branch path ih =>
      obtain ⟨child, below, found⟩ := at?_cons_eq_some_iff.1 found
      exact ih (sound.child below) found

/-! ## Longest paths -/

/-- The longest paths down from the root have this many nodes. -/
structure Longest (rule : Rule) (n : Nat) : Prop where
  bound : ∀ path, (rule.at? path).isSome → path.length + 1 ≤ n
  reached : ∃ path, (rule.at? path).isSome ∧ path.length + 1 = n

theorem Longest.unique {n m : Nat} (longest : rule.Longest n) (longest' : rule.Longest m) :
    n = m := by
  obtain ⟨path, inside, rfl⟩ := longest.reached
  obtain ⟨path', inside', rfl⟩ := longest'.reached
  exact Nat.le_antisymm (longest'.bound path inside) (longest.bound path' inside')

theorem longest_levels (rule : Rule) : rule.Longest rule.levels := by
  induction rule with
  | leaf tag clause =>
      refine ⟨?_, [], rfl, rfl⟩
      rintro (_ | ⟨branch, path⟩) inside
      · exact Nat.le_refl 1
      · cases inside
  | node tag height connective left right ihLeft ihRight =>
      refine ⟨?_, ?_⟩
      · rintro (_ | ⟨_ | _, path⟩) inside
        · simp [levels]
        · have := ihLeft.bound path inside
          simp only [levels, List.length_cons]
          omega
        · have := ihRight.bound path inside
          simp only [levels, List.length_cons]
          omega
      · obtain ⟨pathLeft, insideLeft, sameLeft⟩ := ihLeft.reached
        obtain ⟨pathRight, insideRight, sameRight⟩ := ihRight.reached
        -- the longer of the two sides goes on the longest path
        by_cases higher : right.levels ≤ left.levels
        · refine ⟨.left :: pathLeft, insideLeft, ?_⟩
          simp only [levels, List.length_cons]
          omega
        · refine ⟨.right :: pathRight, insideRight, ?_⟩
          simp only [levels, List.length_cons]
          omega

theorem longest_iff {n : Nat} : rule.Longest n ↔ n = rule.levels := by
  constructor
  · intro longest
    exact longest.unique rule.longest_levels
  · rintro rfl
    exact rule.longest_levels

end Criteria.Rule
