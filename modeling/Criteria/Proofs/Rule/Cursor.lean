/-
# Criteria.Proofs.Rule.Cursor -- a cursor stands at the node at the end of its path

A cursor keeps the root and a path, and goes down that path anew whenever its node is
asked for, as far as it leads. So a path that led nowhere would go unnoticed. No cursor
has one: it starts at the root and moves only where there is a child
(`StandsIn.child?`), so wherever a sequence of moves leads, the path stays inside the
rule and is followed to its end (`StandsIn.follow?`), and the moves that can be made
are just the paths of the rule (`StandsIn.follow?_eq`). What is known of the node at the
end of a path, its height and its tag, is then known of the node of a cursor.
-/
import Criteria.Proofs.Rule.Tags

namespace Criteria.Rule

set_option autoImplicit false

variable {rule : Rule} {path : List Branch} {branch : Branch}

/-! ## Nodes and their heights -/

theorem isSome_child?_iff (rule : Rule) (branch : Branch) :
    (rule.child? branch).isSome ↔ rule.connective?.isSome := by
  cases rule with
  | leaf => rfl
  | node => cases branch <;> rfl

/-- A longest path down from a node of a rule goes on the path to that node. -/
theorem Built.length_add_height_le {node : Rule} (built : Built rule)
    (found : rule.at? path = some node) : path.length + node.height ≤ rule.height := by
  obtain ⟨below, inside, same⟩ := (built.at? found).longest_height.reached
  have whole : (rule.at? (path ++ below)).isSome := by
    rw [at?_append, found, Option.bind_some]
    exact inside
  have bound := built.longest_height.bound _ whole
  rw [List.length_append] at bound
  omega

namespace Cursor

/-- The cursor after a sequence of moves, if each of them can be made. -/
def follow? (cursor : Cursor) (branches : List Branch) : Option Cursor :=
  branches.foldlM child? cursor

/-- The cursor belongs to the rule, and its node is the one at the end of its path. -/
structure StandsIn (cursor : Cursor) (rule : Rule) : Prop where
  root : cursor.root = rule
  here : rule.at? cursor.path = some cursor.rule

variable {cursor next : Cursor}

theorem standsIn_atRoot (rule : Rule) : (atRoot rule).StandsIn rule where
  root := rfl
  here := by
    rw [atRoot, at?_nil]
    rfl

/-- A move leads to the child, and takes the path with it. -/
theorem StandsIn.child? (stands : cursor.StandsIn rule) (moved : cursor.child? branch = some next) :
    next.StandsIn rule ∧ next.path = cursor.path ++ [branch] ∧
      cursor.rule.child? branch = some next.rule := by
  obtain ⟨present, rfl⟩ := child?_eq_some_iff.1 moved
  obtain ⟨child, below⟩ := Option.isSome_iff_exists.1 present
  have found : rule.at? (cursor.path ++ [branch]) = some child := by
    rw [at?_append, stands.here, Option.bind_some]
    exact at?_cons_eq_some_iff.2 ⟨child, below, at?_nil child⟩
  have same : Cursor.rule ⟨cursor.root, cursor.path ++ [branch]⟩ = child := by
    rw [Cursor.rule, stands.root]
    exact descend_of_at? found
  rw [same]
  exact ⟨⟨stands.root, found.trans (congrArg _ same.symm)⟩, rfl, below⟩

theorem isSome_child?_iff (cursor : Cursor) (branch : Branch) :
    (cursor.child? branch).isSome ↔ cursor.rule.connective?.isSome := by
  rw [child?, Option.isSome_map, Rule.isSome_child?_iff]

theorem StandsIn.follow? (stands : cursor.StandsIn rule)
    (moved : cursor.follow? path = some next) : next.StandsIn rule := by
  induction path generalizing cursor with
  | nil =>
      cases moved
      exact stands
  | cons branch path ih =>
      rw [Cursor.follow?, List.foldlM_cons, Option.bind_eq_bind, Option.bind_eq_some_iff] at moved
      obtain ⟨middle, first, others⟩ := moved
      exact ih (stands.child? first).1 others

/-- The moves that can be made are the paths of the node. -/
theorem StandsIn.follow?_eq (stands : cursor.StandsIn rule) (path : List Branch) :
    cursor.follow? path = (cursor.rule.at? path).map fun _ => ⟨rule, cursor.path ++ path⟩ := by
  induction path generalizing cursor with
  | nil =>
      rw [at?_nil, List.append_nil, Option.map_some, ← stands.root]
      rfl
  | cons branch path ih =>
      rw [Cursor.follow?, List.foldlM_cons, at?]
      cases moved : cursor.child? branch with
      | none =>
          rw [Cursor.child?, Option.map_eq_none_iff] at moved
          rw [moved]
          rfl
      | some next =>
          obtain ⟨stands', longer, below⟩ := stands.child? moved
          rw [below, Option.bind_some, Option.bind_eq_bind, Option.bind_some]
          have rest := ih stands'
          rw [longer, List.append_assoc] at rest
          exact rest

theorem follow?_atRoot (rule : Rule) (path : List Branch) :
    (atRoot rule).follow? path = (rule.at? path).map fun _ => ⟨rule, path⟩ :=
  (standsIn_atRoot rule).follow?_eq path

theorem path_of_follow? (moved : (atRoot rule).follow? path = some cursor) :
    cursor.path = path := by
  rw [follow?_atRoot, Option.map_eq_some_iff] at moved
  obtain ⟨-, -, rfl⟩ := moved
  rfl

/-! ## The tags on the way -/

theorem StandsIn.tag_of_retag {start : UInt32} (stands : cursor.StandsIn (rule.retag start)) :
    cursor.rule.tag = start + UInt32.ofNat cursor.path.length := by
  have here := stands.here
  rw [at?_retag, Option.map_eq_some_iff] at here
  obtain ⟨node, -, same⟩ := here
  rw [← same, tag_retag]

theorem StandsIn.toNat_tag_of_retag {start : UInt32} (stands : cursor.StandsIn (rule.retag start))
    (room : start.toNat + rule.levels ≤ UInt32.size) :
    cursor.rule.tag.toNat = start.toNat + cursor.path.length := by
  have tags := tag_at?_retag room cursor.path
  rw [stands.here, Option.map_some, eq_comm, Option.map_eq_some_iff] at tags
  obtain ⟨_, -, same⟩ := tags
  exact same.symm

/-- Every cursor that moves from the root of a rule lead to stands at the node at the
end of its path, which is there, and still belongs to that rule. It can be moved
on if and only if the node has a connective, and then to the child, with the path
longer by the branch; so the sequences of moves are the paths of the rule. Nowhere do
the path and what is below it come to more than the height of the rule, and each move
adds one to the tag. -/
theorem follow?_from_root (rule : Rule) :
    (∀ path cursor, (atRoot rule).follow? path = some cursor →
      cursor.root = rule ∧ cursor.path = path ∧ rule.at? path = some cursor.rule ∧
      (∀ branch, (cursor.child? branch).isSome ↔ cursor.rule.connective?.isSome) ∧
      (∀ branch next, cursor.child? branch = some next →
        next.root = rule ∧ next.path = path ++ [branch] ∧
          cursor.rule.child? branch = some next.rule) ∧
      (Built rule → path.length + cursor.rule.height ≤ rule.height)) ∧
    (∀ path, (atRoot rule).follow? path = (rule.at? path).map fun _ => ⟨rule, path⟩) ∧
    ∀ start path cursor, (atRoot (rule.retag start)).follow? path = some cursor →
      cursor.rule.tag = start + UInt32.ofNat path.length ∧
        ((rule.retag? start).isSome → cursor.rule.tag.toNat = start.toNat + path.length) := by
  refine ⟨?_, follow?_atRoot rule, ?_⟩
  · intro path cursor moved
    have stands := (standsIn_atRoot rule).follow? moved
    obtain rfl := path_of_follow? moved
    refine ⟨stands.root, rfl, stands.here, isSome_child?_iff cursor, ?_, ?_⟩
    · intro branch next further
      obtain ⟨stands', longer, below⟩ := stands.child? further
      exact ⟨stands'.root, longer, below⟩
    · intro built
      exact built.length_add_height_le stands.here
  · intro start path cursor moved
    have stands := (standsIn_atRoot (rule.retag start)).follow? moved
    obtain rfl := path_of_follow? moved
    refine ⟨stands.tag_of_retag, ?_⟩
    intro fits
    obtain ⟨tagged, fits⟩ := Option.isSome_iff_exists.1 fits
    exact stands.toNat_tag_of_retag (retag?_eq_some_iff.1 fits).1

/-- Down to the lowest leaf of the tallest rule, which has the last tag there is. -/
theorem follow?_from_root_at_the_bound :
    ∃ cursor, (atRoot ((tower 255).retag 4294967040)).follow? (List.replicate 255 .left) =
        some cursor ∧ Built ((tower 255).retag 4294967040) ∧
      cursor.child? .left = none ∧ cursor.rule.tag.toNat = 4294967295 ∧
      255 + cursor.rule.height ≤ 256 := by
  have built : Built (tower 255) := built_tower (by decide)
  have inside : ((tower 255).retag 4294967040).at? (List.replicate 255 .left) =
      some (leaf 4294967295 "a") := by
    decide +kernel
  have height : ((tower 255).retag 4294967040).height = 256 := by
    rw [height_retag, height_tower]
  have fits : ((tower 255).retag? 4294967040).isSome := by decide +kernel
  obtain ⟨nodes, moves, -⟩ := follow?_from_root ((tower 255).retag 4294967040)
  obtain ⟨-, -, tags⟩ := follow?_from_root (tower 255)
  have moved := moves (List.replicate 255 .left)
  rw [inside, Option.map_some] at moved
  obtain ⟨-, -, here, goesOn, -, low⟩ := nodes _ _ moved
  have lowest := Option.some.inj (here.symm.trans inside)
  have ended := mt (goesOn .left).1 (by rw [lowest]; exact Bool.false_ne_true)
  have bound := low (.retag built _)
  rw [height, List.length_replicate] at bound
  have last := (tags _ _ _ moved).2 fits
  rw [List.length_replicate] at last
  exact ⟨_, moved, .retag built _, Option.not_isSome_iff_eq_none.1 ended, last, bound⟩

end Cursor

end Criteria.Rule
