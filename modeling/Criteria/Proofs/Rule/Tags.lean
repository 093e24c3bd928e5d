/-
# Criteria.Proofs.Rule.Tags -- tagging writes tags and nothing else

The node at the end of a path gets the tag of the root plus the length of the path
(`at?_retag`), so the greatest tag of a rule stands at its deepest leaves. That is
why the sums stay inside the words exactly if the start leaves room for the levels of
the rule: `retag?` tags like `retag` but gives up at the first sum that a word cannot
hold, and it gives up on no rule that has room (`retag?_eq_some_iff`).

What a node says apart from its tag is its `content`. Tagging keeps it at every path,
and whatever is made of the contents alone, such as the text of a rule, its outcome,
or a later tagging, is what it was.
-/
import Criteria.Proofs.Rule.FromTexts
import Criteria.Proofs.Rule.Heights

namespace Criteria.Rule

set_option autoImplicit false

/-! ## Sums that fit into a word -/

/-- The tag one level further down, if a word can hold it. -/
def nextTag? (tag : UInt32) : Option UInt32 :=
  if tag.toNat + 1 < UInt32.size then some (tag + 1) else none

/-- Tags every node with its depth and adds up nothing that a word cannot hold. -/
def retag? (start : UInt32) : Rule → Option Rule
  | leaf _ clause => some (leaf start clause)
  | node _ height connective left right => do
      let next ← nextTag? start
      return node start height connective (← left.retag? next) (← right.retag? next)

theorem toNat_add_ofNat {tag : UInt32} {n : Nat} (room : tag.toNat + n < UInt32.size) :
    (tag + UInt32.ofNat n).toNat = tag.toNat + n := by
  have small : n < UInt32.size := by omega
  rw [UInt32.toNat_add, UInt32.toNat_ofNat', Nat.mod_eq_of_lt small, Nat.mod_eq_of_lt room]

theorem nextTag?_eq_some_iff {tag next : UInt32} :
    nextTag? tag = some next ↔ next.toNat = tag.toNat + 1 ∧ next = tag + 1 := by
  unfold nextTag?
  split
  · rename_i room
    have value : (tag + 1).toNat = tag.toNat + 1 := toNat_add_ofNat room
    rw [Option.some.injEq]
    constructor
    · rintro rfl
      exact ⟨value, rfl⟩
    · rintro ⟨-, rfl⟩
      rfl
  · rename_i full
    have := next.toNat_lt_size
    simp only [reduceCtorEq, false_iff]
    omega

/-- Only the levels of a rule decide whether there is room for its tags. -/
theorem retag?_eq_some_iff {rule result : Rule} {start : UInt32} :
    rule.retag? start = some result ↔
      start.toNat + rule.levels ≤ UInt32.size ∧ result = rule.retag start := by
  induction rule generalizing start result with
  | leaf tag clause =>
      have := start.toNat_lt_size
      rw [retag?, retag, Option.some.injEq, levels, eq_comm]
      constructor
      · intro same
        exact ⟨this, same⟩
      · exact And.right
  | node tag height connective left right ihLeft ihRight =>
      simp only [retag?, Option.bind_eq_bind, Option.bind_eq_some_iff, Option.pure_def,
        Option.some.injEq, nextTag?_eq_some_iff, ihLeft, ihRight, levels]
      constructor
      · rintro ⟨next, ⟨value, rfl⟩, _, ⟨roomLeft, rfl⟩, _, ⟨roomRight, rfl⟩, rfl⟩
        exact ⟨by omega, rfl⟩
      · rintro ⟨room, rfl⟩
        -- the children have a level less, and start one tag later
        have value : (start + 1).toNat = start.toNat + 1 := by
          have := left.one_le_levels
          have fits : start.toNat + 1 < UInt32.size := by omega
          exact toNat_add_ofNat fits
        exact ⟨start + 1, ⟨value, rfl⟩, _, ⟨by omega, rfl⟩, _, ⟨by omega, rfl⟩, rfl⟩

/-! ## The node at the end of a path -/

/-- What a node says apart from its tag and its children. -/
def content (node : Rule) : Kind × Option String × Nat :=
  (node.kind, node.clause?, node.height)

@[simp] theorem tag_retag (rule : Rule) (start : UInt32) : (rule.retag start).tag = start := by
  cases rule <;> rfl

@[simp] theorem content_retag (rule : Rule) (start : UInt32) :
    (rule.retag start).content = rule.content := by
  cases rule <;> rfl

@[simp] theorem text_retag (rule : Rule) (start : UInt32) :
    (rule.retag start).text = rule.text := by
  induction rule generalizing start with
  | leaf => rfl
  | node tag height connective left right ihLeft ihRight =>
      rw [retag, text, text, ihLeft, ihRight]

theorem child?_retag (rule : Rule) (start : UInt32) (branch : Branch) :
    (rule.retag start).child? branch = (rule.child? branch).map (retag (start + 1)) := by
  cases rule with
  | leaf => rfl
  | node => cases branch <;> rfl

/-- Going down and tagging can change places, the tags then start further down. -/
theorem at?_retag (rule : Rule) (start : UInt32) (path : List Branch) :
    (rule.retag start).at? path =
      (rule.at? path).map (retag (start + UInt32.ofNat path.length)) := by
  have down (n : Nat) (rule : Rule) (branch : Branch) :
      (rule.retag (start + UInt32.ofNat n)).child? branch =
        (rule.child? branch).map (retag (start + UInt32.ofNat (n + 1))) := by
    rw [child?_retag, UInt32.ofNat_add, ← UInt32.add_assoc]
    rfl
  have all := at?_of_child? down 0 rule path
  have none : start + UInt32.ofNat 0 = start := UInt32.add_zero start
  rwa [none, Nat.zero_add] at all

/-- No tag is greater than that of the longest paths. -/
theorem tag_at?_retag {rule : Rule} {start : UInt32}
    (room : start.toNat + rule.levels ≤ UInt32.size) (path : List Branch) :
    ((rule.retag start).at? path).map (·.tag.toNat) =
      (rule.at? path).map fun _ => start.toNat + path.length := by
  rw [at?_retag, Option.map_map]
  cases found : rule.at? path with
  | none => rfl
  | some node =>
      have short := rule.longest_levels.bound path (by rw [found]; rfl)
      have fits : start.toNat + path.length < UInt32.size := by omega
      have value := toNat_add_ofNat fits
      simp only [Option.map_some, Function.comp_apply, tag_retag, value]

theorem content_at?_retag (rule : Rule) (start : UInt32) (path : List Branch) :
    ((rule.retag start).at? path).map content = (rule.at? path).map content := by
  rw [at?_retag, Option.map_map]
  apply Option.map_congr
  intro node _
  exact node.content_retag _

/-! ## Tagging as a whole -/

theorem tag_at?_of_parse {text : String} {rule : Rule} (read : parse text = .ok rule)
    (path : List Branch) :
    (rule.at? path).map (·.tag.toNat) = (rule.at? path).map fun _ => 1 + path.length := by
  have low : rule.levels ≤ maxHeight := (parse_sound read).levels_le
  have room : rootTag.toNat + rule.levels ≤ UInt32.size := by
    have first : rootTag.toNat + maxHeight ≤ UInt32.size := by decide
    omega
  have tags := tag_at?_retag room path
  rwa [retag_of_parse read] at tags

/-- Tagging from a start that leaves room for the height of a rule gives every node
the start plus the length of its path, without a sum that a word cannot hold, and
changes nothing else: not what the nodes say apart from their tags, not the text, the
outcomes or a later tagging. Less room is too little. A rule that was read is tagged
from 1. -/
theorem retag_frame :
    (∀ rule, Built rule → ∀ start : UInt32,
      (rule.retag? start = some (rule.retag start) ↔
        start.toNat + rule.height - 1 ≤ 4294967295) ∧
      (start.toNat + rule.height - 1 ≤ 4294967295 →
        ∀ path, ((rule.retag start).at? path).map (·.tag.toNat) =
          (rule.at? path).map fun _ => start.toNat + path.length) ∧
      (∀ path, ((rule.retag start).at? path).map content = (rule.at? path).map content) ∧
      (rule.retag start).text = rule.text ∧
      (∀ record, evaluate record (rule.retag start) = evaluate record rule) ∧
      ∀ other : UInt32, (rule.retag start).retag other = rule.retag other) ∧
    ∀ text rule, parse text = .ok rule → ∀ path,
      (rule.at? path).map (·.tag.toNat) = (rule.at? path).map fun _ => 1 + path.length := by
  refine ⟨?_, ?_⟩
  · intro rule built start
    have bound : start.toNat + rule.height - 1 ≤ 4294967295 ↔
        start.toNat + rule.levels ≤ UInt32.size := by
      have some := rule.one_le_levels
      have size : UInt32.size = 4294967296 := rfl
      rw [built.sound.height_eq, size]
      constructor
      · intro low
        omega
      · intro room
        omega
    refine ⟨?_, ?_, content_at?_retag rule start, text_retag rule start, ?_, ?_⟩
    · rw [retag?_eq_some_iff, bound]
      exact and_iff_left rfl
    · intro room
      exact tag_at?_retag (bound.1 room)
    · intro record
      exact evaluate_retag record rule start
    · intro other
      exact retag_retag rule start other
  · intro text rule read
    exact tag_at?_of_parse read

/-- The tallest rule, tagged up to the last word there is, and one further. -/
theorem retag_frame_at_the_bound :
    Built (tower 255) ∧
      (tower 255).retag? 4294967040 = some ((tower 255).retag 4294967040) ∧
      (((tower 255).retag 4294967040).at? (List.replicate 255 .left)).map (·.tag.toNat) =
        some 4294967295 ∧
      (tower 255).retag? 4294967041 ≠ some ((tower 255).retag 4294967041) := by
  have built : Built (tower 255) := built_tower (by decide)
  have height : (tower 255).height = 256 := height_tower 255
  have inside : (tower 255).at? (List.replicate 255 .left) = some (tower 0) := by
    decide +kernel
  have room : (4294967040 : UInt32).toNat + (tower 255).height - 1 ≤ 4294967295 := by
    rw [height]
    decide
  have full : ¬ (4294967041 : UInt32).toNat + (tower 255).height - 1 ≤ 4294967295 := by
    rw [height]
    decide
  obtain ⟨fits, tags, -⟩ := retag_frame.1 _ built 4294967040
  obtain ⟨fits', -⟩ := retag_frame.1 _ built 4294967041
  have last := tags room (List.replicate 255 .left)
  rw [inside, Option.map_some, List.length_replicate] at last
  exact ⟨built, fits.2 room, last, fun fit => full (fits'.1 fit)⟩

end Criteria.Rule
