/-
# Criteria.Proofs.Rule.Heights -- the stored heights of a built rule are true

The height of a node is stored when the node is made and trusted ever after.
`Built` is closed under every operation that gives out a rule, also those that go
through a document, a cache, a cursor or a list of texts, and at every node of a
built rule the height is that of its longest paths (`Built.longest_height`). So
`join` refuses by the true height (`Built.join_eq_error_iff`), and two built rules
are equal as soon as they agree in all but the heights (`Built.eq_iff_alike`).
-/
import Criteria.Proofs.Engine.Replies
import Criteria.Proofs.Rule.Built
import Criteria.Proofs.Rule.Paths

namespace Criteria.Rule

set_option autoImplicit false

/-! ## Further ways to a rule -/

theorem built_toRule {document : Document} {rule : Rule} (made : document.toRule = .ok rule) :
    Built rule :=
  built_iff_sound.2 (Document.sound_toRule made)

/-- What a cache gives out was read, whatever has been asked of it before. -/
theorem built_fetch {settings : Settings} {history : List Engine.Request} {text : String}
    {rule : Rule} (given : ((Engine.after settings history).cache.fetch text).1 = .ok rule) :
    Built rule := by
  rw [(Engine.faithful_after settings history).fetch_fst] at given
  exact .parse given

theorem Built.at? {rule node : Rule} {path : List Branch} (built : Built rule)
    (found : rule.at? path = some node) : Built node :=
  built_iff_sound.2 (built.sound.at? found)

theorem built_cursor {cursor : Cursor} (built : Built cursor.root) : Built cursor.rule := by
  obtain ⟨path, found⟩ := cursor.root.exists_at?_descend cursor.path
  exact built.at? found

/-! ## What is stored -/

theorem Built.longest_height {rule : Rule} (built : Built rule) : rule.Longest rule.height :=
  longest_iff.2 built.sound.height_eq

theorem Built.height_le {rule : Rule} (built : Built rule) : rule.height ≤ maxHeight := by
  rw [built.sound.height_eq]
  exact built.sound.levels_le

theorem Built.join_eq_error_iff {left right : Rule} (builtLeft : Built left)
    (builtRight : Built right) {c : Connective} {n : Nat}
    (longest : (node 0 n c left right).Longest n) {error : Error} :
    Rule.join c left right = .error error ↔ error = .nestingTooDeep ∧ maxHeight < n := by
  have same : n = 1 + max left.height right.height := by
    rw [builtLeft.sound.height_eq, builtRight.sound.height_eq]
    exact longest_iff.1 longest
  rw [Rule.join_eq_error_iff, same, and_comm]

/-! ## Equality -/

/-- The same tree with the same connectives, clauses and tags, whatever heights
are stored. -/
def Alike : Rule → Rule → Prop
  | leaf tag clause, leaf tag' clause' => tag = tag' ∧ clause = clause'
  | node tag _ c left right, node tag' _ c' left' right' =>
      tag = tag' ∧ c = c' ∧ left.Alike left' ∧ right.Alike right'
  | leaf _ _, node _ _ _ _ _ => False
  | node _ _ _ _ _, leaf _ _ => False

theorem alike_refl (rule : Rule) : rule.Alike rule := by
  induction rule with
  | leaf => exact ⟨rfl, rfl⟩
  | node tag height c left right ihLeft ihRight => exact ⟨rfl, rfl, ihLeft, ihRight⟩

theorem Sound.eq_of_alike {rule other : Rule} (sound : rule.Sound) (sound' : other.Sound)
    (alike : rule.Alike other) : rule = other := by
  induction rule generalizing other with
  | leaf tag clause =>
      cases other with
      | leaf tag' clause' => obtain ⟨rfl, rfl⟩ := alike; rfl
      | node => cases alike
  | node tag height c left right ihLeft ihRight =>
      cases other with
      | leaf => cases alike
      | node tag' height' c' left' right' =>
          obtain ⟨rfl, rfl, alikeLeft, alikeRight⟩ := alike
          obtain ⟨same, -, soundLeft, soundRight⟩ := sound_node_iff.1 sound
          obtain ⟨same', -, soundLeft', soundRight'⟩ := sound_node_iff.1 sound'
          obtain rfl := ihLeft soundLeft soundLeft' alikeLeft
          obtain rfl := ihRight soundRight soundRight' alikeRight
          rw [same, same']

theorem Built.eq_iff_alike {rule other : Rule} (built : Built rule) (built' : Built other) :
    rule = other ↔ rule.Alike other := by
  constructor
  · rintro rfl
    exact rule.alike_refl
  · exact built.sound.eq_of_alike built'.sound

/-! ## Every operation, every node -/

/-- Every operation gives built rules from built rules, and these store at each
node the number of nodes on its longest paths, which is never more than 256. Two
of them are joined unless the rule over both would have longer paths, and are
equal if they look alike. -/
theorem heights_of_built :
    (∀ c texts rule, combine c texts = .ok rule → Built rule) ∧
    (∀ settings history text rule,
      ((Engine.after settings history).cache.fetch text).1 = .ok rule → Built rule) ∧
    (∀ (document : Document) rule, document.toRule = .ok rule → Built rule) ∧
    (∀ cursor : Cursor, Built cursor.root → Built cursor.rule) ∧
    (∀ rule, Built rule → ∀ path node, rule.at? path = some node →
      node.Longest node.height ∧ node.height ≤ 256) ∧
    (∀ left right, Built left → Built right →
      (∀ c n error, (node 0 n c left right).Longest n →
        (join c left right = .error error ↔ error = .nestingTooDeep ∧ 256 < n)) ∧
      (left = right ↔ left.Alike right)) ∧
    Error.nestingTooDeep.message? = some "Rule nests deeper than 256 levels" := by
  refine ⟨?_, ?_, ?_, ?_, ?_, ?_, by decide⟩
  · intro c texts rule combined
    exact built_combine combined
  · intro settings history text rule given
    exact built_fetch given
  · intro document rule made
    exact built_toRule made
  · intro cursor built
    exact built_cursor built
  · intro rule built path node found
    have builtNode := built.at? found
    exact ⟨builtNode.longest_height, builtNode.height_le⟩
  · intro left right builtLeft builtRight
    refine ⟨?_, builtLeft.eq_iff_alike builtRight⟩
    intro c n error longest
    exact builtLeft.join_eq_error_iff builtRight longest

/-- One clause under so many connectives. -/
def tower : Nat → Rule
  | 0 => ofClause "a"
  | n + 1 => node 0 (n + 2) .or (tower n) (ofClause "b")

theorem height_tower (n : Nat) : (tower n).height = n + 1 := by
  cases n <;> rfl

theorem built_tower {n : Nat} (low : n < maxHeight) : Built (tower n) := by
  induction n with
  | zero => exact .ofClause "a"
  | succ n ih =>
      have levels : 1 + max (tower n).height (ofClause "b").height = n + 2 := by
        have one : (ofClause "b").height = 1 := rfl
        rw [height_tower, one]
        omega
      have joined : Rule.join .or (tower n) (ofClause "b") = .ok (tower (n + 1)) := by
        rw [join_eq_ok_iff, levels]
        exact ⟨low, rfl⟩
      exact .join (ih (Nat.lt_of_succ_lt low)) (.ofClause "b") joined

/-- The tallest rule that there is, one of its nodes, and one node too many. -/
theorem heights_of_built_at_the_bound :
    Built (tower 255) ∧ (tower 255).Longest 256 ∧
      (tower 255).at? (List.replicate 200 .left) = some (tower 55) ∧ (tower 55).Longest 56 ∧
      join .and (tower 255) (ofClause "c") = .error .nestingTooDeep := by
  obtain ⟨-, -, -, -, nodes, pairs, -⟩ := heights_of_built
  have built : Built (tower 255) := built_tower (by decide)
  have inside : (tower 255).at? (List.replicate 200 .left) = some (tower 55) := by
    decide +kernel
  have taller : (node 0 257 .and (tower 255) (ofClause "c")).Longest 257 := by
    rw [longest_iff, levels, ← built.sound.height_eq, height_tower]
    rfl
  exact ⟨built, (nodes _ built [] _ (at?_nil _)).1, inside, (nodes _ built _ _ inside).1,
    ((pairs _ _ built (.ofClause "c")).1 .and 257 _ taller).2 ⟨rfl, by decide⟩⟩

end Criteria.Rule
