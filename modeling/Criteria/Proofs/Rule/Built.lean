/-
# Criteria.Proofs.Rule.Built -- the rules that can be built are the sound ones

`Built` closes the clauses under everything that gives a rule: joining two or a
list, reading a text or a document, tagging, and going down to a child. Each of
them gives sound rules from sound rules, so every rule that can be built is
sound, whatever order of steps led to it; and as a sound rule is read back from
its own text, there are no others (`built_iff_sound`).
-/
import Criteria.Proofs.Assembly.Outcome
import Criteria.Proofs.Rule.RoundTrip

namespace Criteria

set_option autoImplicit false

/-- A document builds a rule if and only if the rule says what the document says,
and then it has passed through `join` at every node. -/
theorem Document.toRule_eq_ok_iff {document : Document} {rule : Rule} :
    document.toRule = .ok rule ↔ rule.Sound ∧ rule.toDocument = document := by
  constructor
  · intro built
    fun_induction toRule document generalizing rule with
    | case1 tag clause => cases built; exact ⟨trivial, rfl⟩
    | case2 => cases built
    | case3 connective tag left right ihLeft ihRight =>
        obtain ⟨ruleLeft, builtLeft, built⟩ := bind_eq_ok_iff.1 built
        obtain ⟨ruleRight, builtRight, built⟩ := bind_eq_ok_iff.1 built
        obtain ⟨soundLeft, sameLeft⟩ := ihLeft builtLeft
        obtain ⟨soundRight, sameRight⟩ := ihRight builtRight
        split at built
        · rename_i both joined
          cases built
          refine ⟨(soundLeft.join soundRight joined).withTag tag, ?_⟩
          obtain ⟨-, rfl⟩ := Rule.join_eq_ok_iff.1 joined
          rw [Rule.withTag, Rule.toDocument, sameLeft, sameRight]
        · cases built
    | case4 => cases built
  · rintro ⟨sound, rfl⟩
    exact Rule.toRule_toDocument sound

theorem Document.sound_toRule {document : Document} {rule : Rule}
    (built : document.toRule = .ok rule) : rule.Sound :=
  (toRule_eq_ok_iff.1 built).1

namespace Rule

theorem sound_ofNodeText {text : String} {rule : Rule} (read : ofNodeText text = .ok rule) :
    rule.Sound := by
  unfold ofNodeText at read
  split at read
  · cases read
  · split at read
    · cases read
    · split at read
      · cases read
      · rename_i built
        split at read
        · cases read; exact Document.sound_toRule built
        · cases read

theorem sound_ofJson {text : String} {rule : Rule} (read : ofJson text = .ok rule) :
    rule.Sound := by
  unfold ofJson at read
  split at read
  · cases read
  · exact sound_ofNodeText read

/-- The rules that some order of steps leads to. -/
inductive Built : Rule → Prop
  | ofClause (clause : String) : Built (ofClause clause)
  | join {connective : Connective} {left right result : Rule} (builtLeft : Built left)
      (builtRight : Built right) (joined : join connective left right = .ok result) : Built result
  | joinAll {connective : Connective} {rules : List Rule} {result : Rule}
      (built : ∀ rule ∈ rules, Built rule) (joined : joinAll connective rules = .ok result) :
      Built result
  | parse {text : String} {result : Rule} (read : parse text = .ok result) : Built result
  | ofJson {text : String} {result : Rule} (read : ofJson text = .ok result) : Built result
  | ofNodeText {text : String} {result : Rule} (read : ofNodeText text = .ok result) : Built result
  | retag {rule : Rule} (built : Built rule) (start : UInt32) : Built (rule.retag start)
  | child {rule result : Rule} {branch : Branch} (built : Built rule)
      (found : rule.child? branch = some result) : Built result

theorem exists_parse_of_mem_parseAll {texts : List String} {rules : List Rule}
    (read : parseAll texts = .ok rules) : ∀ rule ∈ rules, ∃ text, parse text = .ok rule := by
  induction texts generalizing rules with
  | nil => cases read; simp
  | cons text texts ih =>
      obtain ⟨first, readFirst, others⟩ := bind_eq_ok_iff.1 read
      obtain ⟨rest, readRest, same⟩ := bind_eq_ok_iff.1 others
      cases same
      exact List.forall_mem_cons.2 ⟨⟨text, readFirst⟩, ih readRest⟩

theorem built_of_mem_parseAll {texts : List String} {rules : List Rule}
    (read : parseAll texts = .ok rules) : ∀ rule ∈ rules, Built rule := by
  intro rule member
  obtain ⟨text, readHere⟩ := exists_parse_of_mem_parseAll read rule member
  exact .parse readHere

theorem built_combine {connective : Connective} {texts : List String} {rule : Rule}
    (combined : combine connective texts = .ok rule) : Built rule := by
  obtain ⟨rules, read, joined⟩ := bind_eq_ok_iff.1 combined
  exact .joinAll (built_of_mem_parseAll read) joined

theorem Built.sound {rule : Rule} (built : Built rule) : rule.Sound := by
  induction built with
  | ofClause clause => exact sound_ofClause clause
  | join _ _ joined ihLeft ihRight => exact ihLeft.join ihRight joined
  | joinAll _ joined ih => exact sound_joinAll ih joined
  | parse read => exact parse_sound read
  | ofJson read => exact sound_ofJson read
  | ofNodeText read => exact sound_ofNodeText read
  | retag _ start ih => exact ih.retag start
  | child _ found ih => exact ih.child found

theorem built_iff_sound {rule : Rule} : Built rule ↔ rule.Sound := by
  constructor
  · intro built
    exact built.sound
  · intro sound
    exact .ofJson sound.ofJson_toJson

/-- Reading undoes writing on every rule that can be built. -/
theorem ofJson_toJson_of_built {rule : Rule} (built : Built rule) : ofJson rule.toJson = .ok rule :=
  built.sound.ofJson_toJson

/-- Quotation marks, a backslash, open brackets and a control character in one
clause, nothing in the other. -/
def oddClauses : Rule := node 7 2 .or (leaf 8 "\"\\[\x7b\x01\u00e9\u2028") (leaf 8 "")

theorem ofJson_toJson_oddClauses :
    Built oddClauses ∧ ofJson oddClauses.toJson = .ok oddClauses := by
  have joined : join .or (ofClause "\"\\[\x7b\x01\u00e9\u2028") (ofClause "") =
      .ok (node 0 2 .or (leaf 0 "\"\\[\x7b\x01\u00e9\u2028") (leaf 0 "")) := rfl
  have built : Built oddClauses := .retag (.join (.ofClause _) (.ofClause _) joined) 7
  exact ⟨built, ofJson_toJson_of_built built⟩

end Rule

end Criteria
