/-
# Criteria.Proofs.Rule.RoundTrip -- a rule read back from its JSON text

The text of a rule spells a term with the nodes of the rule for its objects
(`spells_toJson`), that term is one of those that write the rule
(`writtenAs_toTerm`) and so reads as a document, and the document builds the rule
(`toRule_toDocument`). The brackets nest as deep as the rule has levels, so the
guard before the reader lets every sound rule pass (`nesting_toJson`).
-/
import Criteria.Proofs.Document.Writing
import Criteria.Proofs.Json.Brackets
import Criteria.Proofs.Json.Reading
import Criteria.Proofs.Json.Writing
import Criteria.Proofs.Rule.Levels

namespace Criteria.Rule

set_option autoImplicit false

open Json (Spells Term Piece Numeral)

/-- The term that the text of a rule is a text of. -/
def toTerm : Rule → Term
  | leaf tag clause =>
      .object [(Piece.ofText "depth_tag", .number (Numeral.ofNat tag.toNat)),
        (Piece.ofText "kind", .string (Piece.ofText "OPERAND")),
        (Piece.ofText "clause", .string (Piece.ofText clause))]
  | node tag _ connective left right =>
      .object [(Piece.ofText "depth_tag", .number (Numeral.ofNat tag.toNat)),
        (Piece.ofText "kind", .string (Piece.ofText connective.name)),
        (Piece.ofText "left", left.toTerm), (Piece.ofText "right", right.toTerm)]

theorem toJson_leaf (tag : UInt32) (clause : String) : (leaf tag clause).toJson =
    "\x7b\"depth_tag\":" ++ toString tag.toNat ++ ",\"kind\":\"OPERAND\",\"clause\":" ++
      Json.quote clause ++ "\x7d" := rfl

theorem toJson_node (tag : UInt32) (height : Nat) (connective : Connective) (left right : Rule) :
    (node tag height connective left right).toJson =
      "\x7b\"depth_tag\":" ++ toString tag.toNat ++ ",\"kind\":" ++ Json.quote connective.name ++
        ",\"left\":" ++ left.toJson ++ ",\"right\":" ++ right.toJson ++ "\x7d" := rfl

/-- In the names that a node uses nothing is escaped. -/
theorem toList_quote_name : ∀ name ∈ ["depth_tag", "kind", "OPERAND", "clause", "left", "right"],
    (Json.quote name).toList = '"' :: (name.toList ++ ['"']) := by
  intro name listed
  apply Json.toList_quote
  revert name
  decide

theorem spells_toJson (rule : Rule) (rest : List Char) :
    Spells (rule.toJson.toList ++ rest) rule.toTerm rest := by
  have tagName := toList_quote_name "depth_tag" (by decide)
  have kindName := toList_quote_name "kind" (by decide)
  induction rule generalizing rest with
  | leaf tag clause =>
      have written : (leaf tag clause).toJson.toList ++ rest =
          '\x7b' :: ((Json.quote "depth_tag").toList ++ ':' :: ((toString tag.toNat).toList ++
            ',' :: ((Json.quote "kind").toList ++ ':' :: ((Json.quote "OPERAND").toList ++
            ',' :: ((Json.quote "clause").toList ++ ':' :: ((Json.quote clause).toList ++
            '\x7d' :: rest)))))) := by
        rw [toJson_leaf, tagName, kindName, toList_quote_name "OPERAND" (by decide),
          toList_quote_name "clause" (by decide)]
        simp
      rw [written]
      exact .object (Json.spellsMembers_more (Json.spells_toString _ _)
        (Json.spellsMembers_more (Json.spells_quote _ _)
          (Json.spellsMembers_last (Json.spells_quote _ _))))
  | node tag height connective left right ihLeft ihRight =>
      have written : (node tag height connective left right).toJson.toList ++ rest =
          '\x7b' :: ((Json.quote "depth_tag").toList ++ ':' :: ((toString tag.toNat).toList ++
            ',' :: ((Json.quote "kind").toList ++ ':' :: ((Json.quote connective.name).toList ++
            ',' :: ((Json.quote "left").toList ++ ':' :: (left.toJson.toList ++
            ',' :: ((Json.quote "right").toList ++ ':' :: (right.toJson.toList ++
            '\x7d' :: rest)))))))) := by
        rw [toJson_node, tagName, kindName, toList_quote_name "left" (by decide),
          toList_quote_name "right" (by decide)]
        simp
      rw [written]
      exact .object (Json.spellsMembers_more (Json.spells_toString _ _)
        (Json.spellsMembers_more (Json.spells_quote _ _)
          (Json.spellsMembers_more (ihLeft _) (Json.spellsMembers_last (ihRight _)))))

theorem depth_toTerm (rule : Rule) : rule.toTerm.depth = rule.levels := by
  induction rule with
  | leaf => simp [toTerm, Term.depth, Term.depthOfMembers, levels]
  | node tag height connective left right ihLeft ihRight =>
      simp only [toTerm, Term.depth, Term.depthOfMembers, levels, ihLeft, ihRight]
      omega

/-- The brackets of the text nest as deep as the rule has levels. -/
theorem nesting_toJson (rule : Rule) : Json.nesting rule.toJson = rule.levels := by
  have spelled := rule.spells_toJson []
  rw [List.append_nil] at spelled
  rw [Json.nesting_of_spells (.none _) spelled (.none _), depth_toTerm]

/-! ## The term as a document -/

theorem lays_ofText {fields : List String} {given : List (Option Term)}
    (named : List (String × Term)) (order : named.Perm (Json.Fields.present (fields.zip given))) :
    Term.Lays fields (.object (named.map fun member => (Piece.ofText member.1, member.2)))
      given := by
  have names : List.Forall₂ Json.Fields.Names
      (named.map fun member => (Piece.ofText member.1, member.2)) named := by
    rw [List.forall₂_map_left_iff, List.forall₂_same]
    intro member _
    exact ⟨Piece.text?_ofText member.1, rfl⟩
  exact .object names (by rwa [List.append_nil]) fun _ member => absurd member List.not_mem_nil

/-- The text of a rule is one way to write it. -/
theorem writtenAs_toTerm (rule : Rule) : rule.WrittenAs rule.toTerm := by
  have tagWritten (tag : UInt32) : Document.TagWrittenAs tag
      (some (.number (Numeral.ofNat tag.toNat))) := .digits Nat.ofDigitChars_ten_toDigits
  induction rule with
  | leaf tag clause =>
      have lays : (leaf tag clause).toTerm.Lays Document.fields
          [some (.string (Piece.ofText "OPERAND")), some (.number (Numeral.ofNat tag.toNat)),
            some (.string (Piece.ofText clause)), none, none] :=
        lays_ofText [("depth_tag", .number (Numeral.ofNat tag.toNat)),
          ("kind", .string (Piece.ofText "OPERAND")), ("clause", .string (Piece.ofText clause))]
          (.swap _ _ _)
      exact .leaf lays (.word (Piece.text?_ofText _)) (tagWritten tag) (Piece.text?_ofText _)
        .absent .absent
  | node tag height connective left right ihLeft ihRight =>
      have lays : (node tag height connective left right).toTerm.Lays Document.fields
          [some (.string (Piece.ofText connective.name)),
            some (.number (Numeral.ofNat tag.toNat)), none, some left.toTerm,
            some right.toTerm] :=
        lays_ofText [("depth_tag", .number (Numeral.ofNat tag.toNat)),
          ("kind", .string (Piece.ofText connective.name)), ("left", left.toTerm),
          ("right", right.toTerm)] (.swap _ _ _)
      exact .node lays (.word (Piece.text?_ofText _)) (tagWritten tag) .absent ihLeft ihRight

theorem ofTerm?_toTerm (rule : Rule) : Document.ofTerm? rule.toTerm = some rule.toDocument :=
  ofTerm?_of_writtenAs rule.writtenAs_toTerm

theorem toRule_toDocument {rule : Rule} (sound : rule.Sound) :
    rule.toDocument.toRule = .ok rule := by
  induction rule with
  | leaf => rfl
  | node tag height connective left right ihLeft ihRight =>
      obtain ⟨same, bound, soundLeft, soundRight⟩ := sound_node_iff.1 sound
      have joined : join connective left right = .ok (node 0 height connective left right) :=
        join_eq_ok_iff.2 ⟨by omega, by rw [same]⟩
      simp only [toDocument, Document.toRule, ihLeft soundLeft, ihRight soundRight]
      simp only [bind, Except.bind, joined]
      rfl

/-! ## There and back -/

theorem ofNodeText_toJson {rule : Rule} (sound : rule.Sound) : ofNodeText rule.toJson = .ok rule := by
  have spelled := rule.spells_toJson []
  rw [List.append_nil] at spelled
  have read := Term.read?_of_spells (.none _) spelled Text.ends_nil
  simp only [ofNodeText, read, ofTerm?_toTerm, toRule_toDocument sound]
  rfl

/-- A sound rule is read back from its text, with every tag and every height. -/
theorem Sound.ofJson_toJson {rule : Rule} (sound : rule.Sound) : ofJson rule.toJson = .ok rule := by
  have low : ¬ maxHeight < Json.nesting rule.toJson := by
    rw [nesting_toJson]
    exact Nat.not_lt.2 sound.levels_le
  rw [ofJson, if_neg low, ofNodeText_toJson sound]

end Criteria.Rule
