/-
# Criteria.Proofs.Document.Guard -- counting brackets is a sound guard

Two readers see the same text. The guard counts brackets and knows nothing of
documents. The reader behind it (`Rule.readNode`) has no bound of its own, takes
nodes as objects or as arrays, and passes over what it does not know. Whatever
document it finds at the front of a text has no more levels than the guard counts
in the whole (`Document.levels_le_nesting`), so behind the guard no rule is ever
refused for its height. The guard may well refuse a document that would do: the
brackets inside a member that is passed over count too.
-/
import Criteria.Proofs.Document.Levels
import Criteria.Proofs.Json.Soundness

namespace Criteria

set_option autoImplicit false

variable {text : String} {rest : List Char}

/-! ## The reader behind the guard -/

/-- The document at the front of a text, however deep it nests, and what follows. -/
def Document.read? (text : String) : Option (Document × List Char) := do
  let (term, rest) ← Json.Term.read? text.toList
  let document ← ofTerm? term
  some (document, rest)

theorem Document.read?_eq_some_iff {document : Document} : read? text = some (document, rest) ↔
    ∃ term, Json.Term.read? text.toList = some (term, rest) ∧ ofTerm? term = some document := by
  simp only [read?, Option.bind_eq_bind, Option.bind_eq_some_iff, Prod.exists, Option.some.injEq,
    Prod.mk.injEq]
  constructor
  · rintro ⟨term, rest, taken, document, read, rfl, rfl⟩
    exact ⟨term, taken, read⟩
  · rintro ⟨term, taken, read⟩
    exact ⟨term, rest, taken, document, read, rfl, rfl⟩

/-- No document has more levels than the brackets of its text nest, whatever
follows it there. -/
theorem Document.levels_le_nesting {document : Document}
    (read : read? text = some (document, rest)) : document.levels ≤ Json.nesting text := by
  obtain ⟨term, taken, read⟩ := read?_eq_some_iff.1 read
  have spelled := Json.Term.spells_of_read? taken
  exact Nat.le_trans (levels_le_depth read)
    (Json.depth_le_nesting (Json.blanks_skipSpace _) spelled)

namespace Rule

/-- The rule of the node at the front of a text, and what follows it. -/
def readNode (text : String) : Except Error (Rule × List Char) :=
  match Document.read? text with
  | none => .error .unreadable
  | some (document, rest) =>
      match document.toRule with
      | .error fault => .error (.inconsistentNode fault)
      | .ok rule => .ok (rule, rest)

/-- The rule, if nothing but blanks follows it. -/
def atEnd (read : Rule × List Char) : Except Error Rule :=
  if read.2.all Json.isSpace then .ok read.1 else .error .unreadable

theorem readNode_eq_ok_iff {rule : Rule} : readNode text = .ok (rule, rest) ↔
    ∃ document, Document.read? text = some (document, rest) ∧ document.toRule = .ok rule := by
  unfold readNode
  cases Document.read? text with
  | none => simp
  | some found =>
      obtain ⟨document, behind⟩ := found
      constructor
      · intro read
        cases made : document.toRule with
        | error fault => simp [made] at read
        | ok rule' =>
            simp only [made, Except.ok.injEq, Prod.mk.injEq] at read
            obtain ⟨rfl, rfl⟩ := read
            exact ⟨document, rfl, made⟩
      · rintro ⟨document', same, made⟩
        cases same
        simp [made]

theorem readNode_eq_error_iff {error : Error} : readNode text = .error error ↔
    Document.read? text = none ∧ error = .unreadable ∨
      ∃ document rest fault, Document.read? text = some (document, rest) ∧
        document.toRule = .error fault ∧ error = .inconsistentNode fault := by
  unfold readNode
  cases Document.read? text with
  | none => simp [eq_comm]
  | some found =>
      obtain ⟨document, behind⟩ := found
      cases made : document.toRule with
      | error fault => simp [made, eq_comm]
      | ok rule' => simp [made]

theorem ofNodeText_eq (text : String) : ofNodeText text = (readNode text).bind atEnd := by
  unfold ofNodeText readNode Document.read?
  cases Json.Term.read? text.toList with
  | none => rfl
  | some taken =>
      obtain ⟨term, rest⟩ := taken
      cases read : Document.ofTerm? term with
      | none => simp [read, Except.bind]
      | some document =>
          cases made : document.toRule with
          | error fault => simp [read, made, Except.bind]
          | ok rule => simp [read, made, Except.bind, atEnd]

/-! ## The guard -/

theorem readNode_ne_nestingTooDeep : readNode text ≠ .error .nestingTooDeep := by
  intro refused
  rcases readNode_eq_error_iff.1 refused with ⟨-, same⟩ | ⟨_, _, _, _, _, same⟩
  · cases same
  · cases same

theorem readNode_ne_tooTall (shallow : Json.nesting text ≤ maxHeight) :
    readNode text ≠ .error (.inconsistentNode .tooTall) := by
  intro refused
  rcases readNode_eq_error_iff.1 refused with ⟨-, same⟩ | ⟨document, rest, fault, read, made, same⟩
  · cases same
  · cases same
    have tall := Document.lt_levels_of_tooTall made
    have low := Document.levels_le_nesting read
    omega

theorem atEnd_eq_error {read : Rule × List Char} {error : Error}
    (refused : atEnd read = .error error) : error = .unreadable := by
  unfold atEnd at refused
  split at refused
  · cases refused
  · cases refused
    rfl

theorem height_le_nesting {rule : Rule} (read : readNode text = .ok (rule, rest)) :
    rule.height ≤ Json.nesting text := by
  obtain ⟨document, found, made⟩ := readNode_eq_ok_iff.1 read
  rw [(Document.sound_toRule made).height_eq, Document.levels_of_toRule made]
  exact Document.levels_le_nesting found

theorem ofJson_of_deep (deep : maxHeight < Json.nesting text) :
    ofJson text = .error .nestingTooDeep :=
  if_pos deep

theorem ofJson_of_shallow (shallow : Json.nesting text ≤ maxHeight) :
    ofJson text = ofNodeText text :=
  if_neg (Nat.not_lt.2 shallow)

/-- What goes wrong behind the guard goes wrong in the node, or comes after it. -/
theorem ofNodeText_eq_error {error : Error} (refused : ofNodeText text = .error error) :
    readNode text = .error error ∨ error = .unreadable := by
  rw [ofNodeText_eq] at refused
  rcases bind_eq_error_iff.1 refused with inside | ⟨read, -, behind⟩
  · exact .inl inside
  · exact .inr (atEnd_eq_error behind)

/-- A text is refused for its brackets if and only if they nest too deep, and is
otherwise read just as without the guard. Then the height of a rule is never an
issue, be the text broken or followed by more; and a rule at the front of any text
whatsoever has no more levels than the brackets of the text nest. -/
theorem ofJson_guarded (text : String) :
    (ofJson text = .error .nestingTooDeep ↔ 256 < Json.nesting text) ∧
    (Json.nesting text ≤ 256 → ofJson text = ofNodeText text) ∧
    ofNodeText text = (readNode text).bind atEnd ∧
    (Json.nesting text ≤ 256 → readNode text ≠ .error (.inconsistentNode .tooTall)) ∧
    ofJson text ≠ .error (.inconsistentNode .tooTall) ∧
    (∀ rule rest, readNode text = .ok (rule, rest) → rule.height ≤ Json.nesting text) ∧
    (Error.inconsistentNode .tooTall).message? =
      some "Serialization error: Rule nests deeper than 256 levels" := by
  refine ⟨⟨?_, ofJson_of_deep⟩, ofJson_of_shallow, ofNodeText_eq text, readNode_ne_tooTall, ?_, ?_,
    by decide⟩
  · intro refused
    apply Nat.not_le.1
    intro shallow
    rw [ofJson_of_shallow shallow] at refused
    rcases ofNodeText_eq_error refused with inside | same
    · exact readNode_ne_nestingTooDeep inside
    · cases same
  · intro refused
    by_cases shallow : Json.nesting text ≤ maxHeight
    · rw [ofJson_of_shallow shallow] at refused
      rcases ofNodeText_eq_error refused with inside | same
      · exact readNode_ne_tooTall shallow inside
      · cases same
    · rw [ofJson_of_deep (Nat.not_le.1 shallow)] at refused
      cases refused
  · intro rule rest read
    exact height_le_nesting read

/-- Brackets in a clause do not count, those in a member that is passed over do. -/
example : Json.nesting "\x7b\"clause\":\"[[[[\",\"kind\":\"OPERAND\",\"x\":[[]]\x7d, 1" = 3 ∧
    ((readNode "\x7b\"clause\":\"[[[[\",\"kind\":\"OPERAND\",\"x\":[[]]\x7d, 1").toOption.map
      fun read => read.1.height) = some 1 := by
  decide +kernel

end Rule

end Criteria
