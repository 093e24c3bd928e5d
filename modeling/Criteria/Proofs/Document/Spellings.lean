/-
# Criteria.Proofs.Document.Spellings -- every text of a rule is read as that rule

What a text leaves open, the layout of each node, the order of members, members
of other names, blanks and escapes, leaves no trace: behind the guard, each text
of a term that writes a rule is read as just that rule, heights and all
(`Rule.ofJson_of_writes`). The other way to go wrong is to say too much: a node
that gives a field twice, or an array that goes on behind the last field, spoils
the text however deep inside it stands (`Document.ofTerm?_of_overfull`).
-/
import Criteria.Proofs.Document.Guard

namespace Criteria

set_option autoImplicit false

open Json (Term Piece)

/-! ## Nodes that say too much -/

namespace Document

/-- Some node of the term, found by going down to children only, gives a field
twice or has more items than there are fields. -/
inductive Overfull : Term → Prop
  | twice {members : List (List Piece × Term)} {name : String} (known : name ∈ fields)
      (again : 1 < members.countP fun member => Piece.text? member.1 = some name) :
      Overfull (.object members)
  | surplus {items : List Term} (more : fields.length < items.length) : Overfull (.array items)
  | member {members : List (List Piece × Term)} {name : String} {pieces : List Piece}
      {child : Term} (branch : name = "left" ∨ name = "right")
      (said : Piece.text? pieces = some name) (inside : (pieces, child) ∈ members)
      (below : Overfull child) : Overfull (.object members)
  | item {items : List Term} {name : String} {child : Term}
      (branch : name = "left" ∨ name = "right") (place : (name, child) ∈ fields.zip items)
      (below : Overfull child) : Overfull (.array items)

theorem Overfull.ne_null {term : Term} (overfull : Overfull term) : term ≠ .null := by
  rintro rfl
  cases overfull

/-- A node cannot be read where one of its children cannot. -/
theorem ofGiven?_of_child {given : List (Option Term)} {name : String} {child : Term}
    (branch : name = "left" ∨ name = "right") (place : (name, some child) ∈ fields.zip given)
    (notNull : child ≠ .null) (wrong : ofTerm? child = none) : ofGiven? given = none := by
  have refused : readChild? (some (withDocument child)) = none := by
    rw [withDocument, wrong]
    cases child with
    | null => exact absurd rfl notNull
    | _ => rfl
  rw [Option.eq_none_iff_forall_ne_some]
  rintro ⟨kind, tag, clause?, left?, right?⟩ read
  obtain ⟨_, _, _, leftTerm?, rightTerm?, rfl, -, -, -, isLeft, isRight⟩ :=
    ofGiven?_eq_some_iff.1 read
  rcases branch with rfl | rfl
  · obtain rfl : some child = leftTerm? := by simpa [fields] using place
    rw [Option.map_some, refused] at isLeft
    cases isLeft
  · obtain rfl : some child = rightTerm? := by simpa [fields] using place
    rw [Option.map_some, refused] at isRight
    cases isRight

/-- A term that says too much anywhere is no document. -/
theorem ofTerm?_of_overfull {term : Term} (overfull : Overfull term) : ofTerm? term = none := by
  induction overfull with
  | twice known again =>
      rw [ofTerm?_object, Json.Fields.ofObject?_of_twice known again, Option.bind_none]
  | surplus more =>
      rw [ofTerm?_array, Json.Fields.ofArray?, if_neg (Nat.not_le.2 more), Option.bind_none]
  | @member members name pieces child branch said inside below ih =>
      rw [ofTerm?_object, Option.bind_eq_none_iff]
      intro given read
      have known : name ∈ fields := by rcases branch with rfl | rfl <;> decide
      exact ofGiven?_of_child branch (Json.Fields.mem_zip_of_ofObject? read known inside said)
        below.ne_null ih
  | item branch place below ih =>
      rw [ofTerm?_array, Option.bind_eq_none_iff]
      intro given read
      exact ofGiven?_of_child branch (Json.Fields.mem_zip_of_ofArray? read place) below.ne_null ih

end Document

/-! ## Whole texts -/

theorem Json.nesting_of_writes {text : String} {term : Term} (writes : Writes text term) :
    nesting text = term.depth := by
  obtain ⟨chars, rest, before, spelled, behind⟩ := writes
  exact nesting_of_spells before spelled behind

namespace Rule

variable {text : String} {term : Term}

/-- Behind the guard the document of a whole text decides. -/
theorem ofJson_of_toRule {document : Document} {rule : Rule} (writes : Json.Writes text term)
    (shallow : Json.nesting text ≤ maxHeight) (read : Document.ofTerm? term = some document)
    (made : document.toRule = .ok rule) : ofJson text = .ok rule := by
  obtain ⟨rest, taken, blank⟩ := Term.read?_of_writes writes
  rw [ofJson_of_shallow shallow]
  simp only [ofNodeText, taken, read, made, if_pos blank]

theorem ofJson_of_unread (writes : Json.Writes text term)
    (shallow : Json.nesting text ≤ maxHeight) (unread : Document.ofTerm? term = none) :
    ofJson text = .error .unreadable := by
  obtain ⟨rest, taken, -⟩ := Term.read?_of_writes writes
  rw [ofJson_of_shallow shallow]
  simp only [ofNodeText, taken, unread]

/-- Each text of a term that writes a sound rule, one whose recorded heights are
right and at most 256, is read as that rule; a text of a term that says too much
is refused as unreadable. -/
theorem ofJson_of_writes (writes : Json.Writes text term) (shallow : Json.nesting text ≤ 256) :
    (∀ rule : Rule, rule.Sound → rule.WrittenAs term → ofJson text = .ok rule) ∧
      (Document.Overfull term → ofJson text = .error .unreadable) := by
  constructor
  · intro rule sound written
    exact ofJson_of_toRule writes shallow (ofTerm?_of_writtenAs written) (toRule_toDocument sound)
  · intro overfull
    exact ofJson_of_unread writes shallow (Document.ofTerm?_of_overfull overfull)

/-- An object with an array and an object below it: a name that is not known twice,
a name and a kind with an escape in them, a clause that does not apply. -/
def mixedText : String :=
  " \x7b\"x\":[1e999],\"right\":[\"OPERAND\",3,\"b\",null],\"x\":null," ++
    "\"l\\u0065ft\":\x7b\"kind\":\"OPERAND\",\"clause\":\"a\"\x7d ,\"clause\":null," ++
    "\"kind\":\x7b\"A\\u004eD\":null\x7d\x7d\n"

def mixedLeft : Term :=
  .object [(Piece.ofText "kind", .string (Piece.ofText "OPERAND")),
    (Piece.ofText "clause", .string (Piece.ofText "a"))]

def mixedRight : Term :=
  .array [.string (Piece.ofText "OPERAND"), .number ⟨false, ['3'], [], none⟩,
    .string (Piece.ofText "b"), .null]

def mixedKind : Term := .object [([.plain 'A', .unit 0x4e, .plain 'D'], .null)]

/-- The number in the member that is passed over is too large to be read. -/
def mixedTerm : Term :=
  .object [(Piece.ofText "x", .array [.number ⟨false, ['1'], [], some 999⟩]),
    (Piece.ofText "right", mixedRight), (Piece.ofText "x", .null),
    ([.plain 'l', .unit 0x65, .plain 'f', .plain 't'], mixedLeft),
    (Piece.ofText "clause", .null), (Piece.ofText "kind", mixedKind)]

theorem writtenAs_mixedTerm :
    (node 0 2 .and (leaf 0 "a") (leaf 3 "b")).WrittenAs mixedTerm := by
  have left : (leaf 0 "a").WrittenAs mixedLeft := by
    have lays : mixedLeft.Lays Document.fields [some (.string (Piece.ofText "OPERAND")), none,
        some (.string (Piece.ofText "a")), none, none] :=
      lays_ofText [("kind", .string (Piece.ofText "OPERAND")),
        ("clause", .string (Piece.ofText "a"))] (.refl _)
    exact .leaf lays (.word rfl) .zero rfl .absent .absent
  have right : (leaf 3 "b").WrittenAs mixedRight := by
    have lays : mixedRight.Lays Document.fields [some (.string (Piece.ofText "OPERAND")),
        some (.number ⟨false, ['3'], [], none⟩), some (.string (Piece.ofText "b")), some .null,
        none] := .array 1 rfl
    exact .leaf lays (.word rfl) (.digits rfl) rfl .null .absent
  have lays : mixedTerm.Lays Document.fields
      [some mixedKind, none, some .null, some mixedLeft, some mixedRight] := by
    let others : List (String × Term) :=
      [("x", .null), ("x", .array [.number ⟨false, ['1'], [], some 999⟩])]
    let known : List (String × Term) :=
      [("kind", mixedKind), ("clause", .null), ("left", mixedLeft), ("right", mixedRight)]
    have order := ((List.Perm.swap _ _ _).cons _).trans (List.reverse_perm (known ++ others))
    refine .object ?_ order (by decide)
    exact .cons ⟨rfl, rfl⟩ (.cons ⟨rfl, rfl⟩ (.cons ⟨rfl, rfl⟩ (.cons ⟨rfl, rfl⟩
      (.cons ⟨rfl, rfl⟩ (.cons ⟨rfl, rfl⟩ .nil)))))
  exact .node lays (.key rfl) .zero .null left right

-- the text has more characters than the default depth allows for
set_option maxRecDepth 1000 in
theorem writes_mixedText : Json.Writes mixedText mixedTerm := by
  have taken : Term.read? mixedText.toList = some (mixedTerm, ['\n']) := by
    unfold mixedText
    simp only [String.toList_append, String.reduceToList]
    rfl
  exact Term.writes_of_read? taken rfl

/-- A clause is given twice, in different spellings, one level down. -/
def doubledText : String :=
  "[\"OR\",1,null,\x7b\"kind\":\"OPERAND\",\"clause\":\"a\",\"\\u0063lause\":\"a\"\x7d," ++
    "[\"OPERAND\",2,\"b\"]]"

def doubledTerm : Term :=
  .array [.string (Piece.ofText "OR"), .number ⟨false, ['1'], [], none⟩, .null,
    .object [(Piece.ofText "kind", .string (Piece.ofText "OPERAND")),
      (Piece.ofText "clause", .string (Piece.ofText "a")),
      (.unit 0x63 :: Piece.ofText "lause", .string (Piece.ofText "a"))],
    .array [.string (Piece.ofText "OPERAND"), .number ⟨false, ['2'], [], none⟩,
      .string (Piece.ofText "b")]]

theorem overfull_doubledTerm : Document.Overfull doubledTerm := by
  have known : "clause" ∈ Document.fields := by decide
  exact .item (.inl rfl) (.tail _ (.tail _ (.tail _ (.head _)))) (.twice known (by decide +kernel))

theorem writes_doubledText : Json.Writes doubledText doubledTerm := by
  have taken : Term.read? doubledText.toList = some (doubledTerm, []) := by
    unfold doubledText
    simp only [String.toList_append, String.reduceToList]
    rfl
  exact Term.writes_of_read? taken rfl

theorem ofJson_mixedText_doubledText :
    Json.Writes mixedText mixedTerm ∧ Json.nesting mixedText ≤ 256 ∧
      (node 0 2 .and (leaf 0 "a") (leaf 3 "b")).Sound ∧
      ofJson mixedText = .ok (node 0 2 .and (leaf 0 "a") (leaf 3 "b")) ∧
      Json.Writes doubledText doubledTerm ∧ Json.nesting doubledText ≤ 256 ∧
      ofJson doubledText = .error .unreadable := by
  have mixedLow : Json.nesting mixedText ≤ 256 := by
    rw [Json.nesting_of_writes writes_mixedText]
    decide
  have doubledLow : Json.nesting doubledText ≤ 256 := by
    rw [Json.nesting_of_writes writes_doubledText]
    decide
  have sound : (node 0 2 .and (leaf 0 "a") (leaf 3 "b")).Sound :=
    ⟨rfl, by decide, trivial, trivial⟩
  exact ⟨writes_mixedText, mixedLow, sound,
    (ofJson_of_writes writes_mixedText mixedLow).1 _ sound writtenAs_mixedTerm,
    writes_doubledText, doubledLow,
    (ofJson_of_writes writes_doubledText doubledLow).2 overfull_doubledTerm⟩

end Rule

end Criteria
