/-
# Criteria.Proofs.Document.Writing -- the terms that write a rule

`Rule.WrittenAs` says which terms stand for a rule, without reading any: its nodes
are laid out as objects or as arrays, each as it pleases, members that do not
apply are left out or null, a tag of zero may be left out, and the kind is a word
or an object under that word. Every such term is read as the same document, which
says of each node what the rule has there (`ofTerm?_of_writtenAs`). The heights
that a rule records are not written and have no part in this.
-/
import Criteria.Document
import Criteria.Proofs.Json.Layout

namespace Criteria

set_option autoImplicit false

open Json (Term Piece)

/-! ## Nodes by their fields -/

namespace Document

/-- A term with the document that it is, if it is one. -/
def withDocument (term : Term) : Term × Option Document := (term, ofTerm? term)

@[simp] theorem map_fst_withDocument (given : Option Term) :
    (given.map withDocument).map Prod.fst = given := by
  cases given <;> rfl

theorem readMembers_eq_map (members : List (List Piece × Term)) :
    readMembers members = members.map fun member => (member.1, withDocument member.2) := by
  induction members with
  | nil => rfl
  | cons member members ih => rw [readMembers, ih, List.map_cons, withDocument]

theorem readItems_eq_map (items : List Term) :
    readItems items = items.map withDocument := by
  induction items with
  | nil => rfl
  | cons item items ih => rw [readItems, ih, List.map_cons, withDocument]

/-- A node from the terms that are given for the `fields`. -/
def ofGiven? (given : List (Option Term)) : Option Document :=
  ofFields? (given.map (Option.map withDocument))

theorem ofTerm?_object (members : List (List Piece × Term)) :
    ofTerm? (.object members) = (Json.Fields.ofObject? fields members).bind ofGiven? := by
  rw [ofTerm?, readMembers_eq_map, Json.Fields.ofObject?_map withDocument, Option.bind_map]
  rfl

theorem ofTerm?_array (items : List Term) :
    ofTerm? (.array items) = (Json.Fields.ofArray? fields items).bind ofGiven? := by
  rw [ofTerm?, readItems_eq_map, Json.Fields.ofArray?_map, Option.bind_map]
  rfl

/-- A node is put together from what is read of each field. -/
theorem ofGiven?_eq_some_iff {given : List (Option Term)} {kind : Kind} {tag : UInt32}
    {clause? : Option String} {left? right? : Option Document} :
    ofGiven? given = some (node kind tag clause? left? right?) ↔
      ∃ kindTerm tagTerm? clauseTerm? leftTerm? rightTerm?,
        given = [some kindTerm, tagTerm?, clauseTerm?, leftTerm?, rightTerm?] ∧
        kindTerm.keyword?.bind Kind.ofName? = some kind ∧ readTag? tagTerm? = some tag ∧
        readClause? clauseTerm? = some clause? ∧
        readChild? (leftTerm?.map withDocument) = some left? ∧
        readChild? (rightTerm?.map withDocument) = some right? := by
  constructor
  · intro read
    rcases given with _ | ⟨_ | kindTerm, _ | ⟨tagTerm?, _ | ⟨clauseTerm?, _ | ⟨leftTerm?,
      _ | ⟨rightTerm?, _ | _⟩⟩⟩⟩⟩
    case cons.some.cons.cons.cons.cons.nil =>
      simp only [ofGiven?, ofFields?, List.map_cons, List.map_nil, Option.map_some,
        map_fst_withDocument, Option.bind_eq_bind, Option.bind_eq_some_iff, Option.some.injEq,
        node.injEq] at read
      obtain ⟨_, isKind, _, isTag, _, isClause, _, isLeft, _, isRight, rfl, rfl, rfl, rfl, rfl⟩ :=
        read
      exact ⟨kindTerm, tagTerm?, clauseTerm?, leftTerm?, rightTerm?, rfl,
        Option.bind_eq_some_iff.2 isKind, isTag, isClause, isLeft, isRight⟩
    all_goals cases read
  · rintro ⟨kindTerm, tagTerm?, clauseTerm?, leftTerm?, rightTerm?, rfl, isKind, isTag, isClause,
      isLeft, isRight⟩
    simp only [ofGiven?, List.map_cons, List.map_nil, Option.map_some, ofFields?, withDocument,
      isKind, map_fst_withDocument, isTag, isClause, isLeft, isRight, Option.bind_eq_bind,
      Option.bind_some]

/-- However a node is laid out, what is given for its fields decides. -/
theorem ofTerm?_of_lays {term : Term} {given : List (Option Term)} (lays : term.Lays fields given)
    (size : given.length = fields.length) : ofTerm? term = ofGiven? given := by
  cases lays with
  | object names order unknown =>
      rw [ofTerm?_object, Json.Fields.ofObject?_of_perm (by decide) size names order unknown,
        Option.bind_some]
  | @array items _ absent order =>
      have room : absent = fields.length - items.length ∧ items.length ≤ fields.length := by
        rw [order, List.length_append, List.length_map, List.length_replicate] at size
        omega
      rw [ofTerm?_array, Json.Fields.ofArray?, if_pos room.2, ← room.1, ← order, Option.bind_some]

/-! ## Values of the fields -/

/-- What may be given for a tag. -/
inductive TagWrittenAs : UInt32 → Option Term → Prop
  | zero : TagWrittenAs 0 none
  | digits {tag : UInt32} {digits : List Char} (said : Decimal.value digits = tag.toNat) :
      TagWrittenAs tag (some (.number ⟨false, digits, [], none⟩))

/-- What may be given for a clause or a child that a node does not have. -/
inductive Omitted : Option Term → Prop
  | absent : Omitted none
  | null : Omitted (some .null)

theorem readTag?_of_writtenAs {tag : UInt32} {given : Option Term}
    (written : TagWrittenAs tag given) : readTag? given = some tag := by
  cases written with
  | zero => rfl
  | @digits _ digits said =>
      have bound : tag.toNat < UInt32.size := tag.toNat_lt
      have wide : tag.toNat < UInt64.size := Nat.lt_trans bound (by decide)
      have whole : Json.Numeral.integer? ⟨false, digits, [], none⟩ = some (tag.toNat : Int) := by
        simp [Json.Numeral.integer?, said, wide]
      simp only [readTag?, Term.natBelow?, whole]
      simp only [if_pos bound, Option.map_some, UInt32.ofNat_toNat]

end Document

/-- The terms that stand for a kind. -/
inductive Kind.WrittenAs (kind : Kind) : Term → Prop
  | word {pieces : List Piece} (said : Piece.text? pieces = some kind.name) :
      WrittenAs kind (.string pieces)
  | key {pieces : List Piece} (said : Piece.text? pieces = some kind.name) :
      WrittenAs kind (.object [(pieces, .null)])

theorem Kind.ofName?_of_writtenAs {kind : Kind} {term : Term} (written : kind.WrittenAs term) :
    term.keyword?.bind ofName? = some kind := by
  cases written with
  | word said => rw [Term.keyword?, said, Option.bind_some, ofName?_name]
  | key said => rw [Term.keyword?, said, Option.bind_some, ofName?_name]

namespace Document

theorem readChild?_of_omitted {given : Option Term} (omitted : Omitted given) :
    readChild? (given.map withDocument) = some none := by
  cases omitted <;> rfl

theorem readClause?_of_omitted {given : Option Term} (omitted : Omitted given) :
    readClause? given = some none := by
  cases omitted <;> rfl

/-- Where a node stands, the node is what the reader finds. -/
theorem readChild?_of_ofTerm? {term : Term} {document : Document}
    (read : ofTerm? term = some document) :
    readChild? (some (withDocument term)) = some (some document) := by
  rw [withDocument, read]
  cases term with
  | null => cases read
  | _ => rfl

end Document

/-! ## Rules -/

namespace Rule

open Document (fields TagWrittenAs Omitted)

/-- The document that says of each node what the rule has there. -/
def toDocument : Rule → Document
  | leaf tag clause => .node .operand tag (some clause) none none
  | node tag _ connective left right =>
      .node (.joined connective) tag none (some left.toDocument) (some right.toDocument)

/-- The terms that write a rule. -/
inductive WrittenAs : Rule → Term → Prop
  | leaf {tag : UInt32} {clause : String} {term kind : Term} {pieces : List Piece}
      {tag? left? right? : Option Term}
      (lays : term.Lays fields [some kind, tag?, some (.string pieces), left?, right?])
      (kindWritten : Kind.operand.WrittenAs kind) (tagWritten : TagWrittenAs tag tag?)
      (said : Piece.text? pieces = some clause) (noLeft : Omitted left?)
      (noRight : Omitted right?) : WrittenAs (leaf tag clause) term
  | node {tag : UInt32} {height : Nat} {connective : Connective} {left right : Rule}
      {term kind leftTerm rightTerm : Term} {tag? clause? : Option Term}
      (lays : term.Lays fields [some kind, tag?, clause?, some leftTerm, some rightTerm])
      (kindWritten : (Kind.joined connective).WrittenAs kind) (tagWritten : TagWrittenAs tag tag?)
      (noClause : Omitted clause?) (leftWritten : WrittenAs left leftTerm)
      (rightWritten : WrittenAs right rightTerm) :
      WrittenAs (node tag height connective left right) term

/-- All terms that write a rule are read as one document. -/
theorem ofTerm?_of_writtenAs {rule : Rule} {term : Term} (written : rule.WrittenAs term) :
    Document.ofTerm? term = some rule.toDocument := by
  induction written with
  | leaf lays kindWritten tagWritten said noLeft noRight =>
      rw [Document.ofTerm?_of_lays lays rfl]
      exact Document.ofGiven?_eq_some_iff.2 ⟨_, _, _, _, _, rfl,
        Kind.ofName?_of_writtenAs kindWritten, Document.readTag?_of_writtenAs tagWritten,
        congrArg (Option.map some) said, Document.readChild?_of_omitted noLeft,
        Document.readChild?_of_omitted noRight⟩
  | node lays kindWritten tagWritten noClause _ _ ihLeft ihRight =>
      rw [Document.ofTerm?_of_lays lays rfl]
      exact Document.ofGiven?_eq_some_iff.2 ⟨_, _, _, _, _, rfl,
        Kind.ofName?_of_writtenAs kindWritten, Document.readTag?_of_writtenAs tagWritten,
        Document.readClause?_of_omitted noClause, Document.readChild?_of_ofTerm? ihLeft,
        Document.readChild?_of_ofTerm? ihRight⟩

end Rule

end Criteria
