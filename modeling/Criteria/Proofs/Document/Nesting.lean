/-
# Criteria.Proofs.Document.Nesting -- the brackets of a text nest as deep as its value

Whatever text is chosen for a value, its brackets nest as deep as the arrays and
objects of the value do: the term that is written goes as deep as the value that it
stands for (`Value.depth_of_ofTerm?`), repeated members and all, and the scan finds the
depth of the term. For a rule that is the height.

The scan need not know where a character ends. A byte beyond the first 128 means
nothing to it, except that it uses up an escape, and several such bytes do no more than
one (`foldl_of_high`). So the bytes of a text, each taken for a character, lead the scan
to where the characters of the text lead it (`foldl_bytes`).
-/
import Criteria.Proofs.Document.Spellings
import Criteria.Proofs.Json.Members
import Criteria.Proofs.Rule.Heights
import Criteria.Proofs.Text.Bytes

namespace Criteria.Json

set_option autoImplicit false

open BracketScan (step start)

/-! ## Values -/

namespace Value

mutual

/-- The number of arrays and objects around the innermost part. -/
def depth : Value → Nat
  | array items => depthOfItems items + 1
  | object members => depthOfMembers members + 1
  | _ => 0

def depthOfItems : List Value → Nat
  | [] => 0
  | item :: items => max item.depth (depthOfItems items)

def depthOfMembers : List (String × Value) → Nat
  | [] => 0
  | (_, value) :: members => max value.depth (depthOfMembers members)

end

theorem depth_of_ofNumeral? {numeral : Numeral} {value : Value}
    (said : ofNumeral? numeral = some value) : value.depth = 0 := by
  unfold ofNumeral? at said
  split at said
  · cases said
    rfl
  · split at said <;> cases said
    rfl

mutual

/-- A value goes as deep as the term that stands for it. -/
theorem depth_of_ofTerm? : ∀ {term : Term} {value : Value},
    ofTerm? term = some value → value.depth = term.depth
  | .null, _, said => by
      cases said
      rfl
  | .bool _, _, said => by
      cases said
      rfl
  | .number _, _, said => depth_of_ofNumeral? said
  | .string _, _, said => by
      obtain ⟨text, -, rfl⟩ := Option.map_eq_some_iff.1 said
      rfl
  | .array _, _, said => by
      obtain ⟨values, inside, rfl⟩ := Option.map_eq_some_iff.1 said
      rw [depth, Term.depth, depthOfItems_of_ofItems? inside]
  | .object _, _, said => by
      obtain ⟨values, inside, rfl⟩ := Option.map_eq_some_iff.1 said
      rw [depth, Term.depth, depthOfMembers_of_ofMembers? inside]

theorem depthOfItems_of_ofItems? : ∀ {items : List Term} {values : List Value},
    ofItems? items = some values → depthOfItems values = Term.depthOfItems items
  | [], _, said => by
      cases said
      rfl
  | item :: items, _, said => by
      simp only [ofItems?, Option.bind_eq_bind, Option.bind_eq_some_iff, Option.some.injEq] at said
      obtain ⟨value, here, values, later, rfl⟩ := said
      rw [depthOfItems, Term.depthOfItems, depth_of_ofTerm? here, depthOfItems_of_ofItems? later]

theorem depthOfMembers_of_ofMembers? : ∀ {members : List (List Piece × Term)}
    {values : List (String × Value)}, ofMembers? members = some values →
      depthOfMembers values = Term.depthOfMembers members
  | [], _, said => by
      cases said
      rfl
  | (name, term) :: members, _, said => by
      obtain ⟨_, value, values, -, here, later, rfl⟩ := ofMembers?_cons_eq_some_iff.1 said
      rw [depthOfMembers, Term.depthOfMembers, depth_of_ofTerm? here,
        depthOfMembers_of_ofMembers? later]

end

end Value

/-! ## Bytes -/

/-- The greatest number of brackets open at once, where each byte is taken for the
character with its number. -/
def nestingOfBytes (bytes : ByteArray) : Nat :=
  ((bytes.data.toList.map Char.ofUInt8).foldl step start).deepest

/-- Where the scan stands after a character that means nothing to it. -/
def BracketScan.pass (scan : BracketScan) : BracketScan :=
  match scan.place with
  | .escaped => { scan with place := .inside }
  | _ => scan

theorem pass_pass (scan : BracketScan) : scan.pass.pass = scan.pass := by
  obtain ⟨place, depth, deepest⟩ := scan
  cases place <;> rfl

/-- Beyond the first 128 characters there is none that means anything. -/
theorem step_of_high {c : Char} (high : 128 ≤ c.toNat) (scan : BracketScan) :
    step scan c = scan.pass := by
  have other {d : Char} (low : d.toNat < 128) : c ≠ d := by
    rintro rfl
    omega
  have quote : c ≠ '"' := other (by decide)
  have backslash : c ≠ '\\' := other (by decide)
  have brace : c ≠ '\x7b' := other (by decide)
  have bracket : c ≠ '[' := other (by decide)
  have brace' : c ≠ '\x7d' := other (by decide)
  have bracket' : c ≠ ']' := other (by decide)
  obtain ⟨place, depth, deepest⟩ := scan
  cases place with
  | outside => exact step_neutral ⟨quote, brace, bracket, brace', bracket'⟩ depth deepest
  | inside => exact step_quiet ⟨quote, backslash⟩ depth deepest
  | escaped => rfl

theorem foldl_of_high {chars : List Char} (some : chars ≠ []) (high : ∀ c ∈ chars, 128 ≤ c.toNat)
    (scan : BracketScan) : chars.foldl step scan = scan.pass := by
  induction chars generalizing scan with
  | nil => exact absurd rfl some
  | cons c chars ih =>
      obtain ⟨first, others⟩ := List.forall_mem_cons.1 high
      rw [List.foldl_cons, step_of_high first]
      cases chars with
      | nil => rfl
      | cons d chars => rw [ih (by simp) others, pass_pass]

theorem high_of_mem_utf8EncodeChar {c : Char} (high : 128 ≤ c.toNat) :
    ∀ byte ∈ String.utf8EncodeChar c, 128 ≤ (Char.ofUInt8 byte).toNat := by
  have value (byte : UInt8) : (Char.ofUInt8 byte).toNat = byte.toNat := rfl
  have long : ¬ c.val.toNat ≤ 127 := Nat.not_le.2 high
  simp only [value, String.utf8EncodeChar, if_neg long]
  -- in encodings of two, three and four bytes alike, each byte has its highest bit set
  split_ifs
  all_goals
    simp only [List.mem_cons, List.not_mem_nil, or_false, forall_eq_or_imp, forall_eq,
      UInt8.toNat_ofNat']
    omega

theorem foldl_utf8EncodeChar (c : Char) (scan : BracketScan) :
    ((String.utf8EncodeChar c).map Char.ofUInt8).foldl step scan = step scan c := by
  by_cases high : 128 ≤ c.toNat
  · have bytes : ∀ d ∈ (String.utf8EncodeChar c).map Char.ofUInt8, 128 ≤ d.toNat :=
      List.forall_mem_map.2 (high_of_mem_utf8EncodeChar high)
    rw [foldl_of_high (by simp [String.utf8EncodeChar_ne_nil]) bytes, step_of_high high]
  · have single : c.utf8Size = 1 := by
      rw [Char.utf8Size_eq_one_iff, UInt32.le_iff_toNat_le]
      exact Nat.le_of_lt_succ (Nat.not_le.1 high)
    have same : Char.ofUInt8 c.val.toUInt8 = c := by
      apply Char.toNat_inj.1
      show c.toNat % 256 = c.toNat
      exact Nat.mod_eq_of_lt (by omega)
    rw [String.utf8EncodeChar_eq_singleton single, List.map_singleton, same]
    rfl

theorem foldl_bytes (text : String) (scan : BracketScan) :
    ((Text.bytes text).map Char.ofUInt8).foldl step scan = text.toList.foldl step scan := by
  rw [Text.bytes]
  induction text.toList generalizing scan with
  | nil => rfl
  | cons c chars ih =>
      rw [List.flatMap_cons, List.map_append, List.foldl_append, foldl_utf8EncodeChar, ih,
        List.foldl_cons]

theorem nestingOfBytes_toByteArray (text : String) :
    nestingOfBytes text.toByteArray = nesting text := by
  rw [nestingOfBytes, ← Text.toByteArray_bytes, List.data_toByteArray, List.toList_toArray,
    foldl_bytes, nesting]

/-! ## Every text of a value -/

/-- However a value is written, the brackets of the text nest as deep as the arrays and
objects of the value, and it makes no difference whether the characters of the text are
gone through or its bytes. The brackets in the text of a rule nest as deep as the rule
is high. -/
theorem nesting_eq_depth :
    (∀ text term, Writes text term → nesting text = term.depth) ∧
    (∀ text term value, Writes text term → Value.ofTerm? term = some value →
      nesting text = value.depth) ∧
    (∀ text : String, nestingOfBytes text.toByteArray = nesting text) ∧
    ∀ rule : Rule, rule.Built → nesting rule.toJson = rule.height := by
  refine ⟨?_, ?_, nestingOfBytes_toByteArray, ?_⟩
  · intro text term writes
    exact nesting_of_writes writes
  · intro text term value writes said
    rw [nesting_of_writes writes, Value.depth_of_ofTerm? said]
  · intro rule built
    rw [Rule.nesting_toJson, built.sound.height_eq]

/-- One name twice, brackets and an escaped quotation mark in strings, and escapes that
need not be. -/
def bracketText : String :=
  "\t\x7b \"\\\\\\\"]\": [\"[[\x7b\", \x7b\"\\u005b\" :\"\\\\\"\x7d ],\n" ++
    "\"\\\\\\u0022]\":\"\x7d\" ,\"\u00e9\":[]\x7d"

def bracketTerm : Term :=
  .object [([.plain '\\', .plain '"', .plain ']'], .array [.string (Piece.ofText "[[\x7b"),
      .object [([.unit 0x5b], .string [.plain '\\'])]]),
    ([.plain '\\', .unit 0x22, .plain ']'], .string (Piece.ofText "\x7d")),
    (Piece.ofText "\u00e9", .array [])]

def bracketValue : Value :=
  .object [("\\\"]", .array [.string "[[\x7b", .object [("[", .string "\\")]]),
    ("\\\"]", .string "\x7d"), ("\u00e9", .array [])]

theorem nesting_eq_depth_bracketText :
    Writes bracketText bracketTerm ∧ Value.ofTerm? bracketTerm = some bracketValue ∧
      nesting bracketText = 3 ∧ bracketValue.depth = 3 ∧ (Rule.tower 255).Built ∧
      nesting (Rule.tower 255).toJson = 256 := by
  have taken : Term.read? bracketText.toList = some (bracketTerm, []) := by
    unfold bracketText
    simp only [String.toList_append, String.reduceToList]
    rfl
  have writes : Writes bracketText bracketTerm := Term.writes_of_read? taken rfl
  have said : Value.ofTerm? bracketTerm = some bracketValue := rfl
  have built : (Rule.tower 255).Built := Rule.built_tower (by decide)
  have depth : bracketValue.depth = 3 := by decide
  obtain ⟨-, values, -, rules⟩ := nesting_eq_depth
  exact ⟨writes, said, (values _ _ _ writes said).trans depth, depth, built,
    (rules _ built).trans (Rule.height_tower 255)⟩

end Criteria.Json
