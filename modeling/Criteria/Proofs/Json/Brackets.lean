/-
# Criteria.Proofs.Json.Brackets -- the bracket scan measures the depth of a term

The scan knows nothing of terms, it only keeps a place, a depth and the deepest
depth so far. In step with the grammar it comes back to the place and the depth
at which a text started, and has seen as many levels more as the term has
(`Spells.scan`): no bracket inside a string is counted, since only an unescaped
quotation mark leaves a string. So the scan of a whole text gives the depth of
its term (`nesting_of_spells`), and the scan of a text that goes on behind a term
gives no less (`depth_le_nesting`).
-/
import Criteria.Json.Nesting
import Criteria.Proofs.Json.Grammar

namespace Criteria.Json

set_option autoImplicit false

open BracketScan (step)

/-! ## Characters that leave the scan where it is -/

/-- Outside of strings such a character changes nothing. -/
def Neutral (c : Char) : Prop :=
  c ≠ '"' ∧ c ≠ '\x7b' ∧ c ≠ '[' ∧ c ≠ '\x7d' ∧ c ≠ ']'

instance (c : Char) : Decidable (Neutral c) := inferInstanceAs (Decidable (_ ∧ _))

theorem step_neutral {c : Char} (neutral : Neutral c) (depth deepest : Nat) :
    step ⟨.outside, depth, deepest⟩ c = ⟨.outside, depth, deepest⟩ := by
  obtain ⟨quote, brace, bracket, brace', bracket'⟩ := neutral
  simp [step, quote, brace, bracket, brace', bracket']

theorem foldl_cons_neutral {c : Char} (neutral : Neutral c) (chars : List Char)
    (depth deepest : Nat) :
    (c :: chars).foldl step ⟨.outside, depth, deepest⟩ =
      chars.foldl step ⟨.outside, depth, deepest⟩ := by
  rw [List.foldl_cons, step_neutral neutral]

theorem foldl_neutral {text : List Char} (neutral : ∀ c ∈ text, Neutral c)
    (depth deepest : Nat) :
    text.foldl step ⟨.outside, depth, deepest⟩ = ⟨.outside, depth, deepest⟩ := by
  induction text with
  | nil => rfl
  | cons c text ih =>
      rw [foldl_cons_neutral (neutral c List.mem_cons_self)]
      apply ih
      intro c member
      exact neutral c (List.mem_cons_of_mem _ member)

theorem neutral_of_isDigit {c : Char} (digit : c.isDigit) : Neutral c := by
  refine ⟨?_, ?_, ?_, ?_, ?_⟩ <;> rintro rfl <;> simp at digit

theorem Blanks.scan {chars rest : List Char} (blanks : Blanks chars rest) (depth deepest : Nat) :
    chars.foldl step ⟨.outside, depth, deepest⟩ = rest.foldl step ⟨.outside, depth, deepest⟩ := by
  induction blanks with
  | none => rfl
  | @more c chars rest blank _ ih =>
      have neutral : Neutral c := by
        rcases isSpace_eq_true_iff.1 blank with rfl | rfl | rfl | rfl <;> decide
      rw [foldl_cons_neutral neutral, ih]

theorem Numeral.SpellsExponent.neutral {text : List Char} {exponent? : Option Int}
    (spelled : SpellsExponent text exponent?) : ∀ c ∈ text, Neutral c := by
  have mark {letter : Char} (marked : letter = 'e' ∨ letter = 'E') : Neutral letter := by
    rcases marked with rfl | rfl <;> decide
  have digitsNeutral {digits : List Char} (all : ∀ c ∈ digits, c.isDigit) :
      ∀ c ∈ digits, Neutral c := by
    intro c member
    exact neutral_of_isDigit (all c member)
  cases spelled with
  | none => simp
  | plain marked _ all => simpa using ⟨mark marked, digitsNeutral all⟩
  | plus marked _ all => simpa using ⟨mark marked, by decide, digitsNeutral all⟩
  | minus marked _ all => simpa using ⟨mark marked, by decide, digitsNeutral all⟩

theorem Numeral.WellFormed.neutral {n : Numeral} (formed : n.WellFormed) {exponent : List Char}
    (tail : SpellsExponent exponent n.exponent?) :
    ∀ c ∈ n.signText ++ (n.whole ++ (n.fractionText ++ exponent)), Neutral c := by
  intro c member
  simp only [List.mem_append] at member
  rcases member with sign | whole | fraction | exponent
  · unfold signText at sign
    split at sign
    · cases List.mem_singleton.1 sign; decide
    · cases sign
  · exact neutral_of_isDigit (formed.whole_digits c whole)
  · unfold fractionText at fraction
    split at fraction
    · cases fraction
    · rcases List.mem_cons.1 fraction with rfl | digit
      · decide
      · exact neutral_of_isDigit (formed.fraction_digits c digit)
  · exact tail.neutral c exponent

/-! ## Strings -/

/-- A character after which the scan is still inside a string. -/
def Quiet (c : Char) : Prop := c ≠ '"' ∧ c ≠ '\\'

theorem step_quiet {c : Char} (quiet : Quiet c) (depth deepest : Nat) :
    step ⟨.inside, depth, deepest⟩ c = ⟨.inside, depth, deepest⟩ := by
  obtain ⟨quote, backslash⟩ := quiet
  simp [step, quote, backslash]

theorem Piece.quiet_of_hexDigit? {c : Char} {value : Nat} (digit : hexDigit? c = some value) :
    Quiet c := by
  constructor
  · rintro rfl
    exact absurd digit (by simp [hexDigit?])
  · rintro rfl
    exact absurd digit (by simp [hexDigit?])

theorem Piece.quiet_of_hexCode? {w x y z : Char} {code : Nat}
    (digits : hexCode? w x y z = some code) : Quiet w ∧ Quiet x ∧ Quiet y ∧ Quiet z := by
  simp only [hexCode?, Option.bind_eq_bind, Option.bind_eq_some_iff] at digits
  obtain ⟨_, first, _, second, _, third, _, fourth, -⟩ := digits
  exact ⟨quiet_of_hexDigit? first, quiet_of_hexDigit? second, quiet_of_hexDigit? third,
    quiet_of_hexDigit? fourth⟩

theorem Piece.Spells.scan {chars rest : List Char} {pieces : List Piece}
    (spelled : Piece.Spells chars pieces rest) (depth deepest : Nat) :
    chars.foldl step ⟨.inside, depth, deepest⟩ = rest.foldl step ⟨.outside, depth, deepest⟩ := by
  induction spelled with
  | closing rest => rfl
  | plain _ notQuote notBackslash _ ih =>
      rw [List.foldl_cons, step_quiet ⟨notQuote, notBackslash⟩, ih]
  | letter _ _ ih => exact ih
  | unit digits _ ih =>
      obtain ⟨first, second, third, fourth⟩ := quiet_of_hexCode? digits
      have escape (chars : List Char) :
          ('\\' :: 'u' :: chars).foldl step ⟨.inside, depth, deepest⟩ =
            chars.foldl step ⟨.inside, depth, deepest⟩ := rfl
      rw [escape, List.foldl_cons, step_quiet first, List.foldl_cons, step_quiet second,
        List.foldl_cons, step_quiet third, List.foldl_cons, step_quiet fourth, ih]

/-- The name of a member and the colon behind it. -/
theorem Piece.Spells.scan_name {chars quoted colon value text : List Char} {name : List Piece}
    (named : Piece.Spells quoted name colon) (before : Blanks chars ('"' :: quoted))
    (between : Blanks colon (':' :: value)) (within : Blanks value text) (depth deepest : Nat) :
    chars.foldl step ⟨.outside, depth, deepest⟩ = text.foldl step ⟨.outside, depth, deepest⟩ := by
  have opened : ('"' :: quoted).foldl step ⟨.outside, depth, deepest⟩ =
      quoted.foldl step ⟨.inside, depth, deepest⟩ := rfl
  rw [before.scan, opened, named.scan, between.scan, foldl_cons_neutral (by decide), within.scan]

/-! ## Terms -/

/-- A term without brackets goes no deeper than what is open. -/
theorem max_of_flat {term : Term} {depth deepest : Nat} (flat : term.depth = 0)
    (le : depth ≤ deepest) : max deepest (depth + term.depth) = deepest := by
  rw [flat]
  exact Nat.max_eq_left le

mutual

/-- A text of a term moves the scan to what follows it, with the depth of the
term added to the levels that are open. -/
theorem Spells.scan {chars rest : List Char} {term : Term} :
    Spells chars term rest → ∀ depth deepest, depth ≤ deepest →
      chars.foldl step ⟨.outside, depth, deepest⟩ =
        rest.foldl step ⟨.outside, depth, max deepest (depth + term.depth)⟩
  | .null _, depth, deepest, le => by
      rw [max_of_flat (show Term.depth .null = 0 from rfl) le]
      rfl
  | .yes _, depth, deepest, le => by
      rw [max_of_flat (show Term.depth (.bool true) = 0 from rfl) le]
      rfl
  | .no _, depth, deepest, le => by
      rw [max_of_flat (show Term.depth (.bool false) = 0 from rfl) le]
      rfl
  | .number (n := n) formed tail rest, depth, deepest, le => by
      rw [max_of_flat (show Term.depth (.number n) = 0 from rfl) le,
        ← List.append_assoc, ← List.append_assoc, ← List.append_assoc, List.foldl_append,
        List.append_assoc, List.append_assoc, foldl_neutral (formed.neutral tail)]
  | @Spells.string _ _ pieces inside, depth, deepest, le => by
      rw [max_of_flat (show Term.depth (.string pieces) = 0 from rfl) le]
      exact inside.scan depth deepest
  | .emptyArray inside, depth, deepest, _ => by
      rw [Term.depth, Term.depthOfItems, Nat.zero_add]
      exact inside.scan (depth + 1) (max deepest (depth + 1))
  | @Spells.array _ _ items inside, depth, deepest, _ => by
      have opened := inside.scan depth (max deepest (depth + 1)) (by omega)
      have same : max (max deepest (depth + 1)) (depth + 1 + Term.depthOfItems items) =
          max deepest (depth + Term.depth (.array items)) := by rw [Term.depth]; omega
      rw [← same]
      exact opened
  | .emptyObject inside, depth, deepest, _ => by
      rw [Term.depth, Term.depthOfMembers, Nat.zero_add]
      exact inside.scan (depth + 1) (max deepest (depth + 1))
  | @Spells.object _ _ members inside, depth, deepest, _ => by
      have opened := inside.scan depth (max deepest (depth + 1)) (by omega)
      have same : max (max deepest (depth + 1)) (depth + 1 + Term.depthOfMembers members) =
          max deepest (depth + Term.depth (.object members)) := by rw [Term.depth]; omega
      rw [← same]
      exact opened

/-- Items end with the bracket that closes the level they are on. -/
theorem SpellsItems.scan {chars rest : List Char} {items : List Term} :
    SpellsItems chars items rest → ∀ depth deepest, depth < deepest →
      chars.foldl step ⟨.outside, depth + 1, deepest⟩ =
        rest.foldl step ⟨.outside, depth, max deepest (depth + 1 + Term.depthOfItems items)⟩
  | .last before spelled behind, depth, deepest, lt => by
      rw [before.scan, spelled.scan _ _ lt, behind.scan, Term.depthOfItems, Term.depthOfItems,
        Nat.max_zero]
      rfl
  | @SpellsItems.more _ _ _ _ _ item items before spelled behind others, depth, deepest, lt => by
      have same : max (max deepest (depth + 1 + item.depth)) (depth + 1 + Term.depthOfItems items) =
          max deepest (depth + 1 + Term.depthOfItems (item :: items)) := by
        rw [Term.depthOfItems]; omega
      rw [before.scan, spelled.scan _ _ lt, behind.scan, foldl_cons_neutral (by decide),
        others.scan _ _ (by omega), same]

theorem SpellsMembers.scan {chars rest : List Char} {members : List (List Piece × Term)} :
    SpellsMembers chars members rest → ∀ depth deepest, depth < deepest →
      chars.foldl step ⟨.outside, depth + 1, deepest⟩ =
        rest.foldl step ⟨.outside, depth, max deepest (depth + 1 + Term.depthOfMembers members)⟩
  | .last before named between within spelled behind, depth, deepest, lt => by
      rw [named.scan_name before between within, spelled.scan _ _ lt, behind.scan,
        Term.depthOfMembers, Term.depthOfMembers, Nat.max_zero]
      rfl
  | @SpellsMembers.more _ _ _ _ _ _ _ _ name term members before named between within spelled
      behind others, depth, deepest, lt => by
      have same : max (max deepest (depth + 1 + term.depth))
            (depth + 1 + Term.depthOfMembers members) =
          max deepest (depth + 1 + Term.depthOfMembers ((name, term) :: members)) := by
        rw [Term.depthOfMembers]; omega
      rw [named.scan_name before between within, spelled.scan _ _ lt, behind.scan,
        foldl_cons_neutral (by decide), others.scan _ _ (by omega), same]

end

/-- The brackets of a text that is one term and blanks nest as deep as the term. -/
theorem nesting_of_spells {text : String} {chars rest : List Char} {term : Term}
    (before : Blanks text.toList chars) (spelled : Spells chars term rest)
    (behind : Blanks rest []) : nesting text = term.depth := by
  rw [nesting, BracketScan.start, before.scan, spelled.scan _ _ (Nat.le_refl 0), behind.scan]
  simp

/-! ## Texts that go on -/

theorem deepest_le_step (scan : BracketScan) (c : Char) : scan.deepest ≤ (step scan c).deepest := by
  unfold step
  split
  · exact Nat.le_refl _
  · split
    · exact Nat.le_refl _
    · split <;> exact Nat.le_refl _
  · split
    · exact Nat.le_refl _
    · split
      · exact Nat.le_max_left _ _
      · split <;> exact Nat.le_refl _

theorem deepest_le_foldl (chars : List Char) (scan : BracketScan) :
    scan.deepest ≤ (chars.foldl step scan).deepest := by
  induction chars generalizing scan with
  | nil => exact Nat.le_refl _
  | cons c chars ih => exact Nat.le_trans (deepest_le_step scan c) (ih (step scan c))

/-- The brackets of a text nest at least as deep as a term at its front. -/
theorem depth_le_nesting {text : String} {chars rest : List Char} {term : Term}
    (before : Blanks text.toList chars) (spelled : Spells chars term rest) :
    term.depth ≤ nesting text := by
  rw [nesting, BracketScan.start, before.scan, spelled.scan _ _ (Nat.le_refl 0), Nat.zero_max,
    Nat.zero_add]
  exact deepest_le_foldl rest ⟨.outside, 0, term.depth⟩

end Criteria.Json
