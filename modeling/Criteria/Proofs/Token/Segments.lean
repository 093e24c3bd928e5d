/-
# Criteria.Proofs.Token.Segments -- the clauses that a list of tokens spells

A connective or a closing parenthesis ends a clause, an opening parenthesis does
not. `segments` are the runs of words between two such ends, empty ones left
out, and `clauseTexts` the clauses they make. Nothing here knows of stacks: these
are the quantities that reading has to account for.
-/
import Criteria.Token

namespace Criteria.Token

set_option autoImplicit false

/-- Whether a clause ends in front of the token. -/
def endsClause : Token → Bool
  | closing => true
  | connective _ => true
  | opening => false
  | word _ => false

def word? : Token → Option String
  | word text => some text
  | _ => none

def connective? : Token → Option Connective
  | connective c => some c
  | _ => none

/-- The words before the first end, between each two, and behind the last. -/
def runs (tokens : List Token) : List (List String) :=
  (tokens.splitOnP endsClause).map (List.filterMap word?)

/-- The longest runs of words that no connective and no closing parenthesis
interrupts. -/
def segments (tokens : List Token) : List (List String) := (runs tokens).filter (· ≠ [])

def clauseTexts (tokens : List Token) : List String :=
  (segments tokens).map " ".intercalate

/-- The connectives of a list of tokens, in order. -/
def connectives (tokens : List Token) : List Connective := tokens.filterMap connective?

def clauseCount (tokens : List Token) : Nat := (segments tokens).length

def connectiveCount (tokens : List Token) : Nat := (connectives tokens).length

/-! ## Runs and segments of a longer list -/

theorem runs_cons (token : Token) (tokens : List Token) : runs (token :: tokens) =
    if endsClause token then [] :: runs tokens
    else (runs tokens).modifyHead ((word? token).toList ++ ·) := by
  rw [runs, List.splitOnP_cons_eq_if_modifyHead, runs]
  split
  · rfl
  · obtain ⟨first, others, same⟩ :=
      List.exists_cons_of_ne_nil (List.splitOnP_ne_nil endsClause tokens)
    rw [same]
    cases word : word? token <;> simp [word]

/-- What stands on the two sides of an end is segmented separately. -/
theorem segments_append_end {token : Token} (ends : endsClause token) (before after : List Token) :
    segments (before ++ token :: after) = segments before ++ segments after := by
  rw [segments, runs, List.splitOnP_append_cons _ _ ends, List.map_append, List.filter_append]
  rfl

/-- An opening parenthesis may be left out anywhere. -/
theorem segments_append_opening (before after : List Token) :
    segments (before ++ opening :: after) = segments (before ++ after) := by
  have same : runs (before ++ opening :: after) = runs (before ++ after) := by
    induction before with
    | nil =>
        rw [List.nil_append, List.nil_append, runs_cons, if_neg (by decide)]
        cases runs after <;> rfl
    | cons token before ih =>
        rw [List.cons_append, List.cons_append, runs_cons, runs_cons, ih]
  rw [segments, segments, same]

theorem clauseTexts_append_end {token : Token} (ends : endsClause token)
    (before after : List Token) :
    clauseTexts (before ++ token :: after) = clauseTexts before ++ clauseTexts after := by
  rw [clauseTexts, segments_append_end ends, List.map_append]
  rfl

theorem clauseTexts_append_opening (before after : List Token) :
    clauseTexts (before ++ opening :: after) = clauseTexts (before ++ after) := by
  rw [clauseTexts, segments_append_opening, clauseTexts]

theorem segments_words (words : List String) :
    segments (words.map word) = if words = [] then [] else [words] := by
  have inside : ∀ t ∈ words.map word, endsClause t = false := by
    rintro t member
    obtain ⟨text, -, rfl⟩ := List.mem_map.1 member
    rfl
  have all : (words.map word).filterMap word? = words := by
    rw [List.filterMap_map]
    exact List.filterMap_some
  rw [segments, runs, List.splitOnP_eq_singleton inside, List.map_singleton, all]
  split <;> simp_all

/-- The words of a run are words of the text. -/
theorem word_mem_of_mem_runs {tokens : List Token} {run : List String}
    (listed : run ∈ runs tokens) : ∀ text ∈ run, word text ∈ tokens := by
  induction tokens generalizing run with
  | nil =>
      have empty : runs [] = [[]] := rfl
      rw [empty, List.mem_singleton] at listed
      simp [listed]
  | cons token tokens ih =>
      obtain ⟨first, others, same⟩ : ∃ first others, runs tokens = first :: others := by
        apply List.exists_cons_of_ne_nil
        simp [runs, List.splitOnP_ne_nil]
      intro text member
      rw [runs_cons] at listed
      split at listed
      · rcases List.mem_cons.1 listed with rfl | later
        · cases member
        · exact List.mem_cons_of_mem _ (ih later text member)
      · -- the token belongs to the first run, if it is a word at all
        rw [same, List.modifyHead_cons] at listed
        rw [same] at ih
        rcases List.mem_cons.1 listed with rfl | later
        · rcases List.mem_append.1 member with here | later
          · cases token <;> simp_all [word?]
          · exact List.mem_cons_of_mem _ (ih List.mem_cons_self text later)
        · exact List.mem_cons_of_mem _ (ih (List.mem_cons_of_mem _ later) text member)

theorem length_clauseTexts (tokens : List Token) :
    (clauseTexts tokens).length = clauseCount tokens :=
  List.length_map _

/-- The part of a text up to an end has no more clauses than the whole. -/
theorem clauseCount_le_append_end {token : Token} (ends : endsClause token)
    (before after : List Token) :
    clauseCount before ≤ clauseCount (before ++ token :: after) := by
  rw [clauseCount, clauseCount, segments_append_end ends, List.length_append]
  exact Nat.le_add_right _ _

theorem connectives_snoc (tokens : List Token) (token : Token) :
    connectives (tokens ++ [token]) = connectives tokens ++ token.connective?.toList := by
  rw [connectives, List.filterMap_append, connectives]
  cases token <;> rfl

end Criteria.Token
