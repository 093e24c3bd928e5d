/-
# Criteria.Proofs.Evaluation.Meaning -- what the words of a clause say

A value of a record is compared as a text or as an integer, whichever the operator
asks for. `TextView` and `IntegerView` tell, for either kind of value, what it is then
taken for. On them rests `Means`, which lists what the words of a clause can come to
for a record: two values for each kind of operator, or one of four refusals, each with
all that has to be in order before it is reached. It speaks of symbols, of integers
and of texts, and knows nothing of splitting a text or of words with a fixed size;
evaluating a clause finds the one outcome that is listed (`holds_eq_iff`).

A clause is split at its spaces and nowhere else, so what was put together from words
without spaces falls into the same words again, unless the last of them is empty
(`parts_intercalate`). The words of a rule text contain no spaces, whatever they were
separated by, and so a text that has words only, and opening parentheses, becomes a
leaf that means what its words say (`evaluate_words`).
-/
import Criteria.Proofs.Assembly.Step
import Criteria.Proofs.Decimal
import Criteria.Proofs.Token.Lexemes
import Criteria.Rule.Evaluation

namespace Criteria

set_option autoImplicit false

/-! ## What a value is taken for -/

namespace Attribute

/-- What a value is as a text: an integer is the empty one. -/
inductive TextView : Attribute → String → Prop
  | text (content : String) : TextView (.text content) content
  | integer (number : Int32) : TextView (.integer number) ""

/-- What a value is as an integer: a text is 0. -/
inductive IntegerView : Attribute → Int → Prop
  | integer (number : Int32) : IntegerView (.integer number) number.toInt
  | text (content : String) : IntegerView (.text content) 0

variable {actual : Attribute}

theorem textView_iff {content : String} : actual.TextView content ↔ actual.asText = content := by
  constructor
  · intro view
    cases view with
    | text _ => rfl
    | integer _ => rfl
  · rintro rfl
    cases actual with
    | text content => exact .text content
    | integer number => exact .integer number

theorem integerView_iff {number : Int} :
    actual.IntegerView number ↔ actual.asInteger.toInt = number := by
  constructor
  · intro view
    cases view with
    | integer _ => rfl
    | text _ => rfl
  · rintro rfl
    cases actual with
    | integer number => exact .integer number
    | text content => exact .text content

end Attribute

namespace Clause

/-! ## Splitting what was put together -/

theorem dropTrailingSpaces_append {tail : List Char} (some : tail ≠ []) (solid : ' ' ∉ tail)
    (chars : List Char) : dropTrailingSpaces (chars ++ tail) = chars ++ tail := by
  rw [← List.dropLast_concat_getLast some] at solid ⊢
  have other : tail.getLast some ≠ ' ' := by
    intro space
    simp [space] at solid
  simp [dropTrailingSpaces, other]

theorem exists_intercalate_eq_append (words : List String) (last : String) :
    ∃ before, " ".intercalate (words ++ [last]) = before ++ last := by
  cases words with
  | nil => exact ⟨"", by simp⟩
  | cons word words =>
      refine ⟨" ".intercalate (word :: words) ++ " ", ?_⟩
      rw [String.intercalate_append_of_ne_nil (by simp) (by simp), String.intercalate_singleton]

/-- Joining words that contain no spaces is undone by splitting. Trailing spaces are
dropped first, so the last word must not be empty; the others may be. -/
theorem parts_intercalate {words : List String} {last : String}
    (solid : ∀ word ∈ words ++ [last], ' ' ∉ word.toList) (some : last ≠ "") :
    parts (" ".intercalate (words ++ [last])) = words ++ [last] := by
  have whole : dropTrailingSpaces (" ".intercalate (words ++ [last])).toList =
      (" ".intercalate (words ++ [last])).toList := by
    obtain ⟨before, same⟩ := exists_intercalate_eq_append words last
    rw [same, String.toList_append]
    exact dropTrailingSpaces_append (by simpa using some) (solid last (by simp)) _
  have split : List.splitOn ' ' ([' '].intercalate ((words ++ [last]).map String.toList)) =
      (words ++ [last]).map String.toList := by
    apply List.splitOn_intercalate
    · intro chars member
      obtain ⟨word, listed, rfl⟩ := List.mem_map.1 member
      exact solid word listed
    · simp
  have space : " ".toList = [' '] := rfl
  rw [parts, whole, String.toList_intercalate, space, split, List.map_map]
  simp

/-! ## What the words say -/

/-- The symbols that compare integers, the one of the attribute with the threshold. -/
def orders : List (String × (Int → Int → Bool)) :=
  [(">", fun actual threshold => threshold < actual),
   ("<", fun actual threshold => actual < threshold),
   (">=", fun actual threshold => threshold ≤ actual),
   ("<=", fun actual threshold => actual ≤ threshold)]

/-- All symbols that stand for an operator. -/
def symbols : List String := [">", "<", ">=", "<=", "==", "=", "!="]

/-- What a clause with these words comes to for a record. -/
inductive Means (record : Record) (clause : String) : List String → Except Error Bool → Prop
  | shapeless {words : List String} (other : words.length ≠ 3) :
      Means record clause words (.error (.malformedClause clause))
  | missing {name symbol value : String} (absent : record[name]? = none) :
      Means record clause [name, symbol, value] (.error (.missingAttribute name))
  | unknown {name symbol value : String} {actual : Attribute}
      (found : record[name]? = some actual) (other : symbol ∉ symbols) :
      Means record clause [name, symbol, value] (.error (.unknownOperator symbol))
  | same {name symbol value content : String} {actual : Attribute}
      (found : record[name]? = some actual) (view : actual.TextView content)
      (equality : symbol = "==" ∨ symbol = "=") :
      Means record clause [name, symbol, value] (.ok (decide (content = unquote value)))
  | different {name value content : String} {actual : Attribute}
      (found : record[name]? = some actual) (view : actual.TextView content) :
      Means record clause [name, "!=", value] (.ok (decide (content ≠ unquote value)))
  | compared {name symbol value : String} {actual : Attribute} {compare : Int → Int → Bool}
      {number threshold : Int} (found : record[name]? = some actual)
      (view : actual.IntegerView number) (order : (symbol, compare) ∈ orders)
      (literal : Decimal.Literal (unquote value) threshold) :
      Means record clause [name, symbol, value] (.ok (compare number threshold))
  | unread {name symbol value : String} {actual : Attribute} {compare : Int → Int → Bool}
      (found : record[name]? = some actual) (order : (symbol, compare) ∈ orders)
      (noLiteral : ∀ threshold, ¬ Decimal.Literal (unquote value) threshold) :
      Means record clause [name, symbol, value] (.error (.malformedClause clause))

theorem ofSymbol?_of_order {symbol : String} {compare : Int → Int → Bool}
    (order : (symbol, compare) ∈ orders) :
    ∃ test, Operator.ofSymbol? symbol = some (.magnitude test) ∧
      ∀ actual threshold : Int32,
        test.holds actual threshold = compare actual.toInt threshold.toInt := by
  simp only [orders, List.mem_cons, Prod.mk.injEq, List.not_mem_nil, or_false] at order
  rcases order with ⟨rfl, rfl⟩ | ⟨rfl, rfl⟩ | ⟨rfl, rfl⟩ | ⟨rfl, rfl⟩
  · refine ⟨.greater, rfl, ?_⟩
    intro actual threshold
    exact decide_eq_decide.2 Int32.lt_iff_toInt_lt
  · refine ⟨.less, rfl, ?_⟩
    intro actual threshold
    exact decide_eq_decide.2 Int32.lt_iff_toInt_lt
  · refine ⟨.atLeast, rfl, ?_⟩
    intro actual threshold
    exact decide_eq_decide.2 Int32.le_iff_toInt_le
  · refine ⟨.atMost, rfl, ?_⟩
    intro actual threshold
    exact decide_eq_decide.2 Int32.le_iff_toInt_le

theorem ofSymbol?_of_not_mem {symbol : String} (other : symbol ∉ symbols) :
    Operator.ofSymbol? symbol = none := by
  unfold Operator.ofSymbol?
  split <;> simp_all [symbols]

theorem exists_order_of_mem {symbol : String} (known : symbol ∈ symbols) :
    symbol = "==" ∨ symbol = "=" ∨ symbol = "!=" ∨ ∃ compare, (symbol, compare) ∈ orders := by
  simp only [symbols, List.mem_cons, List.not_mem_nil, or_false] at known
  rcases known with rfl | rfl | rfl | rfl | rfl | rfl | rfl
  all_goals simp [orders]

variable {record : Record} {clause : String} {words : List String} {outcome : Except Error Bool}

theorem holds_of_shapeless (shape : parts clause = words) (other : words.length ≠ 3) :
    holds record clause = .error (.malformedClause clause) := by
  unfold holds
  split
  · rename_i three
    rw [← shape, three] at other
    exact absurd rfl other
  · rfl

theorem holds_of_means (shape : parts clause = words) (means : Means record clause words outcome) :
    holds record clause = outcome := by
  cases means with
  | shapeless other => exact holds_of_shapeless shape other
  | missing absent => simp only [holds, shape, absent]
  | unknown found other => simp only [holds, shape, found, ofSymbol?_of_not_mem other]
  | @same _ symbol _ _ _ found view equality =>
      have known : Operator.ofSymbol? symbol = some (.likeness .same) := by
        rcases equality with rfl | rfl <;> rfl
      simp only [holds, shape, found, known, Attribute.textView_iff.1 view, Likeness.holds,
        beq_eq_decide]
  | different found view =>
      have known : Operator.ofSymbol? "!=" = some (.likeness .different) := rfl
      simp only [holds, shape, found, known, Attribute.textView_iff.1 view, Likeness.holds, bne,
        beq_eq_decide, ne_eq, decide_not]
  | compared found view order literal =>
      obtain ⟨test, known, agrees⟩ := ofSymbol?_of_order order
      obtain ⟨w, read, rfl⟩ := Decimal.literal_iff.1 literal
      simp only [holds, shape, found, known, read, agrees, Attribute.integerView_iff.1 view]
  | unread found order noLiteral =>
      obtain ⟨test, known, -⟩ := ofSymbol?_of_order order
      simp only [holds, shape, found, known, Decimal.int32?_eq_none_iff.2 noLiteral]

theorem exists_means (record : Record) (clause : String) (words : List String) :
    ∃ outcome, Means record clause words outcome := by
  by_cases three : words.length = 3
  · obtain ⟨name, symbol, value, rfl⟩ := List.length_eq_three.1 three
    cases found : record[name]? with
    | none => exact ⟨_, .missing found⟩
    | some actual =>
        have textView : actual.TextView actual.asText := Attribute.textView_iff.2 rfl
        have integerView : actual.IntegerView actual.asInteger.toInt :=
          Attribute.integerView_iff.2 rfl
        by_cases known : symbol ∈ symbols
        · rcases exists_order_of_mem known with rfl | rfl | rfl | ⟨compare, order⟩
          · exact ⟨_, .same found textView (.inl rfl)⟩
          · exact ⟨_, .same found textView (.inr rfl)⟩
          · exact ⟨_, .different found textView⟩
          · by_cases literal : ∃ threshold, Decimal.Literal (unquote value) threshold
            · obtain ⟨threshold, literal⟩ := literal
              exact ⟨_, .compared found integerView order literal⟩
            · exact ⟨_, .unread found order (not_exists.1 literal)⟩
        · exact ⟨_, .unknown found known⟩
  · exact ⟨_, .shapeless three⟩

/-- A clause comes to the outcome that its words mean, and they mean one outcome only. -/
theorem holds_eq_iff (shape : parts clause = words) :
    holds record clause = outcome ↔ Means record clause words outcome := by
  constructor
  · rintro rfl
    obtain ⟨outcome, means⟩ := exists_means record clause words
    rw [holds_of_means shape means]
    exact means
  · exact holds_of_means shape

end Clause

namespace Rule

variable {text : String} {words : List String}

/-! ## From the text of a rule -/

/-- Words with nothing between them but opening parentheses make one leaf. -/
theorem parse_words (some : words ≠ [])
    (spelled : (Token.ofText text).filter (· ≠ .opening) = words.map .word) :
    parse text = .ok (leaf rootTag (" ".intercalate words)) := by
  have collected := Assembly.foldlM_take_words Assembly.start words
  have finished : (Assembly.mk [] [] (words.reverse ++ [])).finish =
      .ok (ofClause (" ".intercalate words)) := by
    rw [Assembly.finish_eq_ok_iff, Assembly.endClause, if_neg (by simpa using some),
      List.append_nil, List.reverse_reverse]
    rfl
  have read : ofTokens (Token.ofText text) = .ok (ofClause (" ".intercalate words)) := by
    rw [← ofTokens_filter, spelled]
    exact ofTokens_eq_ok_iff.2 ⟨_, collected, finished⟩
  exact parse_eq_ok_iff.2 ⟨_, read, rfl⟩

theorem space_not_mem_of_spelled
    (spelled : (Token.ofText text).filter (· ≠ .opening) = words.map .word) :
    ∀ word ∈ words, word ≠ "" ∧ ' ' ∉ word.toList := by
  intro word member
  have listed : Token.word word ∈ (Token.ofText text).filter (· ≠ .opening) := by
    rw [spelled]
    exact List.mem_map_of_mem member
  have clean := Token.cleanWord_of_mem_ofText (List.mem_filter.1 listed).1
  refine ⟨clean.ne_empty, ?_⟩
  intro space
  have blank : Text.isBlank ' ' = true := rfl
  rw [clean.no_blank ' ' space] at blank
  cases blank

/-- A text of words, and of opening parentheses if need be, is read as one leaf, which
comes to what its words mean for a record and to nothing else. -/
theorem evaluate_words (some : words ≠ [])
    (spelled : (Token.ofText text).filter (· ≠ .opening) = words.map .word) :
    parse text = .ok (leaf 1 (" ".intercalate words)) ∧
      ∀ record outcome, evaluate record (leaf 1 (" ".intercalate words)) = outcome ↔
        Clause.Means record (" ".intercalate words) words outcome := by
  refine ⟨parse_words some spelled, ?_⟩
  have solid := space_not_mem_of_spelled spelled
  have shape : Clause.parts (" ".intercalate words) = words := by
    rw [← List.dropLast_concat_getLast some] at solid ⊢
    apply Clause.parts_intercalate
    · intro word member
      exact (solid word member).2
    · exact (solid _ (by simp)).1
  intro record outcome
  rw [evaluate]
  exact Clause.holds_eq_iff shape

/-- Wide blanks, a parenthesis that nothing closes, and quotation marks in a number;
and both kinds of value, each behind an operator for its own kind and for the other. -/
theorem evaluate_words_views :
    (parse "((balance\u2003>=( \t-'5'" = .ok (leaf 1 "balance >= -'5'") ∧
      evaluate ((∅ : Record).insert "balance" (.integer (-5))) (leaf 1 "balance >= -'5'") =
        .ok true ∧
      evaluate ((∅ : Record).insert "balance" (.integer (-6))) (leaf 1 "balance >= -'5'") =
        .ok false ∧
      evaluate ((∅ : Record).insert "balance" (.text "-6")) (leaf 1 "balance >= -'5'") =
        .ok true ∧
      evaluate ((∅ : Record).insert "age" (.integer 3)) (leaf 1 "balance >= -'5'") =
        .error (.missingAttribute "balance")) ∧
    parse "city == 'Rome'" = .ok (leaf 1 "city == 'Rome'") ∧
      evaluate ((∅ : Record).insert "city" (.text "Rome")) (leaf 1 "city == 'Rome'") =
        .ok true ∧
      evaluate ((∅ : Record).insert "city" (.integer 7)) (leaf 1 "city == 'Rome'") =
        .ok false := by
  have present (name : String) (value : Attribute) :
      ((∅ : Record).insert name value)[name]? = some value :=
    Std.ExtTreeMap.getElem?_insert_self
  refine ⟨?_, ?_⟩
  · have spelled : (Token.ofText "((balance\u2003>=( \t-'5'").filter (· ≠ .opening) =
        ["balance", ">=", "-'5'"].map .word := by
      decide +kernel
    obtain ⟨read, means⟩ := evaluate_words (by simp) spelled
    have literal : Decimal.Literal (Clause.unquote "-'5'") (-5) := by
      have unquoted : Clause.unquote "-'5'" = toString (-5 : Int) := rfl
      rw [unquoted]
      exact ⟨Decimal.writes_toString (-5), by decide, by decide⟩
    have atLeast : (">=", fun actual threshold => decide (threshold ≤ actual)) ∈
        Clause.orders := by
      simp [Clause.orders]
    exact ⟨read, (means _ _).2 (.compared (present _ _) (.integer (-5)) atLeast literal),
      (means _ _).2 (.compared (present _ _) (.integer (-6)) atLeast literal),
      (means _ _).2 (.compared (present _ _) (.text "-6") atLeast literal),
      (means _ _).2 (.missing rfl)⟩
  · have spelled : (Token.ofText "city == 'Rome'").filter (· ≠ .opening) =
        ["city", "==", "'Rome'"].map .word := by
      decide +kernel
    obtain ⟨read, means⟩ := evaluate_words (by simp) spelled
    exact ⟨read, (means _ _).2 (.same (present _ _) (.text "Rome") (.inl rfl)),
      (means _ _).2 (.same (present _ _) (.integer 7) (.inl rfl))⟩

end Rule

end Criteria
