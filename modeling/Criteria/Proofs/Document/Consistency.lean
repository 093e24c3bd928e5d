/-
# Criteria.Proofs.Document.Consistency -- which documents are rules, and what is wrong with the rest

Each node of a document fits its kind or does not, whatever stands below it
(`Document.fits`). A document is a rule if and only if all its nodes fit and no
path down from its root is too long (`exists_toRule_iff`). To find what is wrong
the nodes are gone through from the root, each before those below it and left
before right (`preorder`), and the first that does not fit decides the fault
(`misfit?_of_toRule`). Only where a path is too long may the height be found
wanting before that node is reached.
-/
import Criteria.Proofs.Document.Levels
import Criteria.Proofs.Rule.Paths

namespace Criteria

set_option autoImplicit false

variable {fault : NodeFault} {rule : Rule}

/-- What is said of a node of this kind that does not fit it. -/
def Kind.shapeFault : Kind → NodeFault
  | operand => .operandShape
  | joined _ => .connectiveShape

namespace Document

variable {document : Document}

/-! ## Nodes -/

def kind : Document → Kind
  | node kind _ _ _ _ => kind

def tag : Document → UInt32
  | node _ tag _ _ _ => tag

def clause? : Document → Option String
  | node _ _ clause? _ _ => clause?

def child? : Document → Branch → Option Document
  | node _ _ _ left? _, .left => left?
  | node _ _ _ _ right?, .right => right?

/-- The node at the end of a path, if the path stays inside the document. -/
def at? : Document → List Branch → Option Document
  | document, [] => some document
  | document, branch :: path => (document.child? branch).bind fun child => child.at? path

/-- Whether a node has what its kind needs and nothing else. -/
def fits : Document → Bool
  | node .operand _ clause? left? right? => clause?.isSome && left?.isNone && right?.isNone
  | node (.joined _) _ clause? left? right? => clause?.isNone && left?.isSome && right?.isSome

mutual

/-- Every node before those below it, the left ones before the right ones. -/
def preorder : Document → List Document
  | node kind tag clause? left? right? =>
      node kind tag clause? left? right? :: (preorderBelow left? ++ preorderBelow right?)

def preorderBelow : Option Document → List Document
  | none => []
  | some child => child.preorder

end

/-- No path down from the root has more nodes than a rule may have levels. -/
def Low (document : Document) : Prop :=
  ∀ path, (document.at? path).isSome → path.length + 1 ≤ 256

/-- The first node in the order of `preorder` that does not fit its kind. -/
def misfit? (document : Document) : Option Document :=
  document.preorder.find? fun node => !node.fits

/-- Every node fits its kind. -/
def Consistent (document : Document) : Prop :=
  ∀ path node, document.at? path = some node → node.fits

/-- What holds of a node whenever it holds of its children holds of every document. -/
@[elab_as_elim]
theorem induction {motive : Document → Prop}
    (step : ∀ document, (∀ branch child, document.child? branch = some child → motive child) →
      motive document) : ∀ document, motive document
  | .node kind tag clause? left? right? => by
      apply step
      intro branch child below
      cases branch with
      | left => cases below; exact induction step child
      | right => cases below; exact induction step child

/-! ## Nodes by their paths -/

theorem at?_cons_eq_some_iff {branch : Branch} {path : List Branch} {node : Document} :
    document.at? (branch :: path) = some node ↔
      ∃ child, document.child? branch = some child ∧ child.at? path = some node := by
  rw [at?, Option.bind_eq_some_iff]

@[simp] theorem at?_nil (document : Document) : document.at? [] = some document := by
  rw [at?]

theorem mem_preorder_of_child? {branch : Branch} {child node : Document}
    (below : document.child? branch = some child) (inside : node ∈ child.preorder) :
    node ∈ document.preorder := by
  cases document with
  | node kind tag clause? left? right? =>
      rw [preorder]
      cases branch with
      | left => cases below; simp [preorderBelow, inside]
      | right => cases below; simp [preorderBelow, inside]

theorem exists_child?_of_mem_preorder {node : Document} (inside : node ∈ document.preorder) :
    node = document ∨
      ∃ branch child, document.child? branch = some child ∧ node ∈ child.preorder := by
  cases document with
  | node kind tag clause? left? right? =>
      rw [preorder, List.mem_cons, List.mem_append] at inside
      rcases inside with same | inside | inside
      · exact .inl same
      · cases left? with
        | none => cases inside
        | some left => exact .inr ⟨.left, left, rfl, inside⟩
      · cases right? with
        | none => cases inside
        | some right => exact .inr ⟨.right, right, rfl, inside⟩

/-- Going through all nodes one after the other leaves out none. -/
theorem mem_preorder_iff {node : Document} :
    node ∈ document.preorder ↔ ∃ path, document.at? path = some node := by
  induction document using Document.induction with
  | step document ih =>
      constructor
      · intro inside
        rcases exists_child?_of_mem_preorder inside with rfl | ⟨branch, child, below, inside⟩
        · exact ⟨[], at?_nil _⟩
        · obtain ⟨path, found⟩ := (ih branch child below).1 inside
          exact ⟨branch :: path, at?_cons_eq_some_iff.2 ⟨child, below, found⟩⟩
      · rintro ⟨_ | ⟨branch, path⟩, found⟩
        · rw [at?_nil, Option.some.injEq] at found
          subst found
          cases document
          exact List.mem_cons_self
        · obtain ⟨child, below, found⟩ := at?_cons_eq_some_iff.1 found
          exact mem_preorder_of_child? below ((ih branch child below).2 ⟨path, found⟩)

theorem misfit?_eq_none_iff : document.misfit? = none ↔ document.Consistent := by
  simp only [misfit?, List.find?_eq_none, mem_preorder_iff, Bool.not_eq_true', Bool.not_eq_false]
  constructor
  · intro all path node found
    exact all node ⟨path, found⟩
  · rintro all node ⟨path, found⟩
    exact all path node found

/-! ## Long paths -/

theorem levels_eq (document : Document) : document.levels =
    1 + max (levelsBelow (document.child? .left)) (levelsBelow (document.child? .right)) := by
  cases document
  rfl

theorem levels_le_iff {n : Nat} : document.levels ≤ n ↔
    ∀ path, (document.at? path).isSome → path.length + 1 ≤ n := by
  induction document using Document.induction generalizing n with
  | step document ih =>
      constructor
      · rintro low (_ | ⟨branch, path⟩) inside
        · rw [levels_eq] at low
          simp only [List.length_nil]
          omega
        · obtain ⟨node, found⟩ := Option.isSome_iff_exists.1 inside
          obtain ⟨child, below, found⟩ := at?_cons_eq_some_iff.1 found
          have lower : child.levels ≤ n - 1 := by
            rw [levels_eq] at low
            cases branch <;> (rw [below, levelsBelow] at low; omega)
          have := (ih branch child below).1 lower path (by rw [found]; rfl)
          simp only [List.length_cons]
          omega
      · intro short
        have root : 1 ≤ n := short [] (by simp)
        have lower (branch : Branch) : levelsBelow (document.child? branch) ≤ n - 1 := by
          apply levelsBelow_le
          intro child below
          apply (ih branch child below).2
          intro path inside
          have := short (branch :: path) (by rwa [at?, below])
          simp only [List.length_cons] at this
          omega
        have := lower .left
        have := lower .right
        rw [levels_eq]
        omega

theorem low_iff : document.Low ↔ document.levels ≤ maxHeight := levels_le_iff.symm

/-! ## Documents of rules -/

theorem child?_toDocument (rule : Rule) (branch : Branch) :
    rule.toDocument.child? branch = (rule.child? branch).map Rule.toDocument := by
  cases rule <;> cases branch <;> rfl

theorem at?_toDocument (rule : Rule) (path : List Branch) :
    rule.toDocument.at? path = (rule.at? path).map Rule.toDocument := by
  induction path generalizing rule with
  | nil => simp
  | cons branch path ih =>
      rw [at?, Rule.at?, child?_toDocument]
      cases rule.child? branch with
      | none => rfl
      | some child => exact ih child

theorem fits_toDocument (rule : Rule) : rule.toDocument.fits := by
  cases rule <;> rfl

theorem consistent_toDocument (rule : Rule) : rule.toDocument.Consistent := by
  intro path node found
  rw [at?_toDocument] at found
  obtain ⟨below, -, rfl⟩ := Option.map_eq_some_iff.1 found
  exact fits_toDocument below

theorem consistent_of_toRule (built : document.toRule = .ok rule) : document.Consistent := by
  rw [← (toRule_eq_ok_iff.1 built).2]
  exact consistent_toDocument rule

/-! ## The first misfit -/

theorem misfit?_of_not_fits (wrong : document.fits = false) :
    document.misfit? = some document := by
  cases document
  rw [misfit?, preorder, List.find?_cons, wrong]
  rfl

/-- Below a node that fits the left child is gone through, and then the right one. -/
theorem misfit?_joined (connective : Connective) (tag : UInt32) (left right : Document) :
    (node (.joined connective) tag none (some left) (some right)).misfit? =
      left.misfit?.or right.misfit? := by
  simp [misfit?, preorder, preorderBelow, fits, List.find?_append]

/-- A fault other than the height is that of the first misfit. -/
theorem misfit?_of_toRule (failed : document.toRule = .error fault) (notTall : fault ≠ .tooTall) :
    ∃ node, document.misfit? = some node ∧ fault = node.kind.shapeFault := by
  fun_induction toRule document with
  | case1 => cases failed
  | case2 tag clause? left? right? other =>
      cases failed
      refine ⟨_, misfit?_of_not_fits ?_, rfl⟩
      cases clause? <;> cases left? <;> cases right? <;> simp_all [fits]
  | case3 connective tag left right ihLeft ihRight =>
      rw [misfit?_joined]
      rcases bind_eq_error_iff.1 failed with failed | ⟨ruleLeft, builtLeft, failed⟩
      · obtain ⟨node, first, same⟩ := ihLeft failed
        exact ⟨node, by rw [first]; rfl, same⟩
      · rw [misfit?_eq_none_iff.2 (consistent_of_toRule builtLeft), Option.none_or]
        rcases bind_eq_error_iff.1 failed with failed | ⟨ruleRight, builtRight, failed⟩
        · exact ihRight failed
        · split at failed
          · cases failed
          · cases failed
            exact absurd rfl notTall
  | case4 connective tag clause? left? right? other =>
      cases failed
      refine ⟨_, misfit?_of_not_fits ?_, rfl⟩
      cases clause? <;> cases left? <;> cases right? <;> simp_all [fits]

/-! ## Outcomes -/

theorem low_of_toRule (built : document.toRule = .ok rule) : document.Low := by
  rw [low_iff, ← levels_of_toRule built]
  exact (sound_toRule built).levels_le

theorem not_consistent_of_misfit? {node : Document} (first : document.misfit? = some node) :
    ¬ document.Consistent := by
  rw [← misfit?_eq_none_iff, first]
  exact Option.some_ne_none node

/-- There are two reasons to refuse a document, and each fault names one that is there. -/
theorem reason_of_toRule (failed : document.toRule = .error fault) :
    fault = .tooTall ∧ ¬ document.Low ∨
      ∃ node, document.misfit? = some node ∧ fault = node.kind.shapeFault := by
  by_cases tall : fault = .tooTall
  · subst tall
    refine .inl ⟨rfl, ?_⟩
    rw [low_iff]
    exact Nat.not_le.2 (lt_levels_of_tooTall failed)
  · exact .inr (misfit?_of_toRule failed tall)

theorem exists_toRule_iff :
    (∃ rule, document.toRule = .ok rule) ↔ document.Consistent ∧ document.Low := by
  constructor
  · rintro ⟨rule, built⟩
    exact ⟨consistent_of_toRule built, low_of_toRule built⟩
  · rintro ⟨consistent, low⟩
    cases outcome : document.toRule with
    | ok rule => exact ⟨rule, rfl⟩
    | error fault =>
        rcases reason_of_toRule outcome with ⟨-, notLow⟩ | ⟨node, first, -⟩
        · exact absurd low notLow
        · exact absurd consistent (not_consistent_of_misfit? first)

/-- Where no path is too long the first misfit decides. -/
theorem Low.toRule_eq_error_iff (low : document.Low) : document.toRule = .error fault ↔
    ∃ node, document.misfit? = some node ∧ fault = node.kind.shapeFault := by
  constructor
  · intro failed
    rcases reason_of_toRule failed with ⟨-, notLow⟩ | misfit
    · exact absurd low notLow
    · exact misfit
  · rintro ⟨node, first, rfl⟩
    cases outcome : document.toRule with
    | ok rule =>
        exact absurd (consistent_of_toRule outcome) (not_consistent_of_misfit? first)
    | error other =>
        rcases reason_of_toRule outcome with ⟨-, notLow⟩ | ⟨node', first', same⟩
        · exact absurd low notLow
        · rw [first] at first'
          cases first'
          rw [same]

/-- Where all nodes fit only the height can be wrong. -/
theorem Consistent.toRule_eq_error_iff (consistent : document.Consistent) :
    document.toRule = .error fault ↔ ¬ document.Low ∧ fault = .tooTall := by
  constructor
  · intro failed
    rcases reason_of_toRule failed with ⟨tall, notLow⟩ | ⟨node, first, -⟩
    · exact ⟨notLow, tall⟩
    · exact absurd consistent (not_consistent_of_misfit? first)
  · rintro ⟨notLow, rfl⟩
    cases outcome : document.toRule with
    | ok rule => exact absurd (low_of_toRule outcome) notLow
    | error other =>
        rcases reason_of_toRule outcome with ⟨rfl, -⟩ | ⟨node, first, -⟩
        · rfl
        · exact absurd consistent (not_consistent_of_misfit? first)

/-- What becomes of a document: it is taken if and only if all nodes fit and no
path has more than 256 of them, and then says the same as the rule at every path;
where no path is too long the first misfit decides the fault, and where all nodes
fit the fault is the height. -/
theorem toRule_outcome (document : Document) :
    ((∃ rule, document.toRule = .ok rule) ↔ document.Consistent ∧ document.Low) ∧
    (∀ rule, document.toRule = .ok rule → ∀ path,
      (rule.at? path).map (fun node => (node.kind, node.clause?, node.tag)) =
        (document.at? path).map fun node => (node.kind, node.clause?, node.tag)) ∧
    (document.Low → ∀ fault, document.toRule = .error fault ↔
      ∃ node, document.misfit? = some node ∧ fault = node.kind.shapeFault) ∧
    (document.Consistent → ∀ fault, document.toRule = .error fault ↔
      ¬ document.Low ∧ fault = .tooTall) ∧
    Kind.operand.shapeFault.reason =
      "Serialization error: OPERAND node needs a clause and no children" ∧
    (∀ connective, (Kind.joined connective).shapeFault.reason =
      "Serialization error: AND/OR node needs left and right and no clause") ∧
    NodeFault.tooTall.reason = "Rule nests deeper than 256 levels" := by
  refine ⟨exists_toRule_iff, ?_, fun low _ => low.toRule_eq_error_iff,
    fun consistent _ => consistent.toRule_eq_error_iff, rfl, fun _ => rfl, by decide⟩
  intro rule built path
  rw [← (toRule_eq_ok_iff.1 built).2, at?_toDocument, Option.map_map]
  congr 1
  funext node
  cases node <;> rfl

/-- A misfit on the left stands before one on the right, and the right one is not
looked at. -/
example : (node (.joined .and) 0 none (some (node (.joined .or) 0 (some "a") none none))
    (some (node .operand 0 none none none))).toRule = .error .connectiveShape := rfl

end Document

end Criteria
