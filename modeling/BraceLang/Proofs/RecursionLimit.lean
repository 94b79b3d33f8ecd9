import Mathlib.Control.Monad.Basic
import BraceLang.Proofs.Evaluation.Blame
import BraceLang.Proofs.Evaluation.Depth
import BraceLang.Proofs.Grammar.Depth

/-!
# The recursion limit is seen only in its own error

Parsing and evaluation have a limit on their nesting. What is not nested too deeply does not depend
on it (`parseWithin_eq_of_le`, `evaluation_eq_of_le`). What is nested too deeply fails with an error
of its own, which evaluation reports at the root of the tree that it was asked to evaluate.

The report is made where evaluation begins, in `reporting`. No rule of evaluation reports the limit
itself, because a nesting that is too deep passes through all rules as it is (`tree_unreported`), so
the error has no other source.
-/

set_option autoImplicit false

namespace BraceLang

namespace Eval

open Effect

/-! ## Halts that report the limit -/

/-- A halt that does not report the recursion limit. -/
def Halt.Unreported : Halt → Prop
  | .failed error => error.fault ≠ .recursionLimit
  | .tooDeep | .unfinished | .scopeUnderflow => True

/-- An action that never reports the recursion limit. -/
abbrev Unreported {α : Type} (action : Eval α) : Prop :=
  Upholds (fun _ => True) Halt.Unreported action fun _ => True

namespace Unreported

variable {α β : Type}

theorem value (result : α) : Unreported (pure result : Eval α) :=
  Upholds.value trivial

theorem fail {fault : Fault} (other : fault ≠ .recursionLimit) (offset : Int) :
    Unreported (fail fault offset : Eval α) :=
  fun _ _ => ⟨trivial, other⟩

theorem bind {action : Eval α} {next : α → Eval β} (first : Unreported action)
    (second : ∀ result, Unreported (next result)) : Unreported (action >>= next) :=
  Upholds.bind first fun result _ => second result

theorem inScope {action : Eval α} (framed : Framed action) (unreported : Unreported action) :
    Unreported (inScope action) :=
  inScope_upholds framed (fun _ _ => trivial) unreported

theorem located {computed : Except Fault α} (offset : Int)
    (other : ∀ fault, computed = .error fault → fault ≠ .recursionLimit) :
    Unreported (located offset computed) := by
  cases computed with
  | ok result => exact value result
  | error fault => exact fail (other fault rfl) offset

end Unreported

/-! ## Computations -/

theorem literal_ne_recursionLimit {text : String} {fault : Fault}
    (failed : literal text = .error fault) : fault ≠ .recursionLimit := by
  unfold literal at failed
  split at failed
  · cases failed
    rintro ⟨⟩
  · split at failed
    · cases failed
    · cases failed
      rintro ⟨⟩

theorem combine_ne_recursionLimit {text : String} {left right : Value} {fault : Fault}
    (failed : combine text left right = .error fault) : fault ≠ .recursionLimit := by
  rintro rfl
  cases namedText?_of_combine failed

theorem condition_ne_recursionLimit {label : String} {value : Value} {fault : Fault}
    (failed : condition label value = .error fault) : fault ≠ .recursionLimit := by
  unfold condition at failed
  split at failed <;> cases failed
  rintro ⟨⟩

theorem parameterNames_ne_recursionLimit {parameters : List Tree} {earlier : List String}
    {error : Error} (failed : parameterNames earlier parameters = .error error) :
    error.fault ≠ .recursionLimit := by
  induction parameters generalizing earlier with
  | nil => cases failed
  | cons parameter parameters ih =>
      rw [parameterNames] at failed
      split at failed
      · cases failed
        rintro ⟨⟩
      · split at failed
        · cases failed
          rintro ⟨⟩
        · cases rest : parameterNames (parameter.text :: earlier) parameters with
          | ok names =>
              rw [rest] at failed
              cases failed
          | error error' =>
              rw [rest] at failed
              cases failed
              exact ih rest

theorem routineOf_ne_recursionLimit {root : Tree} {error : Error}
    (failed : routineOf root = .error error) : error.fault ≠ .recursionLimit := by
  unfold routineOf at failed
  split at failed
  · cases failed
    rintro ⟨⟩
  · next name rest _ =>
      split at failed
      · cases failed
        rintro ⟨⟩
      · split at failed
        · cases failed
          rintro ⟨⟩
        · split at failed
          · cases failed
            rintro ⟨⟩
          · cases named : parameterNames [] rest.dropLast with
            | ok names =>
                rw [named] at failed
                cases failed
            | error error' =>
                rw [named] at failed
                cases failed
                exact parameterNames_ne_recursionLimit named

/-! ## Nodes -/

section Rules

variable {inner : Tree → Eval Value} (inside : ∀ tree, Unreported (inner tree))

theorem read_unreported (name : String) (offset : Int) : Unreported (read name offset) := by
  rw [read_eq]
  have lookup : Unreported (lookupValue name) := fun _ _ => ⟨trivial, trivial⟩
  refine lookup.bind fun found => ?_
  cases found with
  | some value => exact .value value
  | none => exact .fail (by rintro ⟨⟩) offset

theorem definition_unreported (tree : Tree) : Unreported (definition tree) := by
  unfold definition
  cases described : routineOf tree with
  | ok routine => exact fun _ _ => ⟨trivial, trivial⟩
  | error error => exact fun _ _ => ⟨trivial, routineOf_ne_recursionLimit described⟩

include inside

theorem sequence_unreported (value : Value) (trees : List Tree) :
    Unreported (sequence inner value trees) := by
  induction trees generalizing value with
  | nil => exact .value value
  | cons tree trees ih => exact (inside tree).bind ih

theorem values_unreported (trees : List Tree) : Unreported (values inner trees) := by
  induction trees with
  | nil => exact .value []
  | cons tree trees ih => exact (inside tree).bind fun _ => ih.bind fun _ => .value _

theorem test_unreported (label : String) (tree : Tree) : Unreported (test inner label tree) :=
  (inside tree).bind fun _ => .located _ fun _ => condition_ne_recursionLimit

theorem rounds_unreported (question body : Tree) (bound : Nat) :
    Unreported (rounds inner question body bound) := by
  induction bound with
  | zero => exact fun _ _ => ⟨trivial, trivial⟩
  | succ bound ih =>
      refine (test_unreported inside _ _).bind fun truth => ?_
      cases truth with
      | true => exact (inside body).bind fun _ => ih
      | false => exact .value _

theorem assignment_unreported (tree : Tree) : Unreported (assignment inner tree) := by
  unfold assignment
  split
  · split
    · exact (inside _).bind fun _ => fun _ _ => ⟨trivial, trivial⟩
    · exact .fail (by rintro ⟨⟩) _
  · exact .fail (by rintro ⟨⟩) _

theorem operation_unreported (tree : Tree) : Unreported (operation inner tree) := by
  unfold operation
  split
  · exact (inside _).bind fun _ => (inside _).bind fun _ =>
      .located _ fun _ => combine_ne_recursionLimit
  · exact .fail (by rintro ⟨⟩) _

theorem conditional_unreported (tree : Tree) : Unreported (conditional inner tree) := by
  unfold conditional
  split
  · refine (test_unreported inside _ _).bind fun truth => ?_
    cases truth with
    | true => exact inside _
    | false => exact .value _
  · refine (test_unreported inside _ _).bind fun truth => ?_
    cases truth with
    | true => exact inside _
    | false => exact inside _
  · exact .fail (by rintro ⟨⟩) _

theorem loop_unreported (bound : Nat) (tree : Tree) : Unreported (loop inner bound tree) := by
  unfold loop
  split
  · exact rounds_unreported inside _ _ bound
  · exact .fail (by rintro ⟨⟩) _

variable (framed : ∀ tree, Framed (inner tree))
include framed

theorem block_unreported (tree : Tree) : Unreported (block inner tree) := by
  have run := sequence_unreported inside .null tree.children
  unfold block
  split
  · exact .inScope (sequence_framed framed _ _) run
  · exact run

theorem call_unreported (tree : Tree) : Unreported (call inner tree) := by
  rw [call_eq]
  have lookup : Unreported (lookupRoutine tree.text) := fun _ _ => ⟨trivial, trivial⟩
  refine lookup.bind fun found => ?_
  cases found with
  | none => exact .fail (by rintro ⟨⟩) _
  | some routine =>
      refine (values_unreported inside _).bind fun arguments => ?_
      unfold apply
      split
      · exact .fail (by rintro ⟨⟩) _
      · refine .inScope ((setVariables_framed _).bind fun _ => framed routine.body) ?_
        have bindings : Unreported (modify
            (·.setVariables (routine.parameters.zip arguments)) : Eval PUnit) :=
          fun _ _ => ⟨trivial, trivial⟩
        exact bindings.bind fun _ => inside routine.body

theorem node_unreported (bound : Nat) (tree : Tree) : Unreported (node inner bound tree) := by
  unfold node
  split
  · exact .located _ fun _ => literal_ne_recursionLimit
  · exact .value _
  · exact read_unreported _ _
  · exact call_unreported inside framed tree
  · exact operation_unreported inside tree
  · exact assignment_unreported inside tree
  · exact conditional_unreported inside tree
  · exact loop_unreported inside bound tree
  · exact definition_unreported tree
  · exact block_unreported inside framed tree
  · exact .fail (by rintro ⟨⟩) _

end Rules

/-- **No rule reports the limit.** -/
theorem tree_unreported (bound depth : Nat) (root : Tree) :
    Unreported (tree bound depth root) := by
  induction depth generalizing root with
  | zero => exact fun _ _ => ⟨trivial, trivial⟩
  | succ depth ih => exact node_unreported ih (tree_framed bound depth) bound root

/-! ## Whole evaluations -/

variable {action action' : Eval Value} {offset place : Int} {context last : Context}

/-- The limit is reported for an action that is nested too deeply, at the given offset. -/
theorem of_reporting_eq_recursionLimit (unreported : Unreported action)
    (ran : reporting offset action context = .error (.failed ⟨.recursionLimit, place⟩) last) :
    place = offset ∧ action context = .error .tooDeep last := by
  have kept := unreported context trivial
  cases outcome : action context with
  | ok value middle =>
      rw [reporting_of_ok outcome] at ran
      cases ran
  | error halt middle =>
      rw [outcome] at kept
      rw [reporting_of_error outcome] at ran
      cases halt with
      | tooDeep =>
          cases ran
          exact ⟨rfl, rfl⟩
      | failed error =>
          cases ran
          exact absurd rfl kept.2
      | unfinished => cases ran
      | scopeUnderflow => cases ran

/-- If the limit is not reported, the action does what it does within a larger limit. -/
theorem reporting_eq_of_truncates (truncates : Truncates .tooDeep action action')
    (silent : ∀ place last,
      reporting offset action context ≠ .error (.failed ⟨.recursionLimit, place⟩) last) :
    reporting offset action' context = reporting offset action context := by
  rcases truncates.agrees context with same | ⟨last, halted⟩
  · simp only [reporting, same]
  · exact absurd (reporting_of_error halted offset) (silent offset last)

/-- Both ways to evaluate a tree report at its root an action that never reports the limit itself
and that a larger limit does not change. -/
theorem exists_reporting (bound : Nat) (root : Tree) {evaluation : Nat → Tree → Eval Value}
    (listed : evaluation ∈ [whole bound, statements bound]) :
    ∃ body : Nat → Eval Value,
      (∀ limit, evaluation limit root = reporting root.offset (body limit)) ∧
      (∀ limit more, Truncates .tooDeep (body limit) (body (limit + more))) ∧
      ∀ limit, Unreported (body limit) := by
  have single : ∃ body : Nat → Eval Value,
      (∀ limit, whole bound limit root = reporting root.offset (body limit)) ∧
      (∀ limit more, Truncates .tooDeep (body limit) (body (limit + more))) ∧
      ∀ limit, Unreported (body limit) :=
    ⟨fun limit => tree bound limit root, fun _ => rfl,
      fun limit more => tree_truncates bound limit more root,
      fun limit => tree_unreported bound limit root⟩
  simp only [List.mem_cons, List.not_mem_nil, or_false] at listed
  rcases listed with rfl | rfl
  · exact single
  · by_cases isBlock : root.kind = .block
    · refine ⟨fun limit => sequence (tree bound limit) .null root.children, fun limit => ?_,
        fun limit more => sequence_truncates bound limit more .null root.children,
        fun limit => sequence_unreported (tree_unreported bound limit) .null root.children⟩
      rw [statements, if_pos isBlock]
    · simpa only [statements, if_neg isBlock] using single

/-- What is evaluated without reaching the limit has the same outcome within a larger one. -/
theorem evaluation_eq_of_le {bound low high : Nat} (order : low ≤ high) {root : Tree}
    {evaluation : Nat → Tree → Eval Value} (listed : evaluation ∈ [whole bound, statements bound])
    (silent : ∀ place last,
      evaluation low root context ≠ .error (.failed ⟨.recursionLimit, place⟩) last) :
    evaluation high root context = evaluation low root context := by
  obtain ⟨more, rfl⟩ := Nat.exists_eq_add_of_le order
  obtain ⟨body, reports, truncates, -⟩ := exists_reporting bound root listed
  rw [reports] at silent
  rw [reports, reports]
  exact reporting_eq_of_truncates (truncates low more) silent

/-- A call that reaches the limit leaves the context if its arguments do. -/
theorem call_eq_of_recursionLimit {bound limit : Nat} {root : Tree} {halt : Halt}
    {evaluation : Nat → Tree → Eval Value} (listed : evaluation ∈ [whole bound, statements bound])
    (isCall : root.kind = .call)
    (inert : ∀ argument ∈ root.children,
      after (tree bound (limit - 1) argument) context = context)
    (ran : evaluation limit root context = .error halt last) : last = context := by
  have direct : evaluation limit root = whole bound limit root := by
    simp only [List.mem_cons, List.not_mem_nil, or_false] at listed
    rcases listed with rfl | rfl
    · rfl
    · rw [statements, if_neg (by rw [isCall]; decide)]
  rw [direct] at ran
  rw [← after_of_error ran, after_whole]
  exact after_call bound limit isCall inert

end Eval

open Eval Effect

/-- **The recursion limit is seen only in its own error.** A token list that is not refused for its
nesting has the same tree, or is refused for the same reason, within every larger limit. A tree
whose evaluation does not end with the report of the limit gives the same value or fails in the same
way, and leaves the same context, within every larger limit. If evaluation does end with that
report, it is made at the root of the tree, and the context is as the frame law says: no scope is
left over, the enclosing scopes and the bound names stay, and a call whose arguments have no effect
and a block that opens a scope leave the context as it was. -/
theorem recursion_limit_only_cuts_off :
    (∀ low high tokens, low ≤ high →
      (∀ token, parseWithin low tokens ≠ .error (.tooDeep token)) →
        parseWithin high tokens = parseWithin low tokens) ∧
    (∀ bound root context, ∀ evaluation ∈ [whole bound, statements bound],
      (∀ low high, low ≤ high →
        (∀ offset last,
          evaluation low root context ≠ .error (.failed ⟨.recursionLimit, offset⟩) last) →
        evaluation high root context = evaluation low root context) ∧
      ∀ limit offset last,
        evaluation limit root context = .error (.failed ⟨.recursionLimit, offset⟩) last →
        offset = root.offset ∧ last.depth = context.depth ∧ Frame context last ∧
          (root.kind = .call →
            (∀ argument ∈ root.children,
              after (tree bound (limit - 1) argument) context = context) → last = context)) ∧
    ∀ bound limit root context offset last, root.kind = .block → root.opensScope = true →
      whole bound limit root context = .error (.failed ⟨.recursionLimit, offset⟩) last →
        last = context := by
  refine ⟨?_, ?_, ?_⟩
  · intro low high tokens order shallow
    exact Grammar.parseWithin_eq_of_le order shallow
  · intro bound root context evaluation listed
    refine ⟨fun low high order silent => evaluation_eq_of_le order listed silent, ?_⟩
    intro limit offset last ran
    obtain ⟨body, reports, truncates, unreported⟩ := exists_reporting bound root listed
    have reported := ran
    rw [reports] at reported
    obtain ⟨same, halted⟩ := of_reporting_eq_recursionLimit (unreported limit) reported
    have frame : Frame context last := (truncates limit 0).framed.of_error halted
    exact ⟨same, frame.depth_eq, frame, fun isCall inert =>
      call_eq_of_recursionLimit listed isCall inert ran⟩
  · intro bound limit root context offset last isBlock opens ran
    rw [← after_of_error ran, after_whole]
    exact after_block bound limit isBlock opens context

/-- A function that calls itself without end, after it has bound a name: its call reaches the limit,
which is reported at the call and not at the one inside the function. The tokens of a sum are parsed
within six nested constructs, and so in the same way within the usual limit. -/
theorem recursion_limit_only_cuts_off_endless :
    let body := Tree.block
      [.node ⟨.assign, "=", 10, false⟩
        [.leaf ⟨.identifier, "x", 8, false⟩, .leaf ⟨.numeral, "1", 12, false⟩],
        .node ⟨.call, "f", 14, false⟩ []] false 6
    let context := Context.fresh.setRoutine ⟨"f", [], body⟩
    let root := Tree.node ⟨.call, "f", 30, false⟩ []
    let tokens : List Token := [⟨.openParen, "(", 0, false⟩, ⟨.numeral, "1", 1, false⟩,
      ⟨.closeParen, ")", 2, false⟩, ⟨.operator, "+", 4, false⟩, ⟨.numeral, "2", 6, false⟩,
      .endAt 7]
    (∃ offset last,
      whole 1 20 root context = .error (.failed ⟨.recursionLimit, offset⟩) last ∧
        offset = 30 ∧ last = context) ∧
      (∀ token, parseWithin 6 tokens ≠ .error (.tooDeep token)) ∧
      parseWithin Parser.nestingLimit tokens = parseWithin 6 tokens := by
  intro body context root tokens
  have ran : whole 1 20 root context = .error (.failed ⟨.recursionLimit, 30⟩) context := rfl
  have shallow (token : Token) : parseWithin 6 tokens ≠ .error (.tooDeep token) := by
    have parsed : (parseWithin 6 tokens).isOk = true := by decide +kernel
    intro deep
    rw [deep] at parsed
    cases parsed
  obtain ⟨parsing, evaluating, -⟩ := recursion_limit_only_cuts_off
  have reported := (evaluating 1 root context _ List.mem_cons_self).2 20 30 context ran
  refine ⟨⟨30, context, ran, reported.1, reported.2.2.2 rfl (by rintro _ ⟨⟩)⟩, shallow, ?_⟩
  exact parsing 6 Parser.nestingLimit tokens (by decide) shallow

end BraceLang
