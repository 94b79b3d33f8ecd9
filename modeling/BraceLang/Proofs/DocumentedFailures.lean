import BraceLang.Proofs.Evaluation.Orderly
import BraceLang.Proofs.Grammar.Soundness

/-!
# The failures of programs

A program that gives no value fails for a reason that the language documents: its text cannot be
read, its tokens cannot be parsed, or evaluation halts with a documented fault. The failures that
would be mistakes of the interpreter do not occur, whatever is run one after the other in a context
that was fresh in the beginning (`outcomes_isDocumented`).

The invariant is that the functions of the context were defined by programs, so their bodies are
trees that come from a text.
-/

set_option autoImplicit false

namespace BraceLang

open Lexer Grammar Eval

/-! ## Documented failures -/

/-- The failures that are part of the language. -/
def Failure.isDocumented : Failure → Bool
  | .reading _ => true
  | .parsing (.rejected fault _) => fault != .unresolvedExpression
  | .parsing (.tooDeep _) => true
  | .parsing (.broken _) => false
  | .evaluating (.failed error) => error.fault.isDocumented
  | .evaluating .tooDeep | .evaluating .unfinished | .evaluating .scopeUnderflow => false

/-- The categories of documented failures, apart from the one of all other runtime failures. -/
def Category.isDocumented : Category → Bool
  | .lexical | .syntactic | .name | .type | .arity | .zeroDivision | .overflow | .value => true
  | .general | .runtime | .internal => false

/-- The reports that are part of the language. One without a category of its own is about a
parameter that occurs twice or about the recursion limit. -/
def Diagnostic.IsDocumented (diagnostic : Diagnostic) : Prop :=
  diagnostic.category.isDocumented = true ∨
    diagnostic.category = .runtime ∧
      (diagnostic.message = "Maximum recursion depth exceeded" ∨
        ∃ name, diagnostic.message = "Duplicate parameter '" ++ name ++ "'")

/-- Documented failures have documented reports. -/
theorem Failure.diagnostic_isDocumented {failure : Failure}
    (documented : failure.isDocumented = true) : failure.diagnostic.IsDocumented := by
  match failure, documented with
  | .reading _, _ => exact .inl rfl
  | .parsing (.rejected _ _), _ => exact .inl rfl
  | .parsing (.tooDeep _), _ => exact .inl rfl
  | .evaluating (.failed ⟨fault, offset⟩), documented =>
      cases fault with
      | duplicateParameter name => exact .inr ⟨rfl, .inr ⟨name, rfl⟩⟩
      | recursionLimit => exact .inr ⟨rfl, .inl rfl⟩
      | unsetVariable _ | unsetRoutine _ | mismatch _ _ _ | conditionType _ _ | arity _ _ _
      | divisionByZero | overflow _ | invalidLiteral _ | literalRange _ => exact .inl rfl
      | childCount _ _ _ | assignmentTarget | definitionShape | definitionName | definitionBody
      | parameterKind _ | unexpectedNode _ => cases documented

/-! ## Trees of texts -/

/-- The tree of a text comes from a text. -/
theorem written_of_treeWithin {limits : Limits} {source : String} {root : Tree}
    (parsed : treeWithin limits source = .ok root) : Written (.block true) root := by
  obtain ⟨list, read, built⟩ := of_treeWithin_eq_ok parsed
  obtain ⟨tokens, offset, rfl, spelled⟩ := spelled_of_tokenize read
  have inside : ∀ token ∈ tokens, token.kind ≠ .endOfInput :=
    fun token member => (spelled token member).ne_endOfInput
  have isProgram : Program tokens root := program_of_parseWithin rfl inside built
  exact isProgram.shaped spelled

/-- A text without a tree has a documented failure: all its operators are known. -/
theorem isDocumented_of_treeWithin {limits : Limits} {source : String} {failure : Failure}
    (refused : treeWithin limits source = .error failure) : failure.isDocumented = true := by
  rcases of_treeWithin_eq_error refused with ⟨reason, -, rfl⟩ | ⟨list, reason, read, built, rfl⟩
  · rfl
  · obtain ⟨tokens, offset, rfl, spelled⟩ := spelled_of_tokenize read
    have ordinary : Parser.Ordinary tokens reason := ordinary_of_parseWithin rfl built
    match reason, ordinary with
    | .rejected fault token, ordinary =>
        have other : fault ≠ .unresolvedExpression := ordinary
        simpa [Failure.isDocumented] using other
    | .tooDeep _, _ => rfl
    | .broken (.unknownOperator text), ⟨token, member, isOperator, sameText, unknown⟩ =>
        have spelling := spelled token member
        rw [isOperator, sameText] at spelling
        obtain ⟨operator, known⟩ := spelling.known
        rw [unknown] at known
        cases known

/-! ## Outcomes -/

/-- What is documented of an outcome: it is a value or a documented failure, unless a loop has not
ended within its bound, and the functions of the context come from texts. -/
structure Outcome.IsDocumented (outcome : Outcome) : Prop where
  prepared : Prepared outcome.context
  failure : ∀ failure, outcome.result = .error failure →
    failure = .evaluating .unfinished ∨ failure.isDocumented = true

/-- Evaluation that is reported has a documented outcome, if it is orderly. -/
theorem isDocumented_reporting {action : Eval Value}
    (orderly : Orderly action fun _ => True) (offset : Int) {context : Context}
    (prepared : Prepared context) :
    (Outcome.ofEval (reporting offset action) context).IsDocumented := by
  have done := orderly context prepared
  cases ran : action context with
  | ok value last =>
      rw [ran] at done
      rw [Outcome.ofEval, reporting_of_ok ran]
      refine ⟨done.1, ?_⟩
      rintro _ ⟨⟩
  | error halt last =>
      rw [ran] at done
      rw [Outcome.ofEval, reporting_of_error ran]
      refine ⟨done.1, ?_⟩
      rintro _ ⟨⟩
      cases halt with
      | failed error => exact .inr done.2
      | tooDeep => exact .inr rfl
      | unfinished => exact .inl rfl
      | scopeUnderflow => cases done.2

/-! ## One program after another -/

/-- A program that is run in a scope of its own or in the current scope. -/
inductive Call where
  | run (source : String)
  | enter (source : String)
  deriving DecidableEq, Repr

/-- The outcome of a call in a context. -/
def Call.outcome (limits : Limits) : Call → Context → Outcome
  | .run source => runWithin limits source
  | .enter source => enterWithin limits source

/-- The outcomes of calls, each in the context that the one before it leaves. -/
def outcomes (limits : Limits) : List Call → Context → List Outcome
  | [], _ => []
  | call :: calls, context =>
    call.outcome limits context :: outcomes limits calls (call.outcome limits context).context

/-- **One call.** -/
theorem Call.isDocumented (limits : Limits) (call : Call) {context : Context}
    (prepared : Prepared context) : (call.outcome limits context).IsDocumented := by
  have evaluated {evaluation : Tree → Eval Value} (source : String)
      (orderly : ∀ root, Written (.block true) root →
        (Outcome.ofEval (evaluation root) context).IsDocumented) :
      (evaluateWithin limits evaluation source context).IsDocumented := by
    unfold evaluateWithin
    cases parsed : treeWithin limits source with
    | ok root => exact orderly root (written_of_treeWithin parsed)
    | error failure =>
        refine ⟨prepared, ?_⟩
        rintro _ ⟨⟩
        exact .inr (isDocumented_of_treeWithin parsed)
  cases call with
  | run source =>
      refine evaluated source fun root written => ?_
      exact isDocumented_reporting (tree_orderly _ _ written) _ prepared
  | enter source =>
      refine evaluated source fun root written => ?_
      cases written with
      | block each =>
          rw [statements_block]
          refine isDocumented_reporting (sequence_orderly ?_ _) _ prepared
          exact fun statement member => tree_orderly _ _ (each statement member)

theorem outcomes_isDocumented (limits : Limits) (calls : List Call) {context : Context}
    (prepared : Prepared context) :
    ∀ outcome ∈ outcomes limits calls context, outcome.IsDocumented := by
  induction calls generalizing context with
  | nil => exact fun _ => nofun
  | cons call calls ih =>
      have first := call.isDocumented limits prepared
      exact List.forall_mem_cons.mpr ⟨first, ih first.prepared⟩

/-- A context without functions is prepared, whatever its variables. -/
theorem prepared_fresh (presets : List (String × Value)) :
    Prepared (Context.fresh.setVariables presets) := by
  have empty : Prepared Context.fresh := fun _ _ => nofun
  exact (Orderly.setVariables presets Context.fresh empty).1

/-- **Only documented failures occur.** Whatever programs are run one after the other, each in a
scope of its own or in the current scope, in a context that had variables but no functions in the
beginning: each of them gives a value or fails for a documented reason with a documented report, if
its loops end, and the functions of the context always have bodies that come from a text. -/
theorem documented_failures_only (limits : Limits) (presets : List (String × Value))
    (calls : List Call) :
    ∀ outcome ∈ outcomes limits calls (Context.fresh.setVariables presets),
      Prepared outcome.context ∧
        ((∃ value, outcome.result = .ok value) ∨
          outcome.result = .error (.evaluating .unfinished) ∨
          ∃ failure, outcome.result = .error failure ∧ failure.isDocumented = true ∧
            failure.diagnostic.IsDocumented) := by
  intro outcome member
  have documented := outcomes_isDocumented limits calls (prepared_fresh presets) outcome member
  refine ⟨documented.prepared, ?_⟩
  cases result : outcome.result with
  | ok value => exact .inl ⟨value, rfl⟩
  | error failure =>
      rcases documented.failure failure result with rfl | isDocumented
      · exact .inr (.inl rfl)
      · exact .inr (.inr ⟨failure, rfl, isDocumented, Failure.diagnostic_isDocumented isDocumented⟩)

/-- A function that was defined by one program fails when another one calls it. -/
theorem documented_failures_only_division :
    let limits : Limits := ⟨20, 20, 20⟩
    let context := Context.fresh.setVariables [("b", .integer 0)]
    let define := Call.enter "fn f(a) \x7b 1 / a \x7d"
    let divide := Call.run "f(b)"
    let outcome := divide.outcome limits (define.outcome limits context).context
    outcome ∈ outcomes limits [define, divide] context ∧
      (match outcome.result with
      | .ok _ => none
      | .error failure => some failure) =
        some (.evaluating (.failed ⟨.divisionByZero, 12⟩)) ∧
      Prepared outcome.context := by
  intro limits context define divide outcome
  have member : outcome ∈ outcomes limits [define, divide] context :=
    List.mem_cons_of_mem _ List.mem_cons_self
  exact ⟨member, by decide +kernel,
    (documented_failures_only limits [("b", .integer 0)] [define, divide] outcome member).1⟩

end BraceLang
