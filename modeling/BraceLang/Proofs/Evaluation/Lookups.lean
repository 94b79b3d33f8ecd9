import BraceLang.Proofs.Evaluation.Depth

/-!
# Evaluation sees a context only through its lookups

Two contexts in which every name is bound to the same value and to the same function look alike,
however many scopes they have and wherever the bindings stand (`SameLookups`). Evaluation does not
tell them apart: it gives the same value or halts for the same reason, and the contexts that it
leaves look alike again (`tree_oblivious`).

An empty scope on top of a context is not seen either. A program that is run in a scope of its own
therefore gives the same result as in the current scope, unless the additional scope makes the
nesting too deep.
-/

set_option autoImplicit false

namespace BraceLang

/-! ## Contexts that look alike -/

/-- Every variable and every function is the same in both contexts. -/
structure SameLookups (first second : Context) : Prop where
  value (name : String) : first.value? name = second.value? name
  routine (name : String) : first.routine? name = second.routine? name

namespace SameLookups

variable {first second : Context}

theorem push_left (context : Context) : SameLookups context.push context :=
  ⟨context.value?_push, context.routine?_push⟩

theorem push (same : SameLookups first second) : SameLookups first.push second.push :=
  ⟨same.value, same.routine⟩

theorem setVariable (same : SameLookups first second) (name : String) (value : Value) :
    SameLookups (first.setVariable name value) (second.setVariable name value) := by
  refine ⟨fun query => ?_, same.routine⟩
  rw [Context.value?_setVariable, Context.value?_setVariable, same.value]

theorem setRoutine (same : SameLookups first second) (routine : Routine) :
    SameLookups (first.setRoutine routine) (second.setRoutine routine) := by
  refine ⟨same.value, fun query => ?_⟩
  rw [Context.routine?_setRoutine, Context.routine?_setRoutine, same.routine]

end SameLookups

namespace Eval

open Effect

/-- The same value or the same halt, with contexts that look alike. -/
inductive SameOutcome {α : Type} :
    EStateM.Result Halt Context α → EStateM.Result Halt Context α → Prop where
  | value {first second : Context} (result : α) :
      SameLookups first second → SameOutcome (.ok result first) (.ok result second)
  | halt {first second : Context} (halt : Halt) :
      SameLookups first second → SameOutcome (.error halt first) (.error halt second)

/-! ## Actions that see lookups only -/

/-- An action that has the same outcome in contexts that look alike. -/
structure Oblivious {α : Type} (action : Eval α) : Prop where
  framed : Framed action
  agrees {first second : Context} :
    SameLookups first second → SameOutcome (action first) (action second)

namespace Oblivious

variable {α β : Type}

theorem bind {action : Eval α} {next : α → Eval β} (oblivious : Oblivious action)
    (follows : ∀ result, Oblivious (next result)) : Oblivious (action >>= next) := by
  refine ⟨oblivious.framed.bind fun result => (follows result).framed, ?_⟩
  intro first second same
  have outcome := oblivious.agrees same
  generalize ran : action first = one at outcome
  generalize ran' : action second = other at outcome
  cases outcome with
  | value result alike =>
      rw [bind_of_ok ran, bind_of_ok ran']
      exact (follows result).agrees alike
  | halt halt alike =>
      rw [bind_of_error ran, bind_of_error ran']
      exact .halt halt alike

/-- An action in a scope of its own leaves both contexts as they were. -/
theorem inScope {action : Eval α} (oblivious : Oblivious action) :
    Oblivious (Eval.inScope action) := by
  refine ⟨oblivious.framed.inScope, ?_⟩
  intro first second same
  have outcome := oblivious.agrees same.push
  generalize ran : action first.push = one at outcome
  generalize ran' : action second.push = other at outcome
  cases outcome with
  | value result _ =>
      rw [inScope_of_ok oblivious.framed ran, inScope_of_ok oblivious.framed ran']
      exact .value result same
  | halt halt _ =>
      rw [inScope_of_error oblivious.framed ran, inScope_of_error oblivious.framed ran']
      exact .halt halt same

end Oblivious

theorem oblivious_simulation : Simulation fun action _ => Oblivious action where
  value result := ⟨framed_simulation.value result, .value result⟩
  halt halt := ⟨framed_simulation.halt halt, .halt halt⟩
  chain := Oblivious.bind
  lookupValue name := by
    refine ⟨framed_simulation.lookupValue name, fun same => ?_⟩
    unfold lookupValue
    rw [same.value]
    exact .value _ same
  lookupRoutine name := by
    refine ⟨framed_simulation.lookupRoutine name, fun same => ?_⟩
    unfold lookupRoutine
    rw [same.routine]
    exact .value _ same
  setVariable name value :=
    ⟨framed_simulation.setVariable name value, fun same => .value _ (same.setVariable name value)⟩
  setRoutine routine :=
    ⟨framed_simulation.setRoutine routine, fun same => .value _ (same.setRoutine routine)⟩
  inScope := Oblivious.inScope

theorem tree_oblivious (bound depth : Nat) (root : Tree) : Oblivious (tree bound depth root) :=
  oblivious_simulation.tree_self bound depth root

theorem sequence_oblivious (bound depth : Nat) (value : Value) (trees : List Tree) :
    Oblivious (sequence (tree bound depth) value trees) :=
  @Simulation.sequence _ oblivious_simulation _ (tree bound depth) (tree_oblivious bound depth)
    value trees

/-! ## A scope of its own -/

/-- Statements in a scope of their own halt as nested too deeply, or they give the same value or
halt for the same reason as in the current scope, where they may be nested more deeply by one. -/
theorem inScope_sequence (bound depth : Nat) (trees : List Tree) (context : Context) :
    inScope (sequence (tree bound depth) .null trees) context = .error .tooDeep context ∨
    (∃ value last, inScope (sequence (tree bound depth) .null trees) context = .ok value context ∧
      sequence (tree bound (depth + 1)) .null trees context = .ok value last) ∨
    ∃ halt last, inScope (sequence (tree bound depth) .null trees) context = .error halt context ∧
      sequence (tree bound (depth + 1)) .null trees context = .error halt last := by
  have truncates := sequence_truncates bound depth 1 .null trees
  rcases truncates.agrees context.push with same | ⟨last, halted⟩
  · have outcome := (sequence_oblivious bound (depth + 1) .null trees).agrees
      (SameLookups.push_left context)
    rw [← same] at outcome
    generalize ran : sequence (tree bound depth) .null trees context.push = inside at outcome
    generalize ran' : sequence (tree bound (depth + 1)) .null trees context = direct at outcome
    cases outcome with
    | value value _ => exact .inr (.inl ⟨value, _, inScope_of_ok truncates.framed ran, rfl⟩)
    | halt halt _ => exact .inr (.inr ⟨halt, _, inScope_of_error truncates.framed ran, rfl⟩)
  · exact .inl (inScope_of_error truncates.framed halted)

/-- The same for whole trees: a block that opens a scope, and its statements. -/
theorem result_whole (bound depth : Nat) (trees : List Tree) (context : Context) :
    (Outcome.ofEval (whole bound depth (.block trees true 0)) context).result =
        (Outcome.ofEval (statements bound depth (.block trees true 0)) context).result ∨
      (Outcome.ofEval (whole bound depth (.block trees true 0)) context).result =
        .error (.evaluating (.failed ⟨.recursionLimit, 0⟩)) := by
  have nested : whole bound depth (.block trees true 0) =
      reporting 0 (tree bound depth (.block trees true 0)) := rfl
  rw [statements_block, nested]
  cases depth with
  | zero => exact .inr rfl
  | succ depth =>
      rw [tree_scope]
      rcases inScope_sequence bound depth trees context with
        halted | ⟨value, last, ran, ran'⟩ | ⟨halt, last, ran, ran'⟩
      · exact .inr (result_ofEval_of_error (reporting_of_error halted 0))
      · rw [result_ofEval_of_ok (reporting_of_ok ran 0),
          result_ofEval_of_ok (reporting_of_ok ran' 0)]
        exact .inl rfl
      · rw [result_ofEval_of_error (reporting_of_error ran 0),
          result_ofEval_of_error (reporting_of_error ran' 0)]
        exact .inl rfl

/-- **Evaluation observes lookups only.** In contexts that look alike every tree has the same
outcome, and the contexts afterwards look alike. A program therefore gives the same value or the same
failure in a scope of its own and in the current scope, except where the additional scope makes the
evaluation exceed the recursion limit. -/
theorem evaluation_observes_lookups :
    (∀ (bound depth : Nat) (root : Tree) (first second : Context), SameLookups first second →
      SameOutcome (tree bound depth root first) (tree bound depth root second)) ∧
    ∀ (limits : Limits) (source : String) (context : Context),
      (runWithin limits source context).result = (enterWithin limits source context).result ∨
        (runWithin limits source context).result =
          .error (.evaluating (.failed ⟨.recursionLimit, 0⟩)) := by
  refine ⟨?_, ?_⟩
  · intro bound depth root first second same
    exact (tree_oblivious bound depth root).agrees same
  · intro limits source context
    unfold runWithin enterWithin evaluateWithin
    cases parsed : treeWithin limits source with
    | error failure => exact .inl rfl
    | ok root =>
        obtain ⟨trees, rfl⟩ := root_of_treeWithin parsed
        exact result_whole limits.rounds limits.depth trees context

/-- An assignment that reads the variable it binds, once where the variable is global and once where
it hides another one. -/
theorem evaluation_observes_lookups_shadowed :
    let first := Context.fresh.setVariable "x" (.integer 1)
    let second := (Context.fresh.setVariable "x" (.integer 2)).push.setVariable "x" (.integer 1)
    let root := Tree.node ⟨.assign, "=", 2, false⟩
      [.leaf ⟨.identifier, "x", 0, false⟩, .leaf ⟨.identifier, "x", 4, false⟩]
    first.depth ≠ second.depth ∧ SameLookups first second ∧
      SameOutcome (tree 1 5 root first) (tree 1 5 root second) := by
  intro first second root
  have same : SameLookups first second := by
    refine ⟨fun name => ?_, fun name => rfl⟩
    simp only [first, second, Context.value?_setVariable, Context.value?_push]
    split <;> rfl
  exact ⟨by decide, same, evaluation_observes_lookups.1 1 5 root first second same⟩

end Eval

end BraceLang
