import BraceLang.Proofs.Evaluation.Simulation
import BraceLang.Proofs.ProgramTree

/-!
# What evaluation leaves alone

Evaluation of any tree, in any context and with any outcome, leaves the enclosing scopes as they
are. In the innermost scope it may change what a name is bound to and bind new names, which come
after the old ones; no name is lost and the order of the names stays. This is the relation `Frame`.

An action whose effect stays within the frame can be undone by leaving a scope: in a scope of its
own it has no effect at all (`after_inScope`). That makes the frame law a simulation
(`framed_simulation`), and it makes blocks that open a scope, calls and whole programs leave the
context exactly as it was.
-/

set_option autoImplicit false

namespace BraceLang

/-! ## The frame of a context -/

/-- What may happen to a context: the enclosing scopes stay, and the names of the innermost scope
stay in their order, before any new ones. -/
structure Frame (before after : Context) : Prop where
  enclosing : after.enclosing = before.enclosing
  values : before.innermost.values.names <+: after.innermost.values.names
  routines : before.innermost.routines.names <+: after.innermost.routines.names

/-- Binding a name keeps the names that are bound, in their order. -/
theorem Table.names_prefix_assign {α : Type} (table : Table α) (name : String) (value : α) :
    table.names <+: (table.assign name value).names := by
  rw [Table.names_assign]
  split
  · exact List.prefix_rfl
  · exact List.prefix_append _ _

namespace Frame

theorem refl (context : Context) : Frame context context :=
  ⟨rfl, List.prefix_rfl, List.prefix_rfl⟩

theorem trans {first second third : Context} (before : Frame first second)
    (after : Frame second third) : Frame first third :=
  ⟨after.enclosing.trans before.enclosing, before.values.trans after.values,
    before.routines.trans after.routines⟩

theorem setVariable (context : Context) (name : String) (value : Value) :
    Frame context (context.setVariable name value) :=
  ⟨rfl, Table.names_prefix_assign _ _ _, List.prefix_rfl⟩

theorem setRoutine (context : Context) (routine : Routine) :
    Frame context (context.setRoutine routine) :=
  ⟨rfl, List.prefix_rfl, Table.names_prefix_assign _ _ _⟩

/-- The number of scopes stays. -/
theorem depth_eq {before after : Context} (frame : Frame before after) :
    after.depth = before.depth := by
  simp only [Context.depth, Context.scopes, List.length_cons, frame.enclosing]

/-- Leaving a scope that was opened, after changes within the frame, gives the context back. -/
theorem pop?_eq {context after : Context} (frame : Frame context.push after) :
    after.pop? = some context := by
  have enclosing : after.enclosing = context.innermost :: context.enclosing := frame.enclosing
  rw [Context.pop?, enclosing]

end Frame

namespace Eval

open Effect

/-! ## Actions within the frame -/

/-- An action that stays within the frame of the context it starts from, whatever its outcome. -/
def Framed {α : Type} (action : Eval α) : Prop :=
  ∀ context, Frame context (after action context)

theorem Framed.of_ok {α : Type} {action : Eval α} (framed : Framed action)
    {context last : Context} {value : α} (ran : action context = .ok value last) :
    Frame context last :=
  after_of_ok ran ▸ framed context

theorem Framed.of_error {α : Type} {action : Eval α} (framed : Framed action)
    {context last : Context} {halt : Halt} (ran : action context = .error halt last) :
    Frame context last :=
  after_of_error ran ▸ framed context

/-- Inside a scope of its own, an action that gives a value gives it and leaves the context. -/
theorem inScope_of_ok {α : Type} {action : Eval α} (framed : Framed action)
    {context last : Context} {value : α} (ran : action context.push = .ok value last) :
    inScope action context = .ok value context := by
  simp only [inScope, ran, (framed.of_ok ran).pop?_eq]

/-- Inside a scope of its own, an action that halts does so and leaves the context. -/
theorem inScope_of_error {α : Type} {action : Eval α} (framed : Framed action)
    {context last : Context} {halt : Halt} (ran : action context.push = .error halt last) :
    inScope action context = .error halt context := by
  simp only [inScope, ran, (framed.of_error ran).pop?_eq]

/-- **A scope of its own hides every effect.** -/
theorem after_inScope {α : Type} {action : Eval α} (framed : Framed action) (context : Context) :
    after (inScope action) context = context := by
  cases ran : action context.push with
  | ok value last => exact after_of_ok (inScope_of_ok framed ran)
  | error halt last => exact after_of_error (inScope_of_error framed ran)

/-- An invariant that does not depend on an empty scope is upheld in a scope of its own. -/
theorem inScope_upholds {α : Type} {invariant : Context → Prop} {halts : Halt → Prop}
    {action : Eval α} {post : α → Prop} (framed : Framed action)
    (pushed : ∀ context, invariant context → invariant context.push)
    (upholds : Upholds invariant halts action post) :
    Upholds invariant halts (inScope action) post := by
  intro context kept
  have done := upholds context.push (pushed context kept)
  cases ran : action context.push with
  | ok result last =>
      rw [ran] at done
      rw [inScope_of_ok framed ran]
      exact ⟨kept, done.2⟩
  | error halt last =>
      rw [ran] at done
      rw [inScope_of_error framed ran]
      exact ⟨kept, done.2⟩

/-- One action within the frame after another. -/
theorem Framed.bind {α β : Type} {action : Eval α} {next : α → Eval β} (framed : Framed action)
    (follows : ∀ value, Framed (next value)) : Framed (action >>= next) := by
  intro context
  cases ran : action context with
  | ok value middle =>
      rw [after, bind_of_ok ran]
      exact (framed.of_ok ran).trans (follows value middle)
  | error halt last =>
      rw [after_of_error (bind_of_error ran)]
      exact framed.of_error ran

theorem Framed.inScope {α : Type} {action : Eval α} (framed : Framed action) :
    Framed (inScope action) := by
  intro context
  rw [after_inScope framed]
  exact Frame.refl context

/-- The actions within the frame are closed under everything the rules are built from. -/
theorem framed_simulation : Simulation fun action _ => Framed action where
  value _ := Frame.refl
  halt _ := Frame.refl
  chain := Framed.bind
  lookupValue _ := Frame.refl
  lookupRoutine _ := Frame.refl
  setVariable name value context := Frame.setVariable context name value
  setRoutine routine context := Frame.setRoutine context routine
  inScope := Framed.inScope

theorem sequence_framed {inner : Tree → Eval Value} (inside : ∀ tree, Framed (inner tree))
    (value : Value) (trees : List Tree) : Framed (sequence inner value trees) :=
  @Simulation.sequence _ framed_simulation inner inner inside value trees

theorem setVariables_framed (bindings : List (String × Value)) :
    Framed (modify (·.setVariables bindings) : Eval PUnit) :=
  framed_simulation.setVariables bindings

/-! ## Trees -/

/-- **The frame law of evaluation.** -/
theorem tree_framed (bound depth : Nat) (root : Tree) : Framed (tree bound depth root) :=
  framed_simulation.tree_self bound depth root

/-- Reporting a nesting that is too deep changes no context. -/
theorem after_reporting {α : Type} (offset : Int) (action : Eval α) (context : Context) :
    after (reporting offset action) context = after action context := by
  cases ran : action context with
  | ok value last => rw [after_of_ok ran, after_of_ok (reporting_of_ok ran offset)]
  | error halt last => rw [after_of_error ran, after_of_error (reporting_of_error ran offset)]

theorem after_whole (bound depth : Nat) (root : Tree) (context : Context) :
    after (whole bound depth root) context = after (tree bound depth root) context :=
  after_reporting _ _ _

theorem statements_framed (bound depth : Nat) (root : Tree) :
    Framed (statements bound depth root) := by
  intro context
  unfold statements
  split
  · rw [after_reporting]
    exact sequence_framed (tree_framed bound depth) _ _ context
  · rw [after_whole]
    exact tree_framed bound depth root context

/-- A block that opens a scope has no effect. -/
theorem after_block (bound depth : Nat) {root : Tree} (isBlock : root.kind = .block)
    (opens : root.opensScope = true) (context : Context) :
    after (tree bound depth root) context = context := by
  cases depth with
  | zero => rfl
  | succ depth =>
      rw [tree, node, isBlock, block, if_pos opens]
      exact after_inScope (sequence_framed (tree_framed bound depth) _ _) context

/-- Arguments that have no effect one by one have none together. -/
theorem after_values {inner : Tree → Eval Value} {trees : List Tree} {context : Context}
    (inert : ∀ tree ∈ trees, after (inner tree) context = context) :
    after (values inner trees) context = context := by
  induction trees with
  | nil => rfl
  | cons tree trees ih =>
      refine after_bind_eq (inert tree List.mem_cons_self) fun _ => ?_
      refine after_bind_eq (ih fun other member => inert other (List.mem_cons_of_mem _ member)) ?_
      exact fun _ => rfl

/-- Running a function has no effect on the context of the call. -/
theorem after_apply (bound depth : Nat) (routine : Routine) (arguments : List Value)
    (offset : Int) (context : Context) :
    after (apply (tree bound depth) routine arguments offset) context = context := by
  unfold apply
  split
  · rfl
  · exact after_inScope
      ((setVariables_framed _).bind fun _ => tree_framed bound depth routine.body) context

/-- A call whose arguments have no effect has none. -/
theorem after_call (bound depth : Nat) {root : Tree} (isCall : root.kind = .call)
    {context : Context}
    (inert : ∀ argument ∈ root.children,
      after (tree bound (depth - 1) argument) context = context) :
    after (tree bound depth root) context = context := by
  cases depth with
  | zero => rfl
  | succ depth =>
      rw [tree, node, isCall]
      show after (call (tree bound depth) root) context = context
      rw [call_eq]
      refine after_bind_eq rfl fun found => ?_
      cases found with
      | none => rfl
      | some routine =>
          exact after_bind_eq (after_values inert) fun arguments =>
            after_apply bound depth routine arguments root.offset context

/-! ## Programs -/

/-- A program in a scope of its own leaves the context, also if it cannot be read or parsed. -/
theorem context_runWithin (limits : Limits) (source : String) (context : Context) :
    (runWithin limits source context).context = context := by
  unfold runWithin evaluateWithin
  cases parsed : treeWithin limits source with
  | error failure => rfl
  | ok root =>
      obtain ⟨trees, rfl⟩ := root_of_treeWithin parsed
      show (Outcome.ofEval _ context).context = context
      rw [context_ofEval, after_whole]
      exact after_block limits.rounds limits.depth rfl rfl context

/-- **The frame law.** Evaluation of any tree in any context, with any outcome, stays within the
frame of the context. A block that opens a scope has no effect at all, and neither has a call whose
arguments have none; for the statements of a block that are run directly in the current scope only
the frame is kept. A program in a scope of its own has no effect. -/
theorem evaluation_frame (bound depth : Nat) (root : Tree) (context : Context) :
    (∀ evaluation ∈ [tree bound depth root, whole bound depth root, statements bound depth root],
      (after evaluation context).depth = context.depth ∧
        Frame context (after evaluation context)) ∧
    (∀ evaluation ∈ [tree bound depth root, whole bound depth root],
      root.kind = .block → root.opensScope = true → after evaluation context = context) ∧
    (∀ evaluation ∈ [tree bound depth root, whole bound depth root, statements bound depth root],
      root.kind = .call →
      (∀ argument ∈ root.children,
        after (tree bound (depth - 1) argument) context = context) →
      after evaluation context = context) ∧
    ∀ source, (run source context).context = context := by
  refine ⟨?_, ?_, ?_, fun source => context_runWithin {} source context⟩
  · intro evaluation listed
    have framed : Frame context (after evaluation context) := by
      simp only [List.mem_cons, List.not_mem_nil, or_false] at listed
      rcases listed with rfl | rfl | rfl
      · exact tree_framed bound depth root context
      · rw [after_whole]
        exact tree_framed bound depth root context
      · exact statements_framed bound depth root context
    exact ⟨framed.depth_eq, framed⟩
  · intro evaluation listed isBlock opens
    simp only [List.mem_cons, List.not_mem_nil, or_false] at listed
    rcases listed with rfl | rfl
    · exact after_block bound depth isBlock opens context
    · rw [after_whole]
      exact after_block bound depth isBlock opens context
  · intro evaluation listed isCall inert
    have same := after_call bound depth isCall inert
    simp only [List.mem_cons, List.not_mem_nil, or_false] at listed
    rcases listed with rfl | rfl | rfl
    · exact same
    · rwa [after_whole]
    · have notBlock : root.kind ≠ .block := by rw [isCall]; decide
      rwa [statements, if_neg notBlock, after_whole]

/-- The frame law at a call of a function that assigns to its parameter, which hides a variable of
the same name. -/
theorem evaluation_frame_call :
    let body := Tree.block
      [.node ⟨.assign, "=", 10, false⟩
        [.leaf ⟨.identifier, "x", 8, false⟩, .leaf ⟨.string, "inner", 13, false⟩]] false 6
    let context :=
      (Context.fresh.setVariable "x" (.string "outer")).setRoutine ⟨"f", ["x"], body⟩
    let root := Tree.node ⟨.call, "f", 30, false⟩ [.leaf ⟨.identifier, "x", 32, false⟩]
    (∀ argument ∈ root.children, after (tree 1 4 argument) context = context) ∧
      after (tree 1 5 root) context = context := by
  intro body context root
  have inert : ∀ argument ∈ root.children, after (tree 1 4 argument) context = context := by
    decide +kernel
  exact ⟨inert, (evaluation_frame 1 5 root context).2.2.1 _ List.mem_cons_self rfl inert⟩

/-- The statements of a block that opens a scope bind in the current scope when they are run
directly in it. -/
theorem statements_bind_in_current_scope :
    let root := Tree.block
      [.node ⟨.assign, "=", 2, false⟩
        [.leaf ⟨.identifier, "x", 0, false⟩, .leaf ⟨.numeral, "1", 4, false⟩]] true 0
    root.kind = .block ∧ root.opensScope = true ∧
      after (statements roundLimit depthLimit root) Context.fresh =
        Context.fresh.setVariable "x" (.integer 1) ∧
      after (statements roundLimit depthLimit root) Context.fresh ≠ Context.fresh := by
  decide +kernel

end Eval

end BraceLang
