import BraceLang.Eval.Rules

/-!
# Relations that the rules of evaluation keep

The rules build the meaning of a node from a few actions: giving a value, halting, looking a name
up, binding a name, one action after another, and an action in a scope of its own. A relation
between actions that each of these keeps is a `Simulation`, and then every rule keeps it: related
evaluators for the inner nodes give related evaluators for a node (`Simulation.node`).

Evaluation of a tree is therefore related to itself (`Simulation.tree_self`). If an evaluation that
is nested too deeply is related to everything, evaluation within a limit is related to evaluation
within a larger one (`Simulation.tree_deeper`), and likewise for the bound on the rounds of loops
(`Simulation.tree_longer`). A property of single actions is a relation that ignores the second
action.
-/

set_option autoImplicit false

namespace BraceLang

namespace Eval

/-! ## Looking up and binding as actions -/

/-- What a variable is bound to, as an action. -/
def lookupValue (name : String) : Eval (Option Value) := fun context =>
  .ok (context.value? name) context

/-- What a function name is bound to, as an action. -/
def lookupRoutine (name : String) : Eval (Option Routine) := fun context =>
  .ok (context.routine? name) context

theorem read_eq (name : String) (offset : Int) :
    read name offset = lookupValue name >>= fun found =>
      match found with
      | some value => pure value
      | none => fail (.unsetVariable name) offset :=
  rfl

theorem call_eq (inner : Tree → Eval Value) (tree : Tree) :
    call inner tree = lookupRoutine tree.text >>= fun found =>
      match found with
      | none => fail (.unsetRoutine tree.text) tree.offset
      | some routine => values inner tree.children >>= fun arguments =>
          apply inner routine arguments tree.offset :=
  rfl

theorem setVariables_nil :
    (modify (·.setVariables []) : Eval PUnit) = pure ⟨⟩ :=
  rfl

theorem setVariables_cons (name : String) (value : Value) (rest : List (String × Value)) :
    (modify (·.setVariables ((name, value) :: rest)) : Eval PUnit) =
      (modify (·.setVariable name value) : Eval PUnit) >>= fun _ => modify (·.setVariables rest) :=
  rfl

/-! ## Simulations -/

/-- A relation between actions that is kept by everything the rules are built from. -/
structure Simulation (related : {α : Type} → Eval α → Eval α → Prop) : Prop where
  value {α : Type} (result : α) : related (pure result) (pure result)
  halt {α : Type} (halt : Halt) : related (throw halt : Eval α) (throw halt)
  chain {α β : Type} {first first' : Eval α} {next next' : α → Eval β} :
    related first first' → (∀ result, related (next result) (next' result)) →
      related (first >>= next) (first' >>= next')
  lookupValue (name : String) : related (lookupValue name) (lookupValue name)
  lookupRoutine (name : String) : related (lookupRoutine name) (lookupRoutine name)
  setVariable (name : String) (value : Value) :
    related (modify (·.setVariable name value) : Eval PUnit) (modify (·.setVariable name value))
  setRoutine (routine : Routine) :
    related (modify (·.setRoutine routine) : Eval PUnit) (modify (·.setRoutine routine))
  inScope {α : Type} {action action' : Eval α} :
    related action action' → related (inScope action) (inScope action')

namespace Simulation

variable {related : {α : Type} → Eval α → Eval α → Prop} (simulation : Simulation related)
include simulation

theorem fail {α : Type} (fault : Fault) (offset : Int) :
    related (fail fault offset : Eval α) (fail fault offset) :=
  simulation.halt _

theorem located {α : Type} (offset : Int) (computed : Except Fault α) :
    related (located offset computed) (located offset computed) := by
  cases computed with
  | ok result => exact simulation.value result
  | error fault => exact simulation.fail fault offset

theorem setVariables (bindings : List (String × Value)) :
    related (modify (·.setVariables bindings) : Eval PUnit)
      (modify (·.setVariables bindings)) := by
  induction bindings with
  | nil =>
      rw [setVariables_nil]
      exact simulation.value _
  | cons binding rest ih =>
      obtain ⟨name, value⟩ := binding
      rw [setVariables_cons]
      exact simulation.chain (simulation.setVariable name value) fun _ => ih

theorem read (name : String) (offset : Int) : related (read name offset) (read name offset) := by
  rw [read_eq]
  refine simulation.chain (simulation.lookupValue name) fun found => ?_
  cases found with
  | some value => exact simulation.value value
  | none => exact simulation.fail _ _

theorem definition (tree : Tree) : related (definition tree) (definition tree) := by
  unfold Eval.definition
  split
  · exact simulation.chain (simulation.setRoutine _) fun _ => simulation.value _
  · exact simulation.halt _

section Rules

variable {inner inner' : Tree → Eval Value} (inside : ∀ tree, related (inner tree) (inner' tree))
include inside

theorem sequence (value : Value) (trees : List Tree) :
    related (sequence inner value trees) (sequence inner' value trees) := by
  induction trees generalizing value with
  | nil => exact simulation.value value
  | cons tree trees ih => exact simulation.chain (inside tree) ih

theorem values (trees : List Tree) : related (values inner trees) (values inner' trees) := by
  induction trees with
  | nil => exact simulation.value _
  | cons tree trees ih =>
      exact simulation.chain (inside tree) fun _ =>
        simulation.chain ih fun _ => simulation.value _

theorem block (tree : Tree) : related (block inner tree) (block inner' tree) := by
  unfold Eval.block
  split
  · exact simulation.inScope (simulation.sequence inside _ _)
  · exact simulation.sequence inside _ _

theorem assignment (tree : Tree) : related (assignment inner tree) (assignment inner' tree) := by
  unfold Eval.assignment
  split
  · split
    · exact simulation.chain (inside _) fun value =>
        simulation.chain (simulation.setVariable _ value) fun _ => simulation.value _
    · exact simulation.fail _ _
  · exact simulation.fail _ _

theorem operation (tree : Tree) : related (operation inner tree) (operation inner' tree) := by
  unfold Eval.operation
  split
  · exact simulation.chain (inside _) fun _ =>
      simulation.chain (inside _) fun _ => simulation.located _ _
  · exact simulation.fail _ _

theorem test (label : String) (tree : Tree) :
    related (test inner label tree) (test inner' label tree) :=
  simulation.chain (inside tree) fun _ => simulation.located _ _

theorem conditional (tree : Tree) : related (conditional inner tree) (conditional inner' tree) := by
  unfold Eval.conditional
  split
  · refine simulation.chain (simulation.test inside _ _) fun truth => ?_
    cases truth with
    | true => exact inside _
    | false => exact simulation.value _
  · refine simulation.chain (simulation.test inside _ _) fun truth => ?_
    cases truth with
    | true => exact inside _
    | false => exact inside _
  · exact simulation.fail _ _

/-- Rounds of a loop are related to a larger number of them, if rounds that are used up are related
to those that are left. -/
theorem rounds_longer {question body : Tree} {more : Nat}
    (spent : related (throw .unfinished) (Eval.rounds inner' question body more)) (bound : Nat) :
    related (Eval.rounds inner question body bound)
      (Eval.rounds inner' question body (bound + more)) := by
  induction bound with
  | zero =>
      rw [Nat.zero_add]
      exact spent
  | succ bound ih =>
      rw [Nat.succ_add]
      refine simulation.chain (simulation.test inside _ _) fun truth => ?_
      cases truth with
      | true => exact simulation.chain (inside body) fun _ => ih
      | false => exact simulation.value _

theorem rounds (question body : Tree) (bound : Nat) :
    related (rounds inner question body bound) (rounds inner' question body bound) :=
  simulation.rounds_longer inside (show related _ (Eval.rounds inner' question body 0) from
    simulation.halt .unfinished) bound

omit inside in
/-- Loops that may take different numbers of rounds are related if their rounds are. -/
theorem loop_of_rounds {bound bound' : Nat}
    (repeats : ∀ question body,
      related (Eval.rounds inner question body bound) (Eval.rounds inner' question body bound'))
    (tree : Tree) : related (loop inner bound tree) (loop inner' bound' tree) := by
  unfold Eval.loop
  split
  · exact repeats _ _
  · exact simulation.fail _ _

theorem apply (routine : Routine) (arguments : List Value) (offset : Int) :
    related (apply inner routine arguments offset) (apply inner' routine arguments offset) := by
  unfold Eval.apply
  split
  · exact simulation.fail _ _
  · exact simulation.inScope (simulation.chain (simulation.setVariables _) fun _ => inside _)

theorem call (tree : Tree) : related (call inner tree) (call inner' tree) := by
  rw [call_eq, call_eq]
  refine simulation.chain (simulation.lookupRoutine _) fun found => ?_
  cases found with
  | none => exact simulation.fail _ _
  | some routine =>
      exact simulation.chain (simulation.values inside _) fun arguments =>
        simulation.apply inside routine arguments _

/-- Related evaluators for the nodes inside a node give related meanings of the node, if they give
related rounds of a loop. -/
theorem node_of_rounds {bound bound' : Nat}
    (repeats : ∀ question body,
      related (Eval.rounds inner question body bound) (Eval.rounds inner' question body bound'))
    (tree : Tree) : related (node inner bound tree) (node inner' bound' tree) := by
  unfold Eval.node
  split
  · exact simulation.located _ _
  · exact simulation.value _
  · exact simulation.read _ _
  · exact simulation.call inside tree
  · exact simulation.operation inside tree
  · exact simulation.assignment inside tree
  · exact simulation.conditional inside tree
  · exact simulation.loop_of_rounds repeats tree
  · exact simulation.definition tree
  · exact simulation.block inside tree
  · exact simulation.fail _ _

/-- **Every rule keeps a simulation.** Related evaluators for the nodes inside a node give related
meanings of the node. -/
theorem node (bound : Nat) (tree : Tree) :
    related (node inner bound tree) (node inner' bound tree) :=
  simulation.node_of_rounds inside
    (fun question body => simulation.rounds inside question body bound) tree

end Rules

/-- Evaluation of any tree is related to itself. -/
theorem tree_self (bound depth : Nat) (root : Tree) :
    related (tree bound depth root) (tree bound depth root) := by
  induction depth generalizing root with
  | zero => exact simulation.halt _
  | succ depth ih => exact simulation.node ih bound root

/-- If an evaluation that is nested too deeply is related to all actions, evaluation within a limit
is related to evaluation within any larger one. -/
theorem tree_deeper (escape : ∀ action : Eval Value, related (throw .tooDeep) action)
    (bound depth more : Nat) (root : Tree) :
    related (tree bound depth root) (tree bound (depth + more) root) := by
  induction depth generalizing root with
  | zero => exact escape _
  | succ depth ih =>
      rw [Nat.succ_add]
      exact simulation.node ih bound root

/-- If rounds that are used up are related to all actions, evaluation with a bound on the rounds of
loops is related to evaluation with any larger one. -/
theorem tree_longer (escape : ∀ action : Eval Value, related (throw .unfinished) action)
    (bound more depth : Nat) (root : Tree) :
    related (tree bound depth root) (tree (bound + more) depth root) := by
  induction depth generalizing root with
  | zero => exact simulation.halt _
  | succ depth ih =>
      exact simulation.node_of_rounds ih
        (fun question body => simulation.rounds_longer ih (escape _) bound) root

end Simulation

end Eval

end BraceLang
