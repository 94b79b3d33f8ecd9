import Mathlib.Data.List.Basic
import BraceLang.Failure
import BraceLang.Proofs.Evaluation.Simulation
import BraceLang.Proofs.Effect

/-!
# Renaming variables and functions

Variables and functions are looked up apart, so a program may be renamed by two functions on names
that have nothing to do with each other. A `Renaming` consists of both, and no two names may become
one. It acts on trees: on names that are read, assigned to or parameters as on variables, on names
that are called or defined as on functions. It acts on contexts, functions that are stored there
included, and on the names that faults are about.

Evaluation commutes with this action (`Renaming.Carries.tree`): the outcome of the renamed tree in
the renamed context is the renamed outcome. As in the proof for other relations between evaluations,
every rule is treated once for any evaluator of the nodes inside, and the knot is tied by induction
on the nesting.
-/

set_option autoImplicit false

namespace BraceLang

/-- New names for variables and, independently, for functions. -/
structure Renaming where
  values : String → String
  routines : String → String
  values_injective : Function.Injective values
  routines_injective : Function.Injective routines

namespace Renaming

variable (names : Renaming)

/-! ## Trees -/

/-- The token with the name that it stands for renamed: a variable, or the function of a call. -/
def token (token : Token) : Token :=
  match token.kind with
  | .identifier => { token with text := names.values token.text }
  | .call => { token with text := names.routines token.text }
  | _ => token

/-- The name in a definition, which is that of a function. -/
def definedName (name : Tree) : Tree :=
  .node { name.token with text := names.routines name.text } name.children

mutual

/-- The tree with all its names renamed. -/
def tree : Tree → Tree
  | .node token children =>
    .node (names.token token)
      (match token.kind with
      | .fnWord => definition children
      | _ => trees children)

/-- The parts of a definition: the name of the function, its parameters and its body. -/
def definition : List Tree → List Tree
  | [] => []
  | name :: rest => names.definedName name :: trees rest

/-- The trees of a list with all their names renamed. -/
def trees : List Tree → List Tree
  | [] => []
  | first :: rest => tree first :: trees rest

end

theorem trees_eq_map (list : List Tree) : names.trees list = list.map names.tree := by
  induction list with
  | nil => rfl
  | cons first rest ih => rw [trees, ih, List.map_cons]

theorem token_tree (root : Tree) : (names.tree root).token = names.token root.token := by
  cases root
  rw [tree]
  rfl

@[simp] theorem kind_tree (root : Tree) : (names.tree root).kind = root.kind := by
  rw [Tree.kind, token_tree, token]
  split <;> rfl

@[simp] theorem offset_tree (root : Tree) : (names.tree root).offset = root.offset := by
  rw [Tree.offset, token_tree, token]
  split <;> rfl

@[simp] theorem opensScope_tree (root : Tree) :
    (names.tree root).opensScope = root.opensScope := by
  rw [Tree.opensScope, token_tree, token]
  split <;> rfl

/-- A variable has its new name. -/
theorem text_tree_of_identifier {root : Tree} (isName : root.kind = .identifier) :
    (names.tree root).text = names.values root.text := by
  rw [Tree.text, token_tree, token, show root.token.kind = .identifier from isName]
  rfl

/-- The function of a call has its new name. -/
theorem text_tree_of_call {root : Tree} (isCall : root.kind = .call) :
    (names.tree root).text = names.routines root.text := by
  rw [Tree.text, token_tree, token, show root.token.kind = .call from isCall]
  rfl

/-- All other texts stay. -/
theorem text_tree {root : Tree} {kind : Kind} (isKind : root.kind = kind)
    (notName : kind ≠ .identifier) (notCall : kind ≠ .call) :
    (names.tree root).text = root.text := by
  rw [Tree.text, token_tree, token]
  split
  · next isName => exact absurd (isKind.symm.trans isName) notName
  · next isCall => exact absurd (isKind.symm.trans isCall) notCall
  · rfl

theorem children_tree_of_definition {root : Tree} (isDefinition : root.kind = .fnWord) :
    (names.tree root).children = names.definition root.children := by
  obtain ⟨token, children⟩ := root
  rw [tree, show token.kind = .fnWord from isDefinition]
  rfl

theorem children_tree {root : Tree} {kind : Kind} (isKind : root.kind = kind)
    (notDefinition : kind ≠ .fnWord) :
    (names.tree root).children = root.children.map names.tree := by
  obtain ⟨token, children⟩ := root
  rw [tree, Tree.children, Tree.children]
  split
  · next isDefinition => exact absurd (isKind.symm.trans isDefinition) notDefinition
  · exact names.trees_eq_map _

/-! ## Contexts -/

/-- The function with its name, its parameters and the names in its body renamed. -/
def routine (routine : Routine) : Routine :=
  ⟨names.routines routine.name, routine.parameters.map names.values,
    names.tree routine.body⟩

/-- The scope with all names renamed. -/
def scope (scope : Scope) : Scope :=
  ⟨⟨scope.values.entries.map (Prod.map names.values id)⟩,
    ⟨scope.routines.entries.map (Prod.map names.routines names.routine)⟩⟩

/-- The context with all names renamed. -/
def context (context : Context) : Context :=
  ⟨names.scope context.innermost, context.enclosing.map names.scope⟩

section Tables

variable {α β : Type} {rename : String → String} (injective : Function.Injective rename)
  (convert : α → β)
include injective

theorem lookup_map (entries : List (String × α)) (name : String) :
    (entries.map (Prod.map rename convert)).lookup (rename name) =
      (entries.lookup name).map convert := by
  induction entries with
  | nil => rfl
  | cons entry entries ih =>
      obtain ⟨key, bound⟩ := entry
      rw [List.map_cons, Prod.map_apply, List.lookup_cons, List.lookup_cons, ih]
      by_cases same : name = key
      · simp [same]
      · have other : rename name ≠ rename key := fun equal => same (injective equal)
        rw [beq_false_of_ne same, beq_false_of_ne other]

theorem assignIn_map (name : String) (bound : α) (entries : List (String × α)) :
    Table.assignIn (rename name) (convert bound) (entries.map (Prod.map rename convert)) =
      (Table.assignIn name bound entries).map (Prod.map rename convert) := by
  induction entries with
  | nil => rfl
  | cons entry entries ih =>
      obtain ⟨key, old⟩ := entry
      simp only [List.map_cons, Prod.map_apply, Table.assignIn, injective.eq_iff, ih]
      split <;> rfl

end Tables

theorem scopes_context (context : Context) :
    (names.context context).scopes = context.scopes.map names.scope :=
  rfl

theorem push_context (context : Context) :
    (names.context context).push = names.context context.push :=
  rfl

theorem pop?_context (context : Context) :
    (names.context context).pop? = context.pop?.map names.context := by
  obtain ⟨innermost, enclosing⟩ := context
  cases enclosing <;> rfl

theorem value?_context (context : Context) (name : String) :
    (names.context context).value? (names.values name) = context.value? name := by
  rw [Context.value?, Context.value?, scopes_context, List.findSome?_map]
  refine congrArg (List.findSome? · _) (funext fun scope => ?_)
  exact (lookup_map names.values_injective id _ name).trans Option.map_id_apply

theorem routine?_context (context : Context) (name : String) :
    (names.context context).routine? (names.routines name) =
      (context.routine? name).map names.routine := by
  rw [Context.routine?, Context.routine?, scopes_context, List.findSome?_map, List.map_findSome?]
  refine congrArg (List.findSome? · _) (funext fun scope => ?_)
  exact lookup_map names.routines_injective names.routine _ name

theorem setVariable_context (context : Context) (name : String) (value : Value) :
    (names.context context).setVariable (names.values name) value =
      names.context (context.setVariable name value) := by
  have assigned := assignIn_map names.values_injective id name value
    context.innermost.values.entries
  unfold Context.setVariable Renaming.context scope Table.assign
  rw [← assigned]
  rfl

theorem setRoutine_context (context : Context) (routine : Routine) :
    (names.context context).setRoutine (names.routine routine) =
      names.context (context.setRoutine routine) := by
  have assigned := assignIn_map names.routines_injective names.routine routine.name routine
    context.innermost.routines.entries
  unfold Context.setRoutine Renaming.context scope Table.assign
  rw [← assigned]
  rfl

/-! ## Outcomes -/

open Eval Effect

/-- The fault about the renamed name. -/
def fault : Fault → Fault
  | .unsetVariable name => .unsetVariable (names.values name)
  | .unsetRoutine name => .unsetRoutine (names.routines name)
  | .arity name wanted found => .arity (names.routines name) wanted found
  | .duplicateParameter name => .duplicateParameter (names.values name)
  | fault => fault

/-- The error about the renamed name, at the same offset. -/
def error (error : Error) : Error :=
  ⟨names.fault error.fault, error.offset⟩

/-- The halt with the error about the renamed name. -/
def halt : Halt → Halt
  | .failed error => .failed (names.error error)
  | halt => halt

/-- The outcome with a converted result, and with the halt and the context renamed. -/
def outcome {α β : Type} (convert : α → β) :
    EStateM.Result Halt Context α → EStateM.Result Halt Context β
  | .ok result last => .ok (convert result) (names.context last)
  | .error halt last => .error (names.halt halt) (names.context last)

/-- The second action does in the renamed context what the first one does. -/
def Carries {α β : Type} (convert : α → β) (action : Eval α) (action' : Eval β) : Prop :=
  ∀ context, action' (names.context context) = names.outcome convert (action context)

namespace Carries

variable {names} {α β γ δ : Type} {convert : α → β} {convert' : γ → δ}

theorem value (result : α) : names.Carries convert (pure result) (pure (convert result)) :=
  fun _ => rfl

theorem halt (halt : Halt) :
    names.Carries convert (throw halt : Eval α) (throw (names.halt halt)) :=
  fun _ => rfl

theorem fail (fault : Fault) (offset : Int) :
    names.Carries convert (fail fault offset : Eval α) (fail (names.fault fault) offset) :=
  fun _ => rfl

theorem bind {action : Eval α} {action' : Eval β} {next : α → Eval γ} {next' : β → Eval δ}
    (first : names.Carries convert action action')
    (rest : ∀ result, names.Carries convert' (next result) (next' (convert result))) :
    names.Carries convert' (action >>= next) (action' >>= next') := by
  intro context
  have ran' := first context
  cases ran : action context with
  | ok result middle =>
      rw [ran] at ran'
      rw [bind_of_ok ran, bind_of_ok ran']
      exact rest result middle
  | error halt last =>
      rw [ran] at ran'
      rw [bind_of_error ran, bind_of_error ran']
      rfl

theorem inScope {action : Eval α} {action' : Eval β}
    (inside : names.Carries convert action action') :
    names.Carries convert (inScope action) (inScope action') := by
  intro context
  have ran := inside context.push
  unfold Eval.inScope
  rw [push_context, ran]
  cases action context.push with
  | ok result last =>
      simp only [outcome, pop?_context]
      cases last.pop? <;> rfl
  | error halt last =>
      simp only [outcome, pop?_context]
      cases last.pop? <;> rfl

/-- A computation whose faults are about no name of a variable or a function. -/
theorem located (offset : Int) {computed : Except Fault α}
    (unnamed : ∀ fault, computed = .error fault → names.fault fault = fault) :
    names.Carries id (located offset computed) (located offset computed) := by
  cases computed with
  | ok result => exact value result
  | error fault =>
      have carries := @fail names α α id fault offset
      rwa [unnamed fault rfl] at carries

theorem lookupValue (name : String) :
    names.Carries id (lookupValue name) (lookupValue (names.values name)) := by
  intro context
  unfold Eval.lookupValue
  rw [value?_context]
  rfl

theorem lookupRoutine (name : String) :
    names.Carries (Option.map names.routine) (lookupRoutine name)
      (lookupRoutine (names.routines name)) := by
  intro context
  unfold Eval.lookupRoutine
  rw [routine?_context]
  rfl

theorem setVariable (name : String) (bound : Value) :
    names.Carries id (modify (·.setVariable name bound) : Eval PUnit)
      (modify (·.setVariable (names.values name) bound)) := by
  intro context
  exact congrArg (EStateM.Result.ok PUnit.unit) (names.setVariable_context context name bound)

theorem setVariables (bindings : List (String × Value)) :
    names.Carries id (modify (·.setVariables bindings) : Eval PUnit)
      (modify (·.setVariables (bindings.map (Prod.map names.values id)))) := by
  induction bindings with
  | nil => exact value PUnit.unit
  | cons binding rest ih =>
      obtain ⟨name, bound⟩ := binding
      rw [List.map_cons, Prod.map_apply, setVariables_cons, setVariables_cons]
      exact bind (setVariable name bound) fun _ => ih

theorem setRoutine (routine : Routine) :
    names.Carries id (modify (·.setRoutine routine) : Eval PUnit)
      (modify (·.setRoutine (names.routine routine))) := by
  intro context
  exact congrArg (EStateM.Result.ok PUnit.unit) (names.setRoutine_context context routine)

theorem read (name : String) (offset : Int) :
    names.Carries id (read name offset) (read (names.values name) offset) := by
  rw [read_eq, read_eq]
  refine bind (lookupValue name) fun found => ?_
  cases found with
  | some bound => exact value bound
  | none => exact fail _ offset

end Carries

/-! ## Computations -/

theorem fault_of_literal {text : String} {found : Fault} (failed : literal text = .error found) :
    names.fault found = found := by
  unfold literal at failed
  split at failed
  · cases failed
    rfl
  · split at failed <;> cases failed
    rfl

theorem fault_of_combine {text : String} {left right : Value} {found : Fault}
    (failed : combine text left right = .error found) : names.fault found = found := by
  have overflows {number : Int} (failed : checked text number = .error found) :
      names.fault found = found := by
    unfold checked at failed
    split at failed <;> cases failed
    rfl
  unfold combine at failed
  split at failed
  · exact overflows failed
  · exact overflows failed
  · exact overflows failed
  · split at failed
    · cases failed
      rfl
    · exact overflows failed
  all_goals cases failed
  rfl

theorem fault_of_condition {label : String} {value : Value} {found : Fault}
    (failed : condition label value = .error found) : names.fault found = found := by
  unfold condition at failed
  split at failed <;> cases failed
  rfl

/-- A computation with a converted result, or with the error about the renamed name. -/
def computed {α β : Type} (convert : α → β) : Except Error α → Except Error β
  | .ok result => .ok (convert result)
  | .error error => .error (names.error error)

/-- Parameters that are different stay different, so the same one is refused. -/
theorem parameterNames_map (earlier : List String) (parameters : List Tree) :
    parameterNames (earlier.map names.values) (parameters.map names.tree) =
      names.computed (List.map names.values) (parameterNames earlier parameters) := by
  induction parameters generalizing earlier with
  | nil => rfl
  | cons parameter parameters ih =>
      rw [List.map_cons, parameterNames, parameterNames, kind_tree, offset_tree]
      by_cases isName : parameter.kind = .identifier
      · have next := ih (parameter.text :: earlier)
        rw [List.map_cons] at next
        rw [if_neg (not_not_intro isName), if_neg (not_not_intro isName),
          names.text_tree_of_identifier isName, next]
        simp only [List.mem_map_of_injective names.values_injective]
        split
        · rfl
        · cases parameterNames (parameter.text :: earlier) parameters <;> rfl
      · rw [if_pos isName, if_pos isName]
        rfl

/-- A definition describes the renamed function. -/
theorem routineOf_tree {root : Tree} (isDefinition : root.kind = .fnWord) :
    routineOf (names.tree root) = names.computed names.routine (routineOf root) := by
  unfold routineOf
  rw [names.children_tree_of_definition isDefinition, offset_tree]
  cases root.children with
  | nil => rfl
  | cons name rest =>
      have kind : (names.definedName name).kind = name.kind := rfl
      have offset : (names.definedName name).offset = name.offset := rfl
      simp only [definition, trees_eq_map, List.getLast?_map, ← List.map_dropLast, kind, offset]
      cases rest.getLast? with
      | none => rfl
      | some body =>
          simp only [Option.map_some, kind_tree, offset_tree]
          split
          · rfl
          · split
            · rfl
            · have parameters := names.parameterNames_map [] rest.dropLast
              rw [List.map_nil] at parameters
              rw [parameters]
              cases parameterNames [] rest.dropLast <;> rfl

/-! ## Rules -/

namespace Carries

variable {names}

theorem definition {root : Tree} (isDefinition : root.kind = .fnWord) :
    names.Carries id (Eval.definition root) (Eval.definition (names.tree root)) := by
  unfold Eval.definition
  rw [names.routineOf_tree isDefinition]
  cases routineOf root with
  | ok routine => exact bind (setRoutine routine) fun _ => value _
  | error error => exact halt (.failed error)

/-- A number of children that the kind does not have is refused at the node. -/
theorem childCount (root : Tree) (children : List Tree) (wanted : List Nat) :
    names.Carries id
      (Eval.fail (.childCount root.kind wanted children.length) root.offset : Eval Value)
      (Eval.fail (.childCount (names.tree root).kind wanted (children.map names.tree).length)
        (names.tree root).offset) := by
  rw [kind_tree, offset_tree, List.length_map]
  exact fail _ _

section Inside

variable {inner inner' : Tree → Eval Value}
  (inside : ∀ tree, names.Carries id (inner tree) (inner' (names.tree tree)))
include inside

theorem sequence (initial : Value) (trees : List Tree) :
    names.Carries id (sequence inner initial trees)
      (sequence inner' initial (trees.map names.tree)) := by
  induction trees generalizing initial with
  | nil => exact value initial
  | cons tree trees ih => exact bind (inside tree) ih

theorem values (trees : List Tree) :
    names.Carries id (Eval.values inner trees) (Eval.values inner' (trees.map names.tree)) := by
  induction trees with
  | nil => exact value _
  | cons tree trees ih => exact bind (inside tree) fun _ => bind ih fun _ => value _

theorem test (label : String) (question : Tree) :
    names.Carries id (test inner label question) (test inner' label (names.tree question)) := by
  unfold Eval.test
  rw [offset_tree]
  exact bind (inside question) fun _ => located _ fun _ => names.fault_of_condition

theorem rounds (question body : Tree) (bound : Nat) :
    names.Carries id (rounds inner question body bound)
      (rounds inner' (names.tree question) (names.tree body) bound) := by
  induction bound with
  | zero => exact halt .unfinished
  | succ bound ih =>
      refine bind (test inside "while" question) fun truth => ?_
      cases truth with
      | true => exact bind (inside body) fun _ => ih
      | false => exact value _

theorem apply (routine : Routine) (arguments : List Value) (offset : Int) :
    names.Carries id (apply inner routine arguments offset)
      (apply inner' (names.routine routine) arguments offset) := by
  have count : (names.routine routine).parameters.length = routine.parameters.length :=
    List.length_map _
  have bindings : (names.routine routine).parameters.zip arguments =
      (routine.parameters.zip arguments).map (Prod.map names.values id) := by
    rw [← List.zip_map, List.map_id]
    rfl
  unfold Eval.apply
  rw [count, bindings]
  split
  · exact fail _ _
  · exact inScope (bind (setVariables _) fun _ => inside routine.body)

section Node

variable {root : Tree}

theorem block (isBlock : root.kind = .block) :
    names.Carries id (block inner root) (block inner' (names.tree root)) := by
  have statements := sequence inside .null root.children
  unfold Eval.block
  rw [opensScope_tree, names.children_tree isBlock nofun]
  split
  · exact statements.inScope
  · exact statements

theorem assignment (isAssignment : root.kind = .assign) :
    names.Carries id (assignment inner root) (assignment inner' (names.tree root)) := by
  unfold Eval.assignment
  rw [names.children_tree isAssignment nofun]
  match root.children with
  | [] => exact childCount root [] [2]
  | [one] => exact childCount root [one] [2]
  | one :: two :: three :: more => exact childCount root (one :: two :: three :: more) [2]
  | [target, source] =>
      simp only [List.map_cons, List.map_nil, kind_tree, offset_tree]
      by_cases isName : target.kind = .identifier
      · rw [names.children_tree isName nofun, List.isEmpty_map,
          names.text_tree_of_identifier isName]
        split
        · exact bind (inside source) fun bound => bind (setVariable target.text bound) fun _ =>
            value _
        · exact fail _ _
      · rw [if_neg fun both => isName both.1, if_neg fun both => isName both.1]
        exact fail _ _

theorem operation (isOperator : root.kind = .operator) :
    names.Carries id (operation inner root) (operation inner' (names.tree root)) := by
  have sign : (names.tree root).text = root.text :=
    names.text_tree isOperator nofun nofun
  unfold Eval.operation
  rw [names.children_tree isOperator nofun]
  match root.children with
  | [] => exact childCount root [] [2]
  | [one] => exact childCount root [one] [2]
  | one :: two :: three :: more => exact childCount root (one :: two :: three :: more) [2]
  | [left, right] =>
      simp only [List.map_cons, List.map_nil, offset_tree, sign]
      exact bind (inside left) fun _ => bind (inside right) fun _ =>
        located _ fun _ => names.fault_of_combine

theorem conditional (isConditional : root.kind = .ifWord) :
    names.Carries id (conditional inner root) (conditional inner' (names.tree root)) := by
  unfold Eval.conditional
  rw [names.children_tree isConditional nofun]
  match root.children with
  | [] => exact childCount root [] [2, 3]
  | [one] => exact childCount root [one] [2, 3]
  | one :: two :: three :: four :: more =>
      exact childCount root (one :: two :: three :: four :: more) [2, 3]
  | [question, positive] =>
      refine bind (test inside "if" question) fun truth => ?_
      cases truth with
      | true => exact inside positive
      | false => exact value _
  | [question, positive, negative] =>
      refine bind (test inside "if" question) fun truth => ?_
      cases truth with
      | true => exact inside positive
      | false => exact inside negative

theorem loop (isLoop : root.kind = .whileWord) (bound : Nat) :
    names.Carries id (loop inner bound root) (loop inner' bound (names.tree root)) := by
  unfold Eval.loop
  rw [names.children_tree isLoop nofun]
  match root.children with
  | [] => exact childCount root [] [2]
  | [one] => exact childCount root [one] [2]
  | one :: two :: three :: more => exact childCount root (one :: two :: three :: more) [2]
  | [question, body] => exact rounds inside question body bound

theorem call (isCall : root.kind = .call) :
    names.Carries id (call inner root) (call inner' (names.tree root)) := by
  rw [call_eq, call_eq, names.text_tree_of_call isCall, offset_tree,
    names.children_tree isCall nofun]
  refine bind (lookupRoutine root.text) fun found => ?_
  cases found with
  | none => exact fail _ _
  | some routine =>
      exact bind (values inside root.children) fun arguments =>
        apply inside routine arguments root.offset

end Node

/-- **Every rule commutes with renaming.** If the evaluators for the nodes inside do, a renamed node
does in the renamed context what the node does. -/
theorem node (bound : Nat) (root : Tree) :
    names.Carries id (node inner bound root) (node inner' bound (names.tree root)) := by
  unfold Eval.node
  rw [kind_tree, offset_tree]
  cases isKind : root.kind with
  | numeral =>
      rw [names.text_tree isKind nofun nofun]
      exact located _ fun _ => names.fault_of_literal
  | string =>
      rw [names.text_tree isKind nofun nofun]
      exact value _
  | identifier =>
      rw [names.text_tree_of_identifier isKind]
      exact read _ _
  | call => exact call inside isKind
  | operator => exact operation inside isKind
  | assign => exact assignment inside isKind
  | ifWord => exact conditional inside isKind
  | whileWord => exact loop inside isKind bound
  | fnWord => exact definition isKind
  | block => exact block inside isKind
  | _ => exact fail _ _

end Inside

/-! ## Evaluation -/

/-- **Evaluation commutes with renaming.** -/
theorem tree (bound depth : Nat) (root : Tree) :
    names.Carries id (Eval.tree bound depth root) (Eval.tree bound depth (names.tree root)) := by
  induction depth generalizing root with
  | zero => exact halt .tooDeep
  | succ depth ih => exact node ih bound root

theorem reporting (offset : Int) {action action' : Eval Value}
    (carries : names.Carries id action action') :
    names.Carries id (reporting offset action) (reporting offset action') := by
  intro context
  unfold Eval.reporting
  rw [carries context]
  cases action context with
  | ok result last => rfl
  | error halt last => cases halt <;> rfl

theorem whole (bound depth : Nat) (root : Tree) :
    names.Carries id (whole bound depth root) (whole bound depth (names.tree root)) := by
  unfold Eval.whole
  rw [offset_tree]
  exact reporting _ (tree bound depth root)

theorem statements (bound depth : Nat) (root : Tree) :
    names.Carries id (statements bound depth root) (statements bound depth (names.tree root)) := by
  unfold Eval.statements
  rw [kind_tree, offset_tree]
  split
  · next isBlock =>
      rw [names.children_tree isBlock nofun]
      exact reporting _ (sequence (tree bound depth) .null root.children)
  · exact whole bound depth root

end Carries

/-- A renamed halt is of the same category and stands at the same offset. -/
theorem diagnostic_halt (halt : Halt) :
    (names.halt halt).diagnostic.category = halt.diagnostic.category ∧
      (names.halt halt).diagnostic.offset = halt.diagnostic.offset := by
  cases halt with
  | failed error =>
      obtain ⟨fault, offset⟩ := error
      cases fault <;> exact ⟨rfl, rfl⟩
  | tooDeep | unfinished | scopeUnderflow => exact ⟨rfl, rfl⟩

/-- **Names matter only up to renaming.** For every renaming of variables and every renaming of
functions, in which no two names become one: any tree, whether a text has it or not, evaluates after
renaming and in the renamed context to the same value, or it fails with an error of the same
category at the same offset that is about the renamed name; and the context afterwards is the
renamed one. This holds for nodes, for whole trees and for statements in the current scope. -/
theorem evaluation_commutes_with_renaming (names : Renaming) (bound depth : Nat) (root : Tree)
    (context : Context) :
    (Eval.tree bound depth (names.tree root) (names.context context) =
        names.outcome id (Eval.tree bound depth root context) ∧
      Eval.whole bound depth (names.tree root) (names.context context) =
        names.outcome id (Eval.whole bound depth root context) ∧
      Eval.statements bound depth (names.tree root) (names.context context) =
        names.outcome id (Eval.statements bound depth root context)) ∧
    ∀ halt : Halt, (names.halt halt).diagnostic.category = halt.diagnostic.category ∧
      (names.halt halt).diagnostic.offset = halt.diagnostic.offset :=
  ⟨⟨Carries.tree bound depth root context, Carries.whole bound depth root context,
    Carries.statements bound depth root context⟩, names.diagnostic_halt⟩

/-- All variables get one letter in front, and all functions get another. -/
def prefixing : Renaming where
  values name := "v" ++ name
  routines name := "f" ++ name
  values_injective first second same := by
    simpa only [← String.toList_inj, String.toList_append, List.append_cancel_left_eq] using same
  routines_injective first second same := by
    simpa only [← String.toList_inj, String.toList_append, List.append_cancel_left_eq] using same

/-- A context with one variable and one function, which adds its parameter to another variable. -/
def adding (stored routine parameter other : String) : Context :=
  (Context.fresh.setVariable stored (.integer 1)).setRoutine ⟨routine, [parameter],
    .block [.node ⟨.operator, "+", 12, false⟩
      [.leaf ⟨.identifier, parameter, 10, false⟩, .leaf ⟨.identifier, other, 14, false⟩]] false 8⟩

/-- The call of a function with the value of a variable. -/
def callWith (routine argument : String) : Tree :=
  .node ⟨.call, routine, 20, false⟩ [.leaf ⟨.identifier, argument, 22, false⟩]

/-- The function `x`, its parameter and the variable in its call are three names, and each gets the
letter that is its own. So does the name that the fault is about. -/
theorem evaluation_commutes_with_renaming_prefixing :
    prefixing.tree (callWith "x" "x") = callWith "fx" "vx" ∧
      prefixing.context (adding "x" "x" "x" "y") = adding "vx" "fx" "vx" "vy" ∧
      Eval.whole 1 9 (callWith "x" "x") (adding "x" "x" "x" "y") =
        .error (.failed ⟨.unsetVariable "y", 14⟩) (adding "x" "x" "x" "y") ∧
      Eval.whole 1 9 (callWith "fx" "vx") (adding "vx" "fx" "vx" "vy") =
        .error (.failed ⟨.unsetVariable "vy", 14⟩) (adding "vx" "fx" "vx" "vy") := by
  have trees : prefixing.tree (callWith "x" "x") = callWith "fx" "vx" := rfl
  have contexts : prefixing.context (adding "x" "x" "x" "y") = adding "vx" "fx" "vx" "vy" := rfl
  have ran : Eval.whole 1 9 (callWith "x" "x") (adding "x" "x" "x" "y") =
      .error (.failed ⟨.unsetVariable "y", 14⟩) (adding "x" "x" "x" "y") := rfl
  have commutes := (evaluation_commutes_with_renaming prefixing 1 9 (callWith "x" "x")
    (adding "x" "x" "x" "y")).1.2.1
  rw [ran, trees, contexts] at commutes
  refine ⟨trees, contexts, ran, commutes.trans ?_⟩
  rw [← contexts]
  rfl

end Renaming

end BraceLang
