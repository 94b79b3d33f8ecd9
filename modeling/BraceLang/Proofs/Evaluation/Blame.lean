import BraceLang.Proofs.Evaluation.Frame
import BraceLang.Proofs.Lexing.Layout

/-!
# Where faults are found

Many faults name a text: a name that is not bound, an operator, a literal (`Fault.namedText?`). This
module proves that such a text is the text of the node at which the fault is found.

The nodes in question are those of the tree that is evaluated and those of the functions that it
calls, wherever they were defined. They are described by a property that passes to the children of a
node (`origin`). In a context whose functions have bodies with the property, and are found under
their own names (`Traceable`), evaluation of a node with the property only fails at nodes with the
property, and its faults concern these nodes (`tree_blaming`).
-/

set_option autoImplicit false

namespace BraceLang

namespace Eval

open Effect

/-! ## Faults and nodes -/

/-- The text that a fault names: a name, an operator or a literal. -/
def Fault.namedText? : Fault → Option String
  | .unsetVariable name | .unsetRoutine name | .arity name _ _ | .duplicateParameter name =>
    some name
  | .mismatch _ operator _ | .overflow operator => some operator
  | .divisionByZero => some Operator.divide.text
  | .invalidLiteral text | .literalRange text => some text
  | .conditionType _ _ | .recursionLimit | .childCount _ _ _ | .assignmentTarget
  | .definitionShape | .definitionName | .definitionBody | .parameterKind _
  | .unexpectedNode _ => none

/-- If the fault names a text, it is the text of the node, which is not a block. -/
def Fault.Concerns (fault : Fault) (node : Tree) : Prop :=
  ∀ text ∈ fault.namedText?, node.kind ≠ .block ∧ node.text = text

/-- A fault that names no text concerns every node. -/
theorem Fault.Concerns.of_unnamed {fault : Fault} (unnamed : fault.namedText? = none)
    (node : Tree) : fault.Concerns node := by
  intro text named
  rw [unnamed] at named
  cases named

/-- A fault that names the text of a node concerns the node, unless it is a block. -/
theorem Fault.Concerns.of_named {fault : Fault} {node : Tree} {kind : Kind}
    (named : fault.namedText? = some node.text) (isKind : node.kind = kind)
    (plain : kind ≠ .block) : fault.Concerns node := by
  intro text member
  rw [named] at member
  cases member
  exact ⟨isKind ▸ plain, rfl⟩

variable {origin : Tree → Prop}

variable (origin) in
/-- The error is found at a node with the property, and its fault concerns the node. -/
def Error.Blames (error : Error) : Prop :=
  ∃ node, origin node ∧ error.offset = node.offset ∧ error.fault.Concerns node

variable (origin) in
/-- What is known of a halt: its error, if there is one, blames a node with the property. -/
def Halt.Blames : Halt → Prop
  | .failed error => error.Blames origin
  | .tooDeep | .unfinished | .scopeUnderflow => True

variable (origin) in
/-- Functions are found under their own names, and their bodies have the property. -/
def Traceable (context : Context) : Prop :=
  ∀ name routine, context.routine? name = some routine →
    routine.name = name ∧ origin routine.body

/-! ## Actions -/

variable (origin) in
/-- In a traceable context, the action gives a result with a property or blames a node, and it
leaves a traceable context. -/
def Blaming {α : Type} (action : Eval α) (post : α → Prop) : Prop :=
  Upholds (Traceable origin) (Halt.Blames origin) action post

namespace Blaming

variable {α β : Type}

theorem value {result : α} {post : α → Prop} (holds : post result) :
    Blaming origin (pure result) post :=
  Upholds.value holds

theorem halt {halt : Halt} (blames : halt.Blames origin) (post : α → Prop) :
    Blaming origin (throw halt) post :=
  Upholds.throw blames post

theorem fail {fault : Fault} {node : Tree} (known : origin node) (concerns : fault.Concerns node)
    (post : α → Prop) : Blaming origin (fail fault node.offset) post :=
  fun _ traceable => ⟨traceable, node, known, rfl, concerns⟩

theorem bind {action : Eval α} {next : α → Eval β} {middle : α → Prop} {post : β → Prop}
    (first : Blaming origin action middle)
    (second : ∀ result, middle result → Blaming origin (next result) post) :
    Blaming origin (action >>= next) post :=
  Upholds.bind first second

theorem inScope {action : Eval α} {post : α → Prop} (framed : Framed action)
    (blaming : Blaming origin action post) : Blaming origin (inScope action) post :=
  inScope_upholds framed (fun _ traceable => traceable) blaming

theorem located {computed : Except Fault α} {node : Tree} (known : origin node)
    (concerns : ∀ fault, computed = .error fault → fault.Concerns node) :
    Blaming origin (located node.offset computed) fun _ => True := by
  cases computed with
  | ok result => exact value trivial
  | error fault => exact fail known (concerns fault rfl) _

theorem lookupRoutine (name : String) :
    Blaming origin (lookupRoutine name) fun found =>
      ∀ routine, found = some routine → routine.name = name ∧ origin routine.body :=
  fun _ traceable => ⟨traceable, traceable name⟩

theorem setVariables (bindings : List (String × Value)) :
    Blaming origin (modify (·.setVariables bindings) : Eval PUnit) fun _ => True := by
  induction bindings with
  | nil => exact .value trivial
  | cons binding rest ih =>
      obtain ⟨name, result⟩ := binding
      rw [setVariables_cons]
      have first : Blaming origin (modify (·.setVariable name result) : Eval PUnit) fun _ => True :=
        fun _ traceable => ⟨traceable, trivial⟩
      exact first.bind fun _ _ => ih

theorem setRoutine {routine : Routine} (known : origin routine.body) :
    Blaming origin (modify (·.setRoutine routine) : Eval PUnit) fun _ => True := by
  intro context traceable
  refine ⟨fun name other found => ?_, trivial⟩
  rw [Context.routine?_setRoutine] at found
  split at found
  · next same =>
      cases found
      exact ⟨same.symm, known⟩
  · exact traceable name other found

end Blaming

/-! ## Computations -/

/-- A literal that cannot be evaluated is named. -/
theorem literal_concerns {node : Tree} (isNumeral : node.kind = .numeral) {fault : Fault}
    (failed : literal node.text = .error fault) : fault.Concerns node := by
  unfold literal at failed
  split at failed
  · cases failed
    exact .of_named rfl isNumeral nofun
  · split at failed
    · cases failed
    · cases failed
      exact .of_named rfl isNumeral nofun

/-- What is wrong with an operation names the operator, also where it is division by zero. -/
theorem namedText?_of_combine {text : String} {left right : Value} {fault : Fault}
    (failed : combine text left right = .error fault) : fault.namedText? = some text := by
  have overflows {number : Int} (failed : checked text number = .error fault) :
      fault.namedText? = some text := by
    unfold checked at failed
    split at failed <;> cases failed
    rfl
  unfold combine at failed
  split at failed
  · exact overflows failed
  · exact overflows failed
  · exact overflows failed
  · next _ _ known =>
      split at failed
      · cases failed
        rw [Lexer.eq_text_of_ofText? known]
        rfl
      · exact overflows failed
  all_goals cases failed
  rfl

theorem condition_concerns {label : String} {value : Value} {fault : Fault}
    (failed : condition label value = .error fault) (node : Tree) : fault.Concerns node := by
  unfold condition at failed
  split at failed <;> cases failed
  exact .of_unnamed rfl node

/-- A parameter that is refused is blamed for it, and one that occurs twice is named. -/
theorem parameterNames_blames {parameters : List Tree} (known : ∀ node ∈ parameters, origin node)
    {earlier : List String} {error : Error}
    (failed : parameterNames earlier parameters = .error error) : error.Blames origin := by
  induction parameters generalizing earlier with
  | nil => cases failed
  | cons parameter parameters ih =>
      obtain ⟨here, others⟩ := List.forall_mem_cons.mp known
      rw [parameterNames] at failed
      split at failed
      · cases failed
        exact ⟨parameter, here, rfl, .of_unnamed rfl parameter⟩
      · next isName =>
          split at failed
          · cases failed
            exact ⟨parameter, here, rfl, .of_named rfl (Decidable.not_not.mp isName) nofun⟩
          · cases rest : parameterNames (parameter.text :: earlier) parameters with
            | ok names =>
                rw [rest] at failed
                cases failed
            | error error' =>
                rw [rest] at failed
                cases failed
                exact ih others rest

/-- A definition is refused at its root or at a child of it, or it describes a function whose
parameters and body are children of it. -/
theorem routineOf_cases (root : Tree) :
    (∃ fault node, (node = root ∨ node ∈ root.children) ∧ fault.namedText? = none ∧
      routineOf root = .error ⟨fault, node.offset⟩) ∨
    ∃ name parameters body, (∀ node ∈ parameters, node ∈ root.children) ∧
      body ∈ root.children ∧
      routineOf root = (parameterNames [] parameters).map fun names => ⟨name, names, body⟩ := by
  unfold routineOf
  split
  · exact .inl ⟨_, root, .inl rfl, rfl, rfl⟩
  · next name rest children =>
      rw [children]
      split
      · exact .inl ⟨_, root, .inl rfl, rfl, rfl⟩
      · next body ends =>
          have member : body ∈ name :: rest :=
            List.mem_cons_of_mem _ (List.mem_of_getLast? ends)
          split
          · exact .inl ⟨_, name, .inr List.mem_cons_self, rfl, rfl⟩
          · split
            · exact .inl ⟨_, body, .inr member, rfl, rfl⟩
            · refine .inr ⟨name.text, rest.dropLast, body, fun node parameter => ?_, member, ?_⟩
              · exact List.mem_cons_of_mem _ ((List.dropLast_sublist rest).subset parameter)
              · cases parameterNames [] rest.dropLast <;> rfl

/-! ## Nodes -/

section Rules

variable {root : Tree} (known : origin root) (below : ∀ child ∈ root.children, origin child)

section Definitions

include known below

theorem definition_blaming : Blaming origin (definition root) fun _ => True := by
  unfold definition
  rcases routineOf_cases root with ⟨fault, node, place, unnamed, failed⟩ |
    ⟨name, parameters, body, listed, member, described⟩
  · rw [failed]
    have here : origin node := by
      rcases place with rfl | child
      · exact known
      · exact below node child
    exact .fail here (.of_unnamed unnamed node) _
  · rw [described]
    cases named : parameterNames [] parameters with
    | ok names =>
        have setRoutine : Blaming origin
            (modify (·.setRoutine ⟨name, names, body⟩) : Eval PUnit) fun _ => True :=
          .setRoutine (below body member)
        exact setRoutine.bind fun _ _ => Blaming.value trivial
    | error error =>
        have blames : (Halt.failed error).Blames origin :=
          parameterNames_blames (fun node given => below node (listed node given)) named
        exact .halt blames _

end Definitions

variable {inner : Tree → Eval Value}
  (inside : ∀ tree, origin tree → Blaming origin (inner tree) fun _ => True)

include inside

theorem sequence_blaming {trees : List Tree} (each : ∀ tree ∈ trees, origin tree)
    (value : Value) : Blaming origin (sequence inner value trees) fun _ => True := by
  induction trees generalizing value with
  | nil => exact .value trivial
  | cons tree trees ih =>
      obtain ⟨first, others⟩ := List.forall_mem_cons.mp each
      exact (inside tree first).bind fun result _ => ih others result

theorem values_blaming {trees : List Tree} (each : ∀ tree ∈ trees, origin tree) :
    Blaming origin (values inner trees) fun _ => True := by
  induction trees with
  | nil => exact .value trivial
  | cons tree trees ih =>
      obtain ⟨first, others⟩ := List.forall_mem_cons.mp each
      exact (inside tree first).bind fun _ _ => (ih others).bind fun _ _ => .value trivial

theorem test_blaming {question : Tree} (asks : origin question) (label : String) :
    Blaming origin (test inner label question) fun _ => True :=
  (inside question asks).bind fun _ _ =>
    .located asks fun _ failed => condition_concerns failed question

theorem rounds_blaming {question body : Tree} (asks : origin question) (runs : origin body)
    (bound : Nat) : Blaming origin (rounds inner question body bound) fun _ => True := by
  induction bound with
  | zero => exact @Blaming.halt origin _ .unfinished trivial _
  | succ bound ih =>
      refine (test_blaming inside asks "while").bind fun truth _ => ?_
      cases truth with
      | true => exact (inside body runs).bind fun _ _ => ih
      | false => exact .value trivial

section Node

include known below

theorem assignment_blaming : Blaming origin (assignment inner root) fun _ => True := by
  unfold assignment
  split
  · next target source children =>
      rw [children] at below
      split
      · refine (inside source (below source (by simp))).bind fun result _ => ?_
        exact (Blaming.setVariables [(target.text, result)]).bind fun _ _ => .value trivial
      · exact .fail (below target List.mem_cons_self) (.of_unnamed rfl target) _
  · exact .fail known (.of_unnamed rfl root) _

theorem operation_blaming (isOperator : root.kind = .operator) :
    Blaming origin (operation inner root) fun _ => True := by
  unfold operation
  split
  · next first second children =>
      rw [children] at below
      refine (inside first (below first List.mem_cons_self)).bind fun _ _ => ?_
      refine (inside second (below second (by simp))).bind fun _ _ => ?_
      exact .located known fun _ failed =>
        .of_named (namedText?_of_combine failed) isOperator nofun
  · exact .fail known (.of_unnamed rfl root) _

theorem conditional_blaming : Blaming origin (conditional inner root) fun _ => True := by
  unfold conditional
  split
  · next question positive children =>
      rw [children] at below
      refine (test_blaming inside (below question List.mem_cons_self) "if").bind fun truth _ => ?_
      cases truth with
      | true => exact inside positive (below positive (by simp))
      | false => exact .value trivial
  · next question positive negative children =>
      rw [children] at below
      refine (test_blaming inside (below question List.mem_cons_self) "if").bind fun truth _ => ?_
      cases truth with
      | true => exact inside positive (below positive (by simp))
      | false => exact inside negative (below negative (by simp))
  · exact .fail known (.of_unnamed rfl root) _

theorem loop_blaming (bound : Nat) : Blaming origin (loop inner bound root) fun _ => True := by
  unfold loop
  split
  · next question body children =>
      rw [children] at below
      exact rounds_blaming inside (below question List.mem_cons_self) (below body (by simp)) bound
  · exact .fail known (.of_unnamed rfl root) _

variable (framed : ∀ tree, Framed (inner tree))
include framed

omit known in
/-- A block blames the nodes inside it, never itself. -/
theorem block_blaming : Blaming origin (block inner root) fun _ => True := by
  have run := sequence_blaming inside below .null
  unfold block
  split
  · exact .inScope (sequence_framed framed _ _) run
  · exact run

/-- A call blames itself if the function is missing or takes another number of arguments. The
function that is found has the name that is called, so both faults name it. -/
theorem call_blaming (isCall : root.kind = .call) :
    Blaming origin (call inner root) fun _ => True := by
  rw [call_eq]
  refine (Blaming.lookupRoutine root.text).bind fun found traced => ?_
  cases found with
  | none => exact .fail known (.of_named rfl isCall nofun) _
  | some routine =>
      obtain ⟨name, body⟩ := traced routine rfl
      have arguments := values_blaming inside below
      refine arguments.bind fun results _ => ?_
      unfold apply
      split
      · have named (wanted found : Nat) :
            (Fault.arity routine.name wanted found).namedText? = some root.text :=
          congrArg some name
        exact .fail known (.of_named (named _ _) isCall nofun) _
      · refine .inScope ?_ ((Blaming.setVariables _).bind fun _ _ => inside routine.body body)
        exact (setVariables_framed _).bind fun _ => framed routine.body

/-- **One node.** If the nodes inside blame nodes with the property, so does the node. -/
theorem node_blaming (bound : Nat) : Blaming origin (node inner bound root) fun _ => True := by
  unfold node
  split
  · next isNumeral => exact .located known fun _ => literal_concerns isNumeral
  · exact .value trivial
  · next isName =>
      rw [read_eq]
      have lookup : Blaming origin (lookupValue root.text) fun _ => True :=
        fun _ traceable => ⟨traceable, trivial⟩
      refine lookup.bind fun found _ => ?_
      cases found with
      | some result => exact .value trivial
      | none => exact .fail known (.of_named rfl isName nofun) _
  · next isCall => exact call_blaming known below inside framed isCall
  · next isOperator => exact operation_blaming known below inside isOperator
  · exact assignment_blaming known below inside
  · exact conditional_blaming known below inside
  · exact loop_blaming known below inside bound
  · exact definition_blaming known below
  · exact block_blaming below inside framed
  · exact .fail known (.of_unnamed rfl root) _

end Node

end Rules

/-! ## Trees -/

/-- **Faults are found at the nodes that they name.** -/
theorem tree_blaming
    (inherited : ∀ {tree child}, origin tree → child ∈ tree.children → origin child)
    (bound depth : Nat) {root : Tree} (known : origin root) :
    Blaming origin (tree bound depth root) fun _ => True := by
  induction depth generalizing root with
  | zero => exact @Blaming.halt origin _ .tooDeep trivial _
  | succ depth ih =>
      have below (child : Tree) (member : child ∈ root.children) : origin child :=
        inherited known member
      exact node_blaming known below (fun _ => ih) (tree_framed bound depth) bound

/-- The statements of a block are enough to know: the block itself is not blamed. -/
theorem tree_block_blaming
    (inherited : ∀ {tree child}, origin tree → child ∈ tree.children → origin child)
    (bound depth : Nat) {trees : List Tree} (each : ∀ tree ∈ trees, origin tree)
    (opensScope : Bool) (offset : Int) :
    Blaming origin (tree bound depth (.block trees opensScope offset)) fun _ => True := by
  cases depth with
  | zero => exact @Blaming.halt origin _ .tooDeep trivial _
  | succ depth =>
      have below : ∀ child ∈ (Tree.block trees opensScope offset).children, origin child := each
      have inside (tree : Tree) (known : origin tree) :=
        tree_blaming inherited bound depth known
      exact block_blaming below inside (tree_framed bound depth)

end Eval

end BraceLang
