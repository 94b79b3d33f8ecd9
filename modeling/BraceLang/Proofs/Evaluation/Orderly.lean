import BraceLang.Proofs.Evaluation.Frame
import BraceLang.Proofs.Grammar.Shape
import BraceLang.Proofs.Lexing.Spelling
import BraceLang.Proofs.Text.DigitRun

/-!
# Evaluation of trees that come from a text

Some faults of evaluation have no place in the language: they are about trees that no text has, and
about a scope that would have to be left without having been opened. The other ones are documented
(`Fault.isDocumented`).

A tree that comes from a text (`Written`) has the shape of the grammar and tokens that are spelled
as their kinds ask for. If all functions of a context have such bodies (`Prepared`), evaluation of
such a tree halts for a documented reason only, and the context is prepared again
(`tree_orderly`): a function that is called was defined by a tree of the same shape.
-/

set_option autoImplicit false

namespace BraceLang

/-- A tree that comes from a text. -/
abbrev Written : Grammar.Role → Tree → Prop :=
  Grammar.Shaped fun token => Lexer.Spelled token.kind token.text

/-- The functions of a context have bodies that come from a text. -/
def Prepared (context : Context) : Prop :=
  ∀ name routine, context.routine? name = some routine → Written (.block false) routine.body

namespace Eval

open Effect Grammar

/-- The faults that are part of the language. A literal that is no numeral is one of them if it has
too many digits. -/
def Fault.isDocumented : Fault → Bool
  | .unsetVariable _ | .unsetRoutine _ | .mismatch _ _ _ | .conditionType _ _ | .arity _ _ _
  | .divisionByZero | .overflow _ | .literalRange _ | .duplicateParameter _ | .recursionLimit => true
  | .invalidLiteral text => text.toList.all Lexer.isDigit && decide (Text.digitLimit < text.length)
  | .childCount _ _ _ | .assignmentTarget | .definitionShape | .definitionName | .definitionBody
  | .parameterKind _ | .unexpectedNode _ => false

/-- The reasons to halt that are left for trees that come from a text. -/
def Halt.isOrderly : Halt → Bool
  | .failed error => error.fault.isDocumented
  | .tooDeep | .unfinished => true
  | .scopeUnderflow => false

/-! ## Actions -/

/-- In a prepared context, the action gives a result with a property or halts in an orderly way, and
it leaves a prepared context. -/
def Orderly {α : Type} (action : Eval α) (post : α → Prop) : Prop :=
  ∀ context, Prepared context →
    match action context with
    | .ok result last => Prepared last ∧ post result
    | .error halt last => Prepared last ∧ halt.isOrderly = true

namespace Orderly

variable {α β : Type}

/-- Being prepared is an invariant, and orderly actions uphold it. -/
theorem iff_upholds {action : Eval α} {post : α → Prop} :
    Orderly action post ↔ Upholds Prepared (fun halt => halt.isOrderly = true) action post := by
  refine forall_congr' fun context => forall_congr' fun _ => ?_
  cases action context <;> rfl

theorem value {result : α} {post : α → Prop} (holds : post result) :
    Orderly (pure result) post :=
  fun _ prepared => ⟨prepared, holds⟩

theorem halt {halt : Halt} (orderly : halt.isOrderly = true) (post : α → Prop) :
    Orderly (throw halt) post :=
  fun _ prepared => ⟨prepared, orderly⟩

theorem fail {fault : Fault} (documented : fault.isDocumented = true) (offset : Int)
    (post : α → Prop) : Orderly (fail fault offset) post :=
  fun _ prepared => ⟨prepared, documented⟩

theorem bind {action : Eval α} {next : α → Eval β} {middle : α → Prop} {post : β → Prop}
    (first : Orderly action middle) (second : ∀ result, middle result → Orderly (next result) post) :
    Orderly (action >>= next) post :=
  iff_upholds.mpr ((iff_upholds.mp first).bind fun result holds =>
    iff_upholds.mp (second result holds))

theorem inScope {action : Eval α} {post : α → Prop} (framed : Framed action)
    (orderly : Orderly action post) : Orderly (inScope action) post :=
  iff_upholds.mpr (inScope_upholds framed (fun _ prepared => prepared) (iff_upholds.mp orderly))

theorem located {computed : Except Fault α} (offset : Int)
    (documented : ∀ fault, computed = .error fault → fault.isDocumented = true) :
    Orderly (located offset computed) fun _ => True := by
  cases computed with
  | ok result => exact value trivial
  | error fault => exact fail (documented fault rfl) offset _

theorem lookupRoutine (name : String) :
    Orderly (lookupRoutine name) fun found =>
      ∀ routine, found = some routine → Written (.block false) routine.body :=
  fun _ prepared => ⟨prepared, fun routine found => prepared name routine found⟩

theorem read (name : String) (offset : Int) : Orderly (read name offset) fun _ => True := by
  rw [read_eq]
  have lookup : Orderly (lookupValue name) fun _ => True := fun _ prepared => ⟨prepared, trivial⟩
  refine lookup.bind fun found _ => ?_
  cases found with
  | some result => exact value trivial
  | none => exact fail rfl offset _

theorem setVariable (name : String) (result : Value) :
    Orderly (modify (·.setVariable name result) : Eval PUnit) fun _ => True :=
  fun _ prepared => ⟨prepared, trivial⟩

theorem setVariables (bindings : List (String × Value)) :
    Orderly (modify (·.setVariables bindings) : Eval PUnit) fun _ => True := by
  induction bindings with
  | nil => exact value trivial
  | cons binding rest ih =>
      obtain ⟨name, result⟩ := binding
      rw [setVariables_cons]
      exact (setVariable name result).bind fun _ _ => ih

theorem setRoutine {routine : Routine} (written : Written (.block false) routine.body) :
    Orderly (modify (·.setRoutine routine) : Eval PUnit) fun _ => True := by
  intro context prepared
  refine ⟨fun name other found => ?_, trivial⟩
  rw [Context.routine?_setRoutine] at found
  split at found
  · cases found
    exact written
  · exact prepared name other found

end Orderly

/-! ## Computations -/

/-- A run of digits is a numeral, unless it has too many of them. -/
theorem literal_isDocumented {text : String} (spelled : Lexer.Spelled .numeral text)
    {fault : Fault} (failed : literal text = .error fault) : fault.isDocumented = true := by
  obtain ⟨digits, begun⟩ := spelled.digits
  have inhabited : text.toList ≠ [] := by
    rcases begun with impossible | ⟨c, rest, same, -⟩
    · cases impossible
    · rw [same]
      exact List.cons_ne_nil _ _
  rw [literal, Text.integer?_of_digits inhabited digits] at failed
  split at failed
  · next missing =>
      cases failed
      have long : Text.digitLimit < text.length := by
        split at missing
        · cases missing
        · omega
      have allDigits : text.toList.all Lexer.isDigit = true := List.all_eq_true.mpr digits
      simp [Fault.isDocumented, allDigits, long]
  · split at failed
    · cases failed
    · cases failed
      rfl

theorem checked_isDocumented {operator : String} {number : Int} {fault : Fault}
    (failed : checked operator number = .error fault) : fault.isDocumented = true := by
  unfold checked at failed
  split at failed <;> cases failed
  rfl

theorem combine_isDocumented {text : String} {left right : Value} {fault : Fault}
    (failed : combine text left right = .error fault) : fault.isDocumented = true := by
  unfold combine at failed
  split at failed
  · exact checked_isDocumented failed
  · exact checked_isDocumented failed
  · exact checked_isDocumented failed
  · split at failed
    · cases failed
      rfl
    · exact checked_isDocumented failed
  all_goals cases failed
  rfl

theorem condition_isDocumented {label : String} {value : Value} {fault : Fault}
    (failed : condition label value = .error fault) : fault.isDocumented = true := by
  unfold condition at failed
  split at failed <;> cases failed
  rfl

/-- Parameters that are names can only be wrong by occurring twice. -/
theorem parameterNames_isDocumented {names : List Token}
    (areNames : ∀ name ∈ names, name.kind = .identifier) {earlier : List String} {error : Error}
    (failed : parameterNames earlier (names.map Tree.leaf) = .error error) :
    error.fault.isDocumented = true := by
  induction names generalizing earlier with
  | nil => cases failed
  | cons name names ih =>
      obtain ⟨isName, areNames⟩ := List.forall_mem_cons.mp areNames
      have leafKind : (Tree.leaf name).kind = .identifier := isName
      rw [List.map_cons, parameterNames, if_neg (not_not_intro leafKind)] at failed
      split at failed
      · cases failed
        rfl
      · cases others : parameterNames ((Tree.leaf name).text :: earlier)
          (names.map Tree.leaf) with
        | error error' =>
            rw [others] at failed
            cases failed
            exact ih areNames others
        | ok rest =>
            rw [others] at failed
            cases failed

/-! ## Nodes -/

/-- An evaluator for inner nodes that is orderly on a tree. -/
abbrev OrderlyAt (inner : Tree → Eval Value) (tree : Tree) : Prop :=
  Orderly (inner tree) fun _ => True

/-- The body of a function is a block. -/
theorem kind_of_written {opensScope : Bool} {body : Tree}
    (written : Written (.block opensScope) body) : body.kind = .block := by
  cases written
  rfl

/-- A definition of the grammar describes a function, if no parameter occurs twice. -/
theorem routineOf_definition {word name : Token} {parameters : List Token} {body : Tree}
    (isName : name.kind = .identifier) (isBlock : body.kind = .block) :
    routineOf (.node word (.leaf name :: parameters.map Tree.leaf ++ [body])) =
      (parameterNames [] (parameters.map Tree.leaf)).map fun names => ⟨name.text, names, body⟩ := by
  have leafKind : (Tree.leaf name).kind = .identifier := isName
  simp only [routineOf, Tree.children, List.cons_append, List.getLast?_concat,
    List.dropLast_concat, leafKind, isBlock, ne_eq, not_true_eq_false, if_false]
  cases parameterNames [] (parameters.map Tree.leaf) <;> rfl

/-- A definition that comes from a text describes a function whose body does. -/
theorem definition_orderly {word name : Token} {parameters : List Token} {body : Tree}
    (isName : name.kind = .identifier)
    (areNames : ∀ parameter ∈ parameters, parameter.kind = .identifier)
    (written : Written (.block false) body) :
    Orderly (definition (.node word (.leaf name :: parameters.map Tree.leaf ++ [body])))
      fun _ => True := by
  unfold definition
  rw [routineOf_definition isName (kind_of_written written)]
  cases named : parameterNames [] (parameters.map Tree.leaf) with
  | ok names => exact (Orderly.setRoutine written).bind fun _ _ => .value trivial
  | error error =>
      exact @Orderly.halt _ (.failed error) (parameterNames_isDocumented areNames named) _

section Rules

variable {inner : Tree → Eval Value}

theorem assignment_leaf {name sign : Token} (isName : name.kind = .identifier) (source : Tree) :
    assignment inner (.node sign [.leaf name, source]) = inner source >>= fun value =>
      (modify (·.setVariable name.text value) : Eval PUnit) >>= fun _ => pure .null :=
  if_pos ⟨isName, rfl⟩

theorem sequence_orderly {trees : List Tree} (each : ∀ tree ∈ trees, OrderlyAt inner tree)
    (value : Value) : Orderly (sequence inner value trees) fun _ => True := by
  induction trees generalizing value with
  | nil => exact .value trivial
  | cons tree trees ih =>
      obtain ⟨first, others⟩ := List.forall_mem_cons.mp each
      exact first.bind fun result _ => ih others result

theorem values_orderly {trees : List Tree} (each : ∀ tree ∈ trees, OrderlyAt inner tree) :
    Orderly (values inner trees) fun _ => True := by
  induction trees with
  | nil => exact .value trivial
  | cons tree trees ih =>
      obtain ⟨first, others⟩ := List.forall_mem_cons.mp each
      exact first.bind fun _ _ => (ih others).bind fun _ _ => .value trivial

theorem test_orderly {question : Tree} (asks : OrderlyAt inner question) (label : String) :
    Orderly (test inner label question) fun _ => True :=
  asks.bind fun _ _ => .located _ fun _ => condition_isDocumented

theorem rounds_orderly {question body : Tree} (asks : OrderlyAt inner question)
    (runs : OrderlyAt inner body) (bound : Nat) :
    Orderly (rounds inner question body bound) fun _ => True := by
  induction bound with
  | zero => exact .halt rfl _
  | succ bound ih =>
      refine (test_orderly asks "while").bind fun truth _ => ?_
      cases truth with
      | true => exact runs.bind fun _ _ => ih
      | false => exact .value trivial

theorem apply_orderly (framed : ∀ tree, Framed (inner tree)) {routine : Routine}
    (runs : OrderlyAt inner routine.body) (arguments : List Value) (offset : Int) :
    Orderly (apply inner routine arguments offset) fun _ => True := by
  unfold apply
  split
  · exact .fail rfl _ _
  · refine .inScope ?_ ((Orderly.setVariables _).bind fun _ _ => runs)
    exact (setVariables_framed _).bind fun _ => framed routine.body

/-- A call is orderly, because the function that is found has a body that comes from a text. -/
theorem call_orderly (framed : ∀ tree, Framed (inner tree))
    (inside : ∀ role tree, Written role tree → OrderlyAt inner tree) {root : Tree}
    (each : ∀ argument ∈ root.children, Written .expression argument) :
    Orderly (call inner root) fun _ => True := by
  rw [call_eq]
  -- the function is looked up before the arguments are evaluated, in the prepared context
  refine (Orderly.lookupRoutine root.text).bind fun found written => ?_
  cases found with
  | none => exact .fail rfl _ _
  | some routine =>
      have arguments : ∀ argument ∈ root.children, OrderlyAt inner argument :=
        fun argument member => inside _ _ (each argument member)
      refine (values_orderly arguments).bind fun results _ => ?_
      exact apply_orderly framed (inside _ _ (written routine rfl)) results root.offset

/-- The rule of each kind of node is orderly, if evaluation of the nodes inside is. -/
theorem node_orderly (framed : ∀ tree, Framed (inner tree))
    (inside : ∀ role tree, Written role tree → OrderlyAt inner tree) (bound : Nat) {role : Role}
    {root : Tree} (written : Written role root) : OrderlyAt (node inner bound) root := by
  unfold OrderlyAt
  induction written with
  | @literal token isLiteral spelled =>
      rcases isLiteral with isLiteral | isLiteral
      · simp only [node, Tree.kind, Tree.leaf, Tree.token, isLiteral]
        rw [isLiteral] at spelled
        exact .located _ fun _ => literal_isDocumented spelled
      · simp only [node, Tree.kind, Tree.leaf, Tree.token, isLiteral]
        exact .value trivial
  | name isName _ =>
      simp only [node, Tree.kind, Tree.leaf, Tree.token, isName]
      exact .read _ _
  | call _ _ each _ => exact call_orderly framed inside each
  | operation isOperator _ _ left right _ _ =>
      simp only [node, Tree.kind, Tree.token, isOperator]
      refine (inside _ _ left).bind fun _ _ => ?_
      refine (inside _ _ right).bind fun _ _ => ?_
      exact .located _ fun _ => combine_isDocumented
  | evaluation _ ih => exact ih
  | assignment isName _ isSign _ value _ =>
      simp only [node, Tree.kind, Tree.token, isSign]
      rw [assignment_leaf isName]
      refine (inside _ _ value).bind fun result _ => ?_
      exact (Orderly.setVariable _ result).bind fun _ _ => .value trivial
  | conditional isWord _ question positive _ _ =>
      simp only [node, Tree.kind, Tree.token, isWord]
      refine (test_orderly (inside _ _ question) "if").bind fun truth _ => ?_
      cases truth with
      | true => exact inside _ _ positive
      | false => exact .value trivial
  | alternative isWord _ question positive negative _ _ _ =>
      simp only [node, Tree.kind, Tree.token, isWord]
      refine (test_orderly (inside _ _ question) "if").bind fun truth _ => ?_
      cases truth with
      | true => exact inside _ _ positive
      | false => exact inside _ _ negative
  | loop isWord _ question body _ _ =>
      simp only [node, Tree.kind, Tree.token, isWord]
      exact rounds_orderly (inside _ _ question) (inside _ _ body) bound
  | definition isWord _ isName _ areNames body _ =>
      simp only [node, Tree.kind, Tree.token, isWord]
      exact definition_orderly isName (fun parameter member => (areNames parameter member).1) body
  | scope _ ih => exact ih
  | @block statements opensScope offset each _ =>
      have run : Orderly (sequence inner .null statements) fun _ => True :=
        sequence_orderly (fun statement member => inside _ _ (each statement member)) .null
      cases opensScope with
      | true => exact .inScope (sequence_framed framed _ _) run
      | false => exact run

end Rules

/-- **Orderly evaluation.** A tree that comes from a text halts for a documented reason only, and it
leaves a prepared context. -/
theorem tree_orderly (bound depth : Nat) {role : Role} {root : Tree}
    (written : Written role root) : OrderlyAt (tree bound depth) root := by
  induction depth generalizing role root with
  | zero => exact .halt rfl _
  | succ depth ih =>
      exact node_orderly (tree_framed bound depth) (fun _ _ written => ih written) bound written

end Eval

end BraceLang
