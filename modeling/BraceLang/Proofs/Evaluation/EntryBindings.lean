import BraceLang.Proofs.DocumentedFailures

/-!
# What an entry binds

The statements of an entry are run in the current scope, and all that stays of them are bindings: an
assignment binds its name to the value of its expression, a definition binds its function, and every
other statement leaves the context as it is, whatever it calls and whether it fails or not
(`statement_inert`). The reason is the shape of parsed trees. Nothing inside an expression binds a
name, except in the scope of a call, and the branches of a condition and the body of a loop open a
scope.

`Executes` describes the statements that are run with success and what they bind, one after the
other. A run of statements is such a list, up to the end or to the first statement that fails, which
binds nothing (`sequence_effect`).
-/

set_option autoImplicit false

namespace BraceLang

/-! ## Bindings -/

/-- A binding in the innermost scope. -/
inductive Binding where
  | value (name : String) (value : Value)
  | routine (routine : Routine)
  deriving DecidableEq, Repr

namespace Context

/-- The context with one more binding in the innermost scope. -/
def bind (context : Context) : Binding → Context
  | .value name value => context.setVariable name value
  | .routine routine => context.setRoutine routine

/-- The context with more bindings in the innermost scope, made in order. -/
def bindAll (context : Context) (bindings : List Binding) : Context :=
  bindings.foldl bind context

theorem bindAll_append (context : Context) (first second : List Binding) :
    context.bindAll (first ++ second) = (context.bindAll first).bindAll second :=
  List.foldl_append

end Context

namespace Eval

open Effect Grammar

/-! ## Actions without an effect -/

/-- An action that leaves every context as it is, whatever its outcome. -/
def Inert {α : Type} (action : Eval α) : Prop :=
  ∀ context, after action context = context

namespace Inert

variable {α β : Type}

theorem value (result : α) : Inert (pure result) :=
  fun _ => rfl

theorem halt (halt : Halt) : Inert (throw halt : Eval α) :=
  fun _ => rfl

theorem bind {action : Eval α} {next : α → Eval β} (first : Inert action)
    (rest : ∀ result, Inert (next result)) : Inert (action >>= next) :=
  fun context => after_bind_eq (first context) fun result => rest result context

theorem located (offset : Int) (computed : Except Fault α) : Inert (located offset computed) := by
  cases computed with
  | ok result => exact value result
  | error fault => exact halt _

theorem read (name : String) (offset : Int) : Inert (read name offset) := by
  rw [read_eq]
  refine bind (fun _ => rfl) fun found => ?_
  cases found with
  | some result => exact value result
  | none => exact halt _

end Inert

/-! ## Statements that bind nothing -/

section Rules

variable {inner : Tree → Eval Value}

theorem test_inert {question : Tree} (asks : Inert (inner question)) (label : String) :
    Inert (test inner label question) :=
  asks.bind fun _ => .located _ _

theorem rounds_inert {question body : Tree} (asks : Inert (inner question))
    (runs : Inert (inner body)) (bound : Nat) : Inert (rounds inner question body bound) := by
  induction bound with
  | zero => exact .halt _
  | succ bound ih =>
      refine (test_inert asks "while").bind fun truth => ?_
      cases truth with
      | true => exact runs.bind fun _ => ih
      | false => exact .value _

theorem apply_inert (framed : ∀ tree, Framed (inner tree)) (routine : Routine)
    (arguments : List Value) (offset : Int) : Inert (apply inner routine arguments offset) := by
  unfold apply
  split
  · exact .halt _
  · exact after_inScope ((setVariables_framed _).bind fun _ => framed routine.body)

/-- A call binds nothing, whatever the function does, if its arguments bind nothing. -/
theorem call_inert (framed : ∀ tree, Framed (inner tree)) {root : Tree}
    (each : ∀ argument ∈ root.children, Inert (inner argument)) : Inert (call inner root) := by
  rw [call_eq]
  refine Inert.bind (fun _ => rfl) fun found => ?_
  cases found with
  | none => exact .halt _
  | some routine =>
      refine Inert.bind (fun context => ?_) fun arguments => apply_inert framed routine arguments _
      exact after_values fun argument member => each argument member context

/-- Whether a statement of the kind binds a name in the current scope. -/
def bindsName : Kind → Bool
  | .assign | .fnWord => true
  | _ => false

/-- The rule for an expression has no effect, if the expressions inside have none. -/
theorem node_expression_inert {valid : Token → Prop} (framed : ∀ tree, Framed (inner tree))
    (inside : ∀ tree, Shaped valid .expression tree → Inert (inner tree)) (bound : Nat)
    {root : Tree} (shaped : Shaped valid .expression root) : Inert (node inner bound root) := by
  cases shaped with
  | literal isLiteral _ =>
      rcases isLiteral with isLiteral | isLiteral
      · simp only [node, Tree.kind, Tree.leaf, Tree.token, isLiteral]
        exact .located _ _
      · simp only [node, Tree.kind, Tree.leaf, Tree.token, isLiteral]
        exact .value _
  | name isName _ =>
      simp only [node, Tree.kind, Tree.leaf, Tree.token, isName]
      exact .read _ _
  | call _ _ each => exact call_inert framed fun argument member => inside _ (each argument member)
  | operation isOperator _ _ left right =>
      simp only [node, Tree.kind, Tree.token, isOperator]
      exact (inside _ left).bind fun _ => (inside _ right).bind fun _ => .located _ _

end Rules

/-- Blocks that open a scope have no effect. -/
theorem block_inert {valid : Token → Prop} (bound depth : Nat) {root : Tree}
    (shaped : Shaped valid (.block true) root) : Inert (tree bound depth root) := by
  cases shaped with
  | block each => exact after_block bound depth rfl rfl

/-- **Expressions have no effect.** -/
theorem expression_inert {valid : Token → Prop} (bound depth : Nat) {root : Tree}
    (shaped : Shaped valid .expression root) : Inert (tree bound depth root) := by
  induction depth generalizing root with
  | zero => exact .halt _
  | succ depth ih =>
      exact node_expression_inert (tree_framed bound depth) (fun _ shaped => ih shaped) bound shaped

/-- **Statements that bind no name have no effect.** -/
theorem statement_inert {valid : Token → Prop} (bound depth : Nat) {root : Tree}
    (shaped : Shaped valid .statement root) (bare : bindsName root.kind = false) :
    Inert (tree bound depth root) := by
  cases shaped with
  | evaluation shaped => exact expression_inert bound depth shaped
  | scope shaped => exact block_inert bound depth shaped
  | assignment _ _ isSign _ _ =>
      rw [Tree.kind, Tree.token, isSign] at bare
      cases bare
  | definition isWord _ _ _ _ _ =>
      rw [Tree.kind, Tree.token, isWord] at bare
      cases bare
  | conditional isWord _ question positive =>
      cases depth with
      | zero => exact .halt _
      | succ depth =>
          simp only [tree, node, Tree.kind, Tree.token, isWord]
          refine (test_inert (expression_inert bound depth question) "if").bind fun truth => ?_
          cases truth with
          | true => exact block_inert bound depth positive
          | false => exact .value _
  | alternative isWord _ question positive negative =>
      cases depth with
      | zero => exact .halt _
      | succ depth =>
          simp only [tree, node, Tree.kind, Tree.token, isWord]
          refine (test_inert (expression_inert bound depth question) "if").bind fun truth => ?_
          cases truth with
          | true => exact block_inert bound depth positive
          | false => exact block_inert bound depth negative
  | loop isWord _ question body =>
      cases depth with
      | zero => exact .halt _
      | succ depth =>
          simp only [tree, node, Tree.kind, Tree.token, isWord]
          exact rounds_inert (expression_inert bound depth question) (block_inert bound depth body)
            bound

/-! ## Statements that bind a name -/

/-- What a statement binds that is run with success in a context. -/
inductive Binds (bound depth : Nat) (context : Context) : Tree → List Binding → Prop where
  | assignment {name sign : Token} {source : Tree} {value : Value} :
      sign.kind = .assign → tree bound (depth - 1) source context = .ok value context →
        Binds bound depth context (.node sign [.leaf name, source]) [.value name.text value]
  | definition {word name : Token} {parameters : List Token} {body : Tree} :
      word.kind = .fnWord →
        Binds bound depth context
          (.node word (.leaf name :: parameters.map Tree.leaf ++ [body]))
          [.routine ⟨name.text, parameters.map Token.text, body⟩]
  | nothing {statement : Tree} :
      bindsName statement.kind = false → Binds bound depth context statement []

/-- The parameters of a function are the names that its definition lists. -/
theorem parameterNames_eq {names : List Token} {earlier listed : List String}
    (named : parameterNames earlier (names.map Tree.leaf) = .ok listed) :
    listed = names.map Token.text := by
  induction names generalizing earlier listed with
  | nil =>
      cases named
      rfl
  | cons name names ih =>
      rw [List.map_cons, parameterNames] at named
      split at named
      · cases named
      split at named
      · cases named
      · cases others : parameterNames ((Tree.leaf name).text :: earlier) (names.map Tree.leaf) with
        | error error =>
            rw [others] at named
            cases named
        | ok rest =>
            rw [others] at named
            cases named
            rw [ih others]
            rfl

section Statements

variable {valid : Token → Prop} (bound depth : Nat) (context : Context)

/-- An assignment binds the value of its expression, or the expression fails and nothing is
bound. -/
theorem assignment_effect {name sign : Token} {source : Tree} (isName : name.kind = .identifier)
    (isSign : sign.kind = .assign) (shaped : Shaped valid .expression source) :
    (∃ value, tree bound depth source context = .ok value context ∧
      tree bound (depth + 1) (.node sign [.leaf name, source]) context =
        .ok .null (context.setVariable name.text value)) ∨
    ∃ halt, tree bound (depth + 1) (.node sign [.leaf name, source]) context =
      .error halt context := by
  have unfolded : tree bound (depth + 1) (.node sign [.leaf name, source]) =
      tree bound depth source >>= fun value =>
        (modify (·.setVariable name.text value) : Eval PUnit) >>= fun _ => pure .null := by
    simp only [tree, node, Tree.kind, Tree.token, isSign]
    exact assignment_leaf isName source
  rw [unfolded]
  have inert := expression_inert bound depth shaped context
  cases ran : tree bound depth source context with
  | ok value last =>
      obtain rfl : last = context := (after_of_ok ran).symm.trans inert
      exact .inl ⟨value, rfl, bind_of_ok ran⟩
  | error halt last =>
      obtain rfl : last = context := (after_of_error ran).symm.trans inert
      exact .inr ⟨halt, bind_of_error ran⟩

/-- A definition binds its function, or a parameter occurs twice and nothing is bound. -/
theorem definition_effect {word name : Token} {parameters : List Token} {body : Tree}
    (isWord : word.kind = .fnWord) (isName : name.kind = .identifier)
    (shaped : Shaped valid (.block false) body) :
    (tree bound (depth + 1) (.node word (.leaf name :: parameters.map Tree.leaf ++ [body]))
        context =
      .ok .null (context.setRoutine ⟨name.text, parameters.map Token.text, body⟩)) ∨
    ∃ halt, tree bound (depth + 1)
      (.node word (.leaf name :: parameters.map Tree.leaf ++ [body])) context =
        .error halt context := by
  have isBlock : body.kind = .block := by
    cases shaped
    rfl
  simp only [tree, node, Tree.kind, Tree.token, isWord, definition,
    routineOf_definition isName isBlock]
  cases named : parameterNames [] (parameters.map Tree.leaf) with
  | ok names =>
      rw [parameterNames_eq named]
      exact .inl rfl
  | error error => exact .inr ⟨_, rfl⟩

/-- Expressions are not among the statements that bind a name. -/
theorem bindsName_expression {root : Tree} (shaped : Shaped valid .expression root) :
    bindsName root.kind = false := by
  cases shaped with
  | literal isLiteral _ =>
      rcases isLiteral with isLiteral | isLiteral
      · simp only [Tree.kind, Tree.leaf, Tree.token, isLiteral, bindsName]
      · simp only [Tree.kind, Tree.leaf, Tree.token, isLiteral, bindsName]
  | name isName _ => simp only [Tree.kind, Tree.leaf, Tree.token, isName, bindsName]
  | call _ _ _ => rfl
  | operation isOperator _ _ _ _ => simp only [Tree.kind, Tree.token, isOperator, bindsName]

/-- A statement of the grammar binds no name, or it is an assignment or a definition. -/
theorem statement_cases {statement : Tree} (shaped : Shaped valid .statement statement) :
    bindsName statement.kind = false ∨
    (∃ (name sign : Token) (source : Tree), name.kind = .identifier ∧ sign.kind = .assign ∧
      Shaped valid .expression source ∧ statement = .node sign [.leaf name, source]) ∨
    ∃ (word name : Token) (parameters : List Token) (body : Tree), word.kind = .fnWord ∧
      name.kind = .identifier ∧ Shaped valid (.block false) body ∧
        statement = .node word (.leaf name :: parameters.map Tree.leaf ++ [body]) := by
  cases shaped with
  | evaluation shaped => exact .inl (bindsName_expression shaped)
  | scope shaped =>
      cases shaped
      exact .inl rfl
  | conditional isWord _ _ _ =>
      exact .inl (by simp only [Tree.kind, Tree.token, isWord, bindsName])
  | alternative isWord _ _ _ _ =>
      exact .inl (by simp only [Tree.kind, Tree.token, isWord, bindsName])
  | loop isWord _ _ _ => exact .inl (by simp only [Tree.kind, Tree.token, isWord, bindsName])
  | assignment isName _ isSign _ source =>
      exact .inr (.inl ⟨_, _, _, isName, isSign, source, rfl⟩)
  | definition isWord _ isName _ _ body =>
      exact .inr (.inr ⟨_, _, _, _, isWord, isName, body, rfl⟩)

/-- **The effect of a statement.** It gives a value and binds what it says, or it fails and binds
nothing. -/
theorem statement_effect {statement : Tree} (shaped : Shaped valid .statement statement) :
    (∃ value made, Binds bound depth context statement made ∧
      tree bound depth statement context = .ok value (context.bindAll made)) ∨
    ∃ halt, tree bound depth statement context = .error halt context := by
  cases depth with
  | zero => exact .inr ⟨_, rfl⟩
  | succ depth =>
      rcases statement_cases shaped with bare | ⟨name, sign, source, isName, isSign, value, rfl⟩ |
        ⟨word, name, parameters, body, isWord, isName, block, rfl⟩
      · have inert := statement_inert bound (depth + 1) shaped bare context
        cases ran : tree bound (depth + 1) statement context with
        | ok value last =>
            obtain rfl : last = context := (after_of_ok ran).symm.trans inert
            exact .inl ⟨value, [], .nothing bare, rfl⟩
        | error halt last =>
            obtain rfl : last = context := (after_of_error ran).symm.trans inert
            exact .inr ⟨halt, rfl⟩
      · rcases assignment_effect bound depth context isName isSign value with
          ⟨result, ran, done⟩ | failed
        · exact .inl ⟨_, _, .assignment isSign ran, done⟩
        · exact .inr failed
      · rcases definition_effect bound depth context isWord isName block with done | failed
        · exact .inl ⟨_, _, .definition isWord, done⟩
        · exact .inr failed

/-! ## Statements one after the other -/

/-- Statements that are run with success one after the other, and what they bind. -/
inductive Executes (bound depth : Nat) : Context → List Tree → List Binding → Prop where
  | none (context : Context) : Executes bound depth context [] []
  | next {context : Context} {statement : Tree} {statements : List Tree} {value : Value}
      {made later : List Binding} :
      tree bound depth statement context = .ok value (context.bindAll made) →
        Binds bound depth context statement made →
          Executes bound depth (context.bindAll made) statements later →
            Executes bound depth context (statement :: statements) (made ++ later)

/-- **The effect of a run of statements.** They bind what they say, up to the end or to the first
one that fails. -/
theorem sequence_effect {statements : List Tree}
    (each : ∀ statement ∈ statements, Shaped valid .statement statement) (initial : Value) :
    (∃ value bindings, Executes bound depth context statements bindings ∧
      sequence (tree bound depth) initial statements context =
        .ok value (context.bindAll bindings)) ∨
    ∃ halt done failing rest bindings, statements = done ++ failing :: rest ∧
      Executes bound depth context done bindings ∧
      tree bound depth failing (context.bindAll bindings) =
        .error halt (context.bindAll bindings) ∧
      sequence (tree bound depth) initial statements context =
        .error halt (context.bindAll bindings) := by
  induction statements generalizing context initial with
  | nil => exact .inl ⟨initial, [], .none context, rfl⟩
  | cons statement statements ih =>
      obtain ⟨shaped, each⟩ := List.forall_mem_cons.mp each
      rcases statement_effect bound depth context shaped with ⟨value, made, binds, ran⟩ |
        ⟨halt, failed⟩
      · have continued : sequence (tree bound depth) initial (statement :: statements) context =
            sequence (tree bound depth) value statements (context.bindAll made) := bind_of_ok ran
        rw [continued]
        rcases ih (context.bindAll made) each value with ⟨result, later, executes, finished⟩ |
          ⟨halt, done, failing, rest, later, rfl, executes, failed, stopped⟩
        · refine .inl ⟨result, made ++ later, .next ran binds executes, ?_⟩
          rw [Context.bindAll_append, finished]
        · refine .inr ⟨halt, statement :: done, failing, rest, made ++ later, rfl,
            .next ran binds executes, ?_⟩
          rw [Context.bindAll_append]
          exact ⟨failed, stopped⟩
      · refine .inr ⟨halt, [], statement, statements, [], rfl, .none context, failed, ?_⟩
        exact bind_of_error failed

end Statements

/-! ## Entries -/

/-- Expressions that a parser builds have no effect, whatever the tokens they are built from. -/
theorem parsed_expression_inert {nesting : Nat} {last : Token} (closed : last.kind = .endOfInput)
    {start : List Token} {root : Tree} {cursor : Cursor}
    (parsed : Parser.nested nesting .expression (.before last start) = .ok root cursor)
    (bound depth : Nat) : Inert (tree bound depth root) := by
  have parses := nested_sound closed nesting .expression start nofun
  rw [Parser.Parses, parsed] at parses
  obtain ⟨rest, -, -, derived⟩ := parses
  have shaped := derived.shaped fun _ _ => trivial
  exact expression_inert bound depth (shaped root List.mem_cons_self)

/-- **What an entry binds.** The statements of an entry are run with success up to the end, or up to
the first one that fails, and the context afterwards is the initial one with what they bind added to
its innermost scope, in order: the values of the assigned expressions and the functions defined. The
statement that fails binds nothing, and those after it are not run. Statements of other kinds have
no effect in any context, whether they fail or not, and neither has any expression that the parser
can build. -/
theorem entry_effect (limits : Limits) (source : String) (root : Tree) (context : Context)
    (parsed : treeWithin limits source = .ok root) :
    (∃ done later bindings, root.children = done ++ later ∧
      Executes limits.rounds limits.depth context done bindings ∧
      (enterWithin limits source context).context = context.bindAll bindings ∧
      ((later = [] ∧ ∃ value, (enterWithin limits source context).result = .ok value) ∨
        ∃ failing rest halt, later = failing :: rest ∧
          tree limits.rounds limits.depth failing (context.bindAll bindings) =
            .error halt (context.bindAll bindings) ∧
          (enterWithin limits source context).result =
            .error (.evaluating (halt.reportedAt root.offset)))) ∧
    (∀ statement ∈ root.children, statement.kind ≠ .assign → statement.kind ≠ .fnWord →
      ∀ bound depth anywhere, after (tree bound depth statement) anywhere = anywhere) ∧
    ∀ nesting (last : Token) start expression cursor, last.kind = .endOfInput →
      Parser.nested nesting .expression (.before last start) = .ok expression cursor →
        ∀ bound depth anywhere, after (tree bound depth expression) anywhere = anywhere := by
  obtain ⟨statements, rfl⟩ := root_of_treeWithin parsed
  have each : ∀ statement ∈ statements, Written .statement statement := by
    cases written_of_treeWithin parsed with
    | block each => exact each
  refine ⟨?_, ?_, ?_⟩
  · have entered : enterWithin limits source context =
        .ofEval (reporting 0 (sequence (tree limits.rounds limits.depth) .null statements))
          context := by
      rw [enterWithin, evaluateWithin, parsed]
      rfl
    rw [entered]
    rcases sequence_effect limits.rounds limits.depth context each .null with
      ⟨value, bindings, executes, finished⟩ |
      ⟨halt, done, failing, rest, bindings, split, executes, failed, stopped⟩
    · have ran := reporting_of_ok finished 0
      refine ⟨statements, [], bindings, (List.append_nil _).symm, executes, ?_, .inl ⟨rfl, ?_⟩⟩
      · rw [context_ofEval, after_of_ok ran]
      · exact ⟨value, result_ofEval_of_ok ran⟩
    · have ran := reporting_of_error stopped 0
      refine ⟨done, failing :: rest, bindings, split, executes, ?_, .inr ?_⟩
      · rw [context_ofEval, after_of_error ran]
      · exact ⟨failing, rest, halt, rfl, failed, result_ofEval_of_error ran⟩
  · intro statement member notAssign notDefinition bound depth anywhere
    refine statement_inert bound depth (each statement member) ?_ anywhere
    unfold bindsName
    split
    · next isAssign => exact absurd isAssign notAssign
    · next isDefinition => exact absurd isDefinition notDefinition
    · rfl
  · intro nesting last start expression cursor closed built bound depth anywhere
    exact parsed_expression_inert closed built bound depth anywhere

/-- An entry that assigns, defines a function and calls it, once with success and once without: the
failed assignment and the one after it bind nothing, and the assignment inside the function is not
seen outside. -/
theorem entry_effect_division :
    let limits : Limits := ⟨20, 20, 20⟩
    let source := "x = 1 fn f(a) \x7b x = 2 1 / a \x7d f(x) y = f(0) z = 3"
    let context := (enterWithin limits source Context.fresh).context
    context.innermost.values.entries = [("x", .integer 1)] ∧
      context.innermost.routines.names = ["f"] ∧
      ∃ root done later bindings, treeWithin limits source = .ok root ∧
        root.children = done ++ later ∧
        Executes limits.rounds limits.depth Context.fresh done bindings ∧
        context = Context.fresh.bindAll bindings := by
  intro limits source context
  have run : (treeWithin limits source).isOk = true ∧
      context.innermost.values.entries = [("x", .integer 1)] ∧
      context.innermost.routines.names = ["f"] := by
    decide +kernel
  obtain ⟨readable, values, routines⟩ := run
  refine ⟨values, routines, ?_⟩
  cases parsed : treeWithin limits source with
  | error failure =>
      rw [parsed] at readable
      cases readable
  | ok root =>
      obtain ⟨done, later, bindings, split, executes, effect, -⟩ :=
        (entry_effect limits source root Context.fresh parsed).1
      exact ⟨root, done, later, bindings, rfl, split, executes, effect⟩

end Eval

end BraceLang
