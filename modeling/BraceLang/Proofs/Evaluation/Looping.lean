import BraceLang.Proofs.Evaluation.Depth
import BraceLang.Proofs.Evaluation.EntryBindings

/-!
# Loops that begin do not end

A loop that is written in a program has an expression for its condition and a block with a scope of
its own for its body (`Looping`, `loop_parses`). Neither of them leaves anything in the context, so
every iteration starts from the same context and does what the first one did. A condition that is
true once is true for ever: nothing that the body assigns is seen by it.

`iterations` lists what the iterations of a loop do, up to a number of them, and a loop is its
iterations (`rounds_eq_iterations`). A loop whose first iteration succeeds has as many equal
iterations as are asked for (`iterations_eq_replicate`). It is unfinished after every number of
them, also where the loops inside of it are given more or fewer rounds (`rounds_unfinished`).
-/

set_option autoImplicit false

namespace BraceLang

namespace Eval

open Effect Grammar

/-- A loop as the grammar has it: the condition is an expression and the body a block that opens a
scope. -/
structure Looping (root question body : Tree) : Prop where
  isLoop : root.kind = .whileWord
  children : root.children = [question, body]
  asks : Shaped (fun _ => True) .expression question
  isBlock : body.kind = .block
  opens : body.opensScope = true

/-- What the parser reads as a loop is one. -/
theorem loop_parses {last : Token} {inner : Parser.Construct → Parser Tree}
    (closed : last.kind = .endOfInput) (sound : Sound last inner) (start : List Token) :
    Parser.Parses last (Parser.loop inner) start fun root _ =>
      ∃ question body, Looping root question body := by
  refine .bind (Parser.consume_parses closed (by decide)) fun word afterWord _ isWord => ?_
  refine .bind (Parser.expect_parses closed (by decide) _) fun opening first _ _ => ?_
  refine .bind (sound .expression first nofun) fun question afterQuestion _ asks => ?_
  refine .bind (Parser.expect_parses closed (by decide) _) fun closing second _ _ => ?_
  refine .bind (sound (.block true) second nofun) fun body rest _ runs => ?_
  have asked : Shaped (fun _ => True) .expression question :=
    asks.shaped (fun _ _ => trivial) question List.mem_cons_self
  have repeated : Shaped (fun _ => True) (.block true) body :=
    runs.shaped (fun _ _ => trivial) body List.mem_cons_self
  cases repeated with
  | block _ => exact Parser.pure_parses ⟨question, _, isWord.2, rfl, asked, rfl, rfl⟩

/-! ## Iterations -/

/-- What happens in an iteration: the context in which it starts, the value of the condition and the
value of the body. -/
structure Iteration where
  start : Context
  asked : Value
  done : Value

section Rules

variable (inner : Tree → Eval Value)

/-- The iterations of a loop, up to a number of them, or to the first time that the condition is
false. -/
def iterations (question body : Tree) : Nat → Eval (List Iteration)
  | 0 => return []
  | count + 1 => do
    let start ← get
    let asked ← inner question
    if ← located question.offset (condition "while" asked) then
      let done ← inner body
      let later ← iterations question body count
      return ⟨start, asked, done⟩ :: later
    else
      return []

/-- **A loop is its iterations.** It is unfinished if there are as many of them as it may have, and
else its value is null. -/
theorem rounds_eq_iterations (question body : Tree) (count : Nat) :
    rounds inner question body count =
      iterations inner question body count >>= fun passed =>
        if passed.length = count then throw .unfinished else pure .null := by
  induction count with
  | zero => rfl
  | succ count ih =>
      simp only [rounds, iterations, test, bind_assoc]
      funext context
      have started : (get : Eval Context) context = .ok context context := rfl
      rw [bind_of_ok started]
      refine congrFun (bind_congr fun asked => bind_congr fun truth => ?_) context
      cases truth with
      | true => simp [ih]
      | false => simp

variable {inner} {question body : Tree} {context : Context}

/-- If the first iteration succeeds and leaves the context, all iterations are equal to it. -/
theorem iterations_eq_replicate {value : Value}
    (asked : inner question context = .ok (.bool true) context)
    (ran : inner body context = .ok value context) (count : Nat) :
    iterations inner question body count context =
      .ok (List.replicate count ⟨context, .bool true, value⟩) context := by
  induction count with
  | zero => rfl
  | succ count ih =>
      have started : (get : Eval Context) context = .ok context context := rfl
      rw [iterations, bind_of_ok started, bind_of_ok asked]
      show (inner body >>= fun done => iterations inner question body count >>= fun later =>
        pure (⟨context, .bool true, done⟩ :: later) : Eval (List Iteration)) context = _
      rw [bind_of_ok ran, bind_of_ok ih]
      rfl

/-- A loop whose condition is false does nothing more. -/
theorem rounds_of_false {middle : Context}
    (asked : inner question context = .ok (.bool false) middle) (body : Tree) (count : Nat) :
    rounds inner question body (count + 1) context = .ok .null middle := by
  have tested : test inner "while" question context = .ok false middle := bind_of_ok asked
  rw [rounds, bind_of_ok tested]
  rfl

/-- A loop whose condition fails does so as well. -/
theorem rounds_of_error {middle : Context} {halt : Halt}
    (asked : inner question context = .error halt middle) (body : Tree) (count : Nat) :
    rounds inner question body (count + 1) context = .error halt middle := by
  have tested : test inner "while" question context = .error halt middle := bind_of_error asked
  rw [rounds, bind_of_error tested]

/-- A loop whose condition is no truth value fails at the condition. -/
theorem rounds_of_type_ne {middle : Context} {value : Value}
    (asked : inner question context = .ok value middle) (other : value.type ≠ .bool) (body : Tree)
    (count : Nat) :
    rounds inner question body (count + 1) context =
      .error (.failed ⟨.conditionType "while" value.type, question.offset⟩) middle := by
  have refused : condition "while" value = .error (.conditionType "while" value.type) := by
    cases value with
    | bool truth => exact absurd rfl other
    | null | integer _ | string _ => rfl
  have tested : test inner "while" question context =
      .error (.failed ⟨.conditionType "while" value.type, question.offset⟩) middle := by
    rw [test, bind_of_ok asked, refused]
    rfl
  rw [rounds, bind_of_error tested]

/-- The first round of a loop whose condition is true begins with the body. -/
theorem rounds_of_true {middle : Context}
    (asked : inner question context = .ok (.bool true) middle) (count : Nat) :
    rounds inner question body (count + 1) context =
      (inner body >>= fun _ => rounds inner question body count) middle := by
  have tested : test inner "while" question context = .ok true middle := bind_of_ok asked
  rw [rounds, bind_of_ok tested]
  rfl

/-- A loop is unfinished after any number of rounds, if its condition is true or unfinished and its
body succeeds or is unfinished, and both leave the context. -/
theorem rounds_unfinished {value : Value}
    (asked : inner question context = .ok (.bool true) context ∨
      inner question context = .error .unfinished context)
    (ran : inner body context = .ok value context ∨
      inner body context = .error .unfinished context) (count : Nat) :
    rounds inner question body count context = .error .unfinished context := by
  induction count with
  | zero => rfl
  | succ count ih =>
      rcases asked with asked | asked
      · rw [rounds_of_true asked]
        rcases ran with ran | ran
        · rw [bind_of_ok ran, ih]
        · exact bind_of_error ran
      · exact rounds_of_error asked body count

end Rules

/-! ## Loops of the grammar -/

section Trees

variable {root question body : Tree} {bound depth : Nat} {context last : Context}

/-- An evaluation that gives a value gives it with any bound on the rounds of loops, or is
unfinished. -/
theorem ok_or_unfinished {value : Value} (ran : tree bound depth root context = .ok value last)
    (limit : Nat) : tree limit depth root context = .ok value last ∨
      ∃ middle, tree limit depth root context = .error .unfinished middle := by
  -- of the two bounds, the smaller one may be cut off and the larger one may not
  rcases Nat.le_total bound limit with order | order
  · obtain ⟨more, rfl⟩ := Nat.exists_eq_add_of_le order
    rcases (tree_truncates_rounds bound more depth root).agrees context with same | ⟨_, halted⟩
    · exact .inl (same ▸ ran)
    · rw [halted] at ran
      cases ran
  · obtain ⟨more, rfl⟩ := Nat.exists_eq_add_of_le order
    rcases (tree_truncates_rounds limit more depth root).agrees context with same | halted
    · exact .inl (same.trans ran)
    · exact .inr halted

/-- An action without an effect that gives a value with some bound gives it, or is unfinished, with
any other one, and leaves the context. -/
theorem Inert.ok_or_unfinished {value : Value} (inert : ∀ limit, Inert (tree limit depth root))
    (ran : tree bound depth root context = .ok value last) (limit : Nat) :
    tree limit depth root context = .ok value context ∨
      tree limit depth root context = .error .unfinished context := by
  obtain rfl : last = context := (after_of_ok ran).symm.trans (inert bound context)
  rcases Eval.ok_or_unfinished ran limit with same | ⟨middle, halted⟩
  · exact .inl same
  · obtain rfl : middle = last := (after_of_error halted).symm.trans (inert limit last)
    exact .inr halted

/-- A node for a loop with a condition and a body is evaluated in rounds. -/
theorem tree_loop (isLoop : root.kind = .whileWord) (children : root.children = [question, body])
    (bound depth : Nat) :
    tree bound (depth + 1) root = rounds (tree bound depth) question body bound := by
  simp only [tree, node, isLoop, loop, children]

namespace Looping

variable (looping : Looping root question body)
include looping

theorem tree_eq (bound depth : Nat) :
    tree bound (depth + 1) root = rounds (tree bound depth) question body bound :=
  tree_loop looping.isLoop looping.children bound depth

theorem question_inert (bound depth : Nat) : Inert (tree bound depth question) :=
  expression_inert bound depth looping.asks

theorem body_inert (bound depth : Nat) : Inert (tree bound depth body) :=
  after_block bound depth looping.isBlock looping.opens

end Looping

end Trees

/-- **A loop that begins does not end.** What the parser reads as a loop is a loop of the grammar,
and such a loop is its iterations. If its condition is false, it gives null, whatever stands in
place of its body. If its condition fails or is no truth value, or if its condition is true and its
body fails, it fails in the same way. In all these cases it leaves the context as it was. Otherwise
every iteration starts in the context of the first one, and its condition and its body have the
values of the first one, so with no bound on the rounds is there a value or a failure of the
loop. -/
theorem loop_never_ends_after_true :
    (∀ nesting last tokens root cursor, last.kind = .endOfInput →
      Parser.nested nesting .loop (.before last tokens) = .ok root cursor →
        ∃ question body, Looping root question body) ∧
    ∀ root question body, Looping root question body → ∀ bound depth context,
      let asked := tree (bound + 1) depth question context
      let ended := tree (bound + 1) (depth + 1) root context
      (∀ limit, tree limit (depth + 1) root =
        iterations (tree limit depth) question body limit >>= fun passed =>
          if passed.length = limit then throw .unfinished else pure .null) ∧
      (∀ middle, asked = .ok (.bool false) middle → ended = .ok .null context ∧
        ∀ other, tree (bound + 1) (depth + 1) (.node root.token [question, other]) context =
          .ok .null context) ∧
      (∀ halt middle, asked = .error halt middle → ended = .error halt context) ∧
      (∀ value middle, asked = .ok value middle → value.type ≠ .bool →
        ended = .error (.failed ⟨.conditionType "while" value.type, question.offset⟩) context) ∧
      ∀ middle, asked = .ok (.bool true) middle →
        (∀ halt last, tree (bound + 1) depth body middle = .error halt last →
          ended = .error halt context) ∧
        ∀ value last, tree (bound + 1) depth body middle = .ok value last →
          (∀ count, iterations (tree (bound + 1) depth) question body count context =
            .ok (List.replicate count ⟨context, .bool true, value⟩) context) ∧
          ∀ limit, tree limit (depth + 1) root context = .error .unfinished context := by
  refine ⟨?_, ?_⟩
  · intro nesting last tokens root cursor closed parsed
    cases nesting with
    | zero => cases parsed
    | succ nesting =>
        have parses := loop_parses closed (nested_sound closed nesting) tokens
        rw [Parser.Parses, show Parser.loop _ _ = _ from parsed] at parses
        obtain ⟨-, -, -, isLoop⟩ := parses
        exact isLoop
  · intro root question body looping bound depth context asked ended
    have kept : ∀ middle value, asked = .ok value middle → middle = context :=
      fun middle value ran => (after_of_ok ran).symm.trans (looping.question_inert _ _ context)
    have unfolded : ended = rounds (tree (bound + 1) depth) question body (bound + 1) context :=
      congrFun (looping.tree_eq (bound + 1) depth) context
    rw [unfolded]
    refine ⟨fun limit => ?_, ?_, ?_, ?_, ?_⟩
    · rw [looping.tree_eq, rounds_eq_iterations]
    · intro middle isFalse
      obtain rfl := kept middle _ isFalse
      refine ⟨rounds_of_false isFalse body bound, fun other => ?_⟩
      have isLoop : (Tree.node root.token [question, other]).kind = .whileWord := looping.isLoop
      rw [tree_loop isLoop rfl]
      exact rounds_of_false isFalse other bound
    · intro halt middle failed
      obtain rfl : middle = context :=
        (after_of_error failed).symm.trans (looping.question_inert _ _ context)
      exact rounds_of_error failed body bound
    · intro value middle isValue other
      obtain rfl := kept middle value isValue
      exact rounds_of_type_ne isValue other body bound
    · intro middle isTrue
      obtain rfl := kept middle _ isTrue
      refine ⟨fun halt last failed => ?_, fun value last ran => ⟨fun count => ?_, fun limit => ?_⟩⟩
      · obtain rfl : last = middle :=
          (after_of_error failed).symm.trans (looping.body_inert _ _ middle)
        rw [rounds_of_true isTrue, bind_of_error failed]
      · obtain rfl : last = middle :=
          (after_of_ok ran).symm.trans (looping.body_inert _ _ middle)
        exact iterations_eq_replicate isTrue ran count
      · rw [looping.tree_eq]
        exact rounds_unfinished
          (Inert.ok_or_unfinished (fun limit => looping.question_inert limit depth) isTrue limit)
          (Inert.ok_or_unfinished (fun limit => looping.body_inert limit depth) ran limit) limit

/-- A loop that counts a global variable down never sees what its body assigns: it is parsed as a
loop, and it is unfinished with every bound. -/
theorem loop_never_ends_after_true_countdown :
    let question := Tree.node ⟨.operator, "!=", 9, false⟩
      [.leaf ⟨.identifier, "i", 7, false⟩, .leaf ⟨.numeral, "0", 12, false⟩]
    let body := Tree.block [.node ⟨.assign, "=", 19, false⟩ [.leaf ⟨.identifier, "i", 17, false⟩,
      .node ⟨.operator, "-", 23, false⟩
        [.leaf ⟨.identifier, "i", 21, false⟩, .leaf ⟨.numeral, "1", 25, false⟩]]] true 15
    let root := Tree.node ⟨.whileWord, "while", 0, false⟩ [question, body]
    let tokens : List Token := [⟨.whileWord, "while", 0, false⟩, ⟨.openParen, "(", 6, false⟩,
      ⟨.identifier, "i", 7, false⟩, ⟨.operator, "!=", 9, false⟩, ⟨.numeral, "0", 12, false⟩,
      ⟨.closeParen, ")", 13, false⟩, ⟨.openBrace, "\x7b", 15, false⟩, ⟨.identifier, "i", 17, false⟩,
      ⟨.assign, "=", 19, false⟩, ⟨.identifier, "i", 21, false⟩, ⟨.operator, "-", 23, false⟩,
      ⟨.numeral, "1", 25, false⟩, ⟨.closeBrace, "\x7d", 27, false⟩]
    let context := Context.fresh.setVariable "i" (.integer 1)
    Parser.nested 6 .loop (.before (.endAt 28) tokens) = .ok root (.before (.endAt 28) []) ∧
      Looping root question body ∧
      ∀ limit, tree limit 5 root context = .error .unfinished context := by
  intro question body root tokens context
  have parsed : Parser.nested 6 .loop (.before (.endAt 28) tokens) =
      .ok root (.before (.endAt 28) []) := by decide +kernel
  obtain ⟨parsing, evaluating⟩ := loop_never_ends_after_true
  obtain ⟨_, _, looping⟩ := parsing 6 (.endAt 28) tokens root _ rfl parsed
  cases looping.children
  have isTrue : tree 1 4 question context = .ok (.bool true) context := rfl
  have ran : tree 1 4 body context = .ok .null context := rfl
  obtain ⟨-, -, -, -, repeats⟩ := evaluating root question body looping 0 4 context
  exact ⟨parsed, looping, ((repeats context isTrue).2 .null context ran).2⟩

end Eval

end BraceLang
