import BraceLang.Program
import BraceLang.Proofs.Effect

/-!
# The tree of a program and its outcome

A source text has a tree if it can be read and its tokens can be parsed, and otherwise it fails at
one of the two (`of_treeWithin_eq_ok`, `of_treeWithin_eq_error`). The root of the tree is a block
that opens a scope and stands at offset zero (`root_of_parseWithin`).

The outcome of a program is the outcome of evaluating its tree, where too deep a nesting is reported
at the root (`Eval.Halt.reportedAt`).
-/

set_option autoImplicit false

namespace BraceLang

open Effect

/-- Once a text is read, its tokens are parsed. -/
theorem treeWithin_of_tokenize {source : String} {tokens : List Token}
    (read : tokenize source = .ok tokens) (limits : Limits) :
    treeWithin limits source = (parseWithin limits.nesting tokens).mapError .parsing := by
  rw [treeWithin, tokensOf, read]
  rfl

/-- A text that cannot be read fails for the same reason. -/
theorem treeWithin_of_refused {source : String} {reason : Lexer.Failure}
    (read : tokenize source = .error reason) (limits : Limits) :
    treeWithin limits source = .error (.reading reason) := by
  rw [treeWithin, tokensOf, read]
  rfl

/-- A text with a tree has tokens, which have that tree. -/
theorem of_treeWithin_eq_ok {limits : Limits} {source : String} {root : Tree}
    (parsed : treeWithin limits source = .ok root) :
    ∃ tokens, tokenize source = .ok tokens ∧ parseWithin limits.nesting tokens = .ok root := by
  cases read : tokenize source with
  | error reason =>
      rw [treeWithin_of_refused read] at parsed
      cases parsed
  | ok tokens =>
      rw [treeWithin_of_tokenize read] at parsed
      cases built : parseWithin limits.nesting tokens with
      | error failure =>
          rw [built] at parsed
          cases parsed
      | ok tree =>
          rw [built] at parsed
          cases parsed
          exact ⟨tokens, rfl, built⟩

/-- A text without a tree cannot be read, or its tokens cannot be parsed. -/
theorem of_treeWithin_eq_error {limits : Limits} {source : String} {failure : Failure}
    (refused : treeWithin limits source = .error failure) :
    (∃ reason, tokenize source = .error reason ∧ failure = .reading reason) ∨
      ∃ tokens reason, tokenize source = .ok tokens ∧
        parseWithin limits.nesting tokens = .error reason ∧ failure = .parsing reason := by
  cases read : tokenize source with
  | error reason =>
      rw [treeWithin_of_refused read] at refused
      cases refused
      exact .inl ⟨reason, rfl, rfl⟩
  | ok tokens =>
      rw [treeWithin_of_tokenize read] at refused
      cases built : parseWithin limits.nesting tokens with
      | error reason =>
          rw [built] at refused
          cases refused
          exact .inr ⟨tokens, reason, rfl, built, rfl⟩
      | ok tree =>
          rw [built] at refused
          cases refused

/-- A parsed token list is one block that opens a scope, at offset zero. -/
theorem root_of_parseWithin {depth : Nat} {tokens : List Token} {root : Tree}
    (parsed : parseWithin depth tokens = .ok root) :
    ∃ statements, root = .block statements true 0 := by
  unfold parseWithin at parsed
  split at parsed
  · cases parsed
  · next cursor _ =>
      cases ran : Parser.program depth cursor with
      | error failure last => rw [ran] at parsed; cases parsed
      | ok tree last =>
          rw [ran] at parsed
          cases parsed
          obtain ⟨rounds, start, _, ran⟩ := of_bind_eq_ok ran
          obtain ⟨statements, last, _, ran⟩ := of_bind_eq_ok ran
          cases ran
          exact ⟨statements, rfl⟩

/-- The root of a program's tree is a block that opens a scope, at offset zero. -/
theorem root_of_treeWithin {limits : Limits} {source : String} {root : Tree}
    (parsed : treeWithin limits source = .ok root) :
    ∃ statements, root = .block statements true 0 := by
  obtain ⟨tokens, _, built⟩ := of_treeWithin_eq_ok parsed
  exact root_of_parseWithin built

/-! ## Outcomes -/

/-- What is reported when evaluation halts, if the root stands at an offset. -/
def Eval.Halt.reportedAt (offset : Int) : Eval.Halt → Eval.Halt
  | .tooDeep => .failed ⟨.recursionLimit, offset⟩
  | halt => halt

theorem Eval.tree_scope (bound depth : Nat) (trees : List Tree) (offset : Int) :
    tree bound (depth + 1) (.block trees true offset) =
      inScope (sequence (tree bound depth) .null trees) :=
  rfl

theorem Eval.statements_block (bound depth : Nat) (trees : List Tree) (opensScope : Bool)
    (offset : Int) :
    statements bound depth (.block trees opensScope offset) =
      reporting offset (sequence (tree bound depth) .null trees) :=
  rfl

theorem Eval.reporting_of_ok {α : Type} {action : Eval α} {context last : Context} {result : α}
    (ran : action context = .ok result last) (offset : Int) :
    reporting offset action context = .ok result last := by
  rw [reporting, ran]

theorem Eval.reporting_of_error {α : Type} {action : Eval α} {context last : Context}
    {halt : Halt} (ran : action context = .error halt last) (offset : Int) :
    reporting offset action context = .error (halt.reportedAt offset) last := by
  rw [reporting, ran]
  cases halt <;> rfl

theorem Outcome.ofEval_of_ok {action : Eval Value} {context last : Context} {value : Value}
    (ran : action context = .ok value last) : ofEval action context = ⟨.ok value, last⟩ := by
  rw [ofEval, ran]

theorem Outcome.ofEval_of_error {action : Eval Value} {context last : Context} {halt : Eval.Halt}
    (ran : action context = .error halt last) :
    ofEval action context = ⟨.error (.evaluating halt), last⟩ := by
  rw [ofEval, ran]

theorem result_ofEval_of_ok {action : Eval Value} {context last : Context} {value : Value}
    (ran : action context = .ok value last) :
    (Outcome.ofEval action context).result = .ok value := by
  rw [Outcome.ofEval_of_ok ran]

theorem result_ofEval_of_error {action : Eval Value} {context last : Context} {halt : Eval.Halt}
    (ran : action context = .error halt last) :
    (Outcome.ofEval action context).result = .error (.evaluating halt) := by
  rw [Outcome.ofEval_of_error ran]

/-- The context of an outcome is the one that the evaluation leaves. -/
theorem context_ofEval (action : Eval Value) (context : Context) :
    (Outcome.ofEval action context).context = after action context := by
  unfold Outcome.ofEval after
  cases action context <;> rfl

end BraceLang
