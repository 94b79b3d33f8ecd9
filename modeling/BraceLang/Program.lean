import BraceLang.Failure
import BraceLang.Eval.Rules
import BraceLang.Parser.Grammar
import BraceLang.Tree.Outline

/-!
# Programs

A source text is read, parsed and evaluated. `run` evaluates the whole program in a scope of its
own, so the context is the same afterwards; `enter` evaluates the statements directly in the
innermost scope, so their bindings stay. `runListed` also writes out what it finds on the way.
-/

set_option autoImplicit false

namespace BraceLang

/-- How far a program may go: the nesting of its constructs and of its evaluations, and the rounds
of its loops. -/
structure Limits where
  nesting : Nat := Parser.nestingLimit
  depth : Nat := Eval.depthLimit
  rounds : Nat := Eval.roundLimit
  deriving DecidableEq, Repr

/-- The value or the failure of a program, and the context after it. -/
structure Outcome where
  result : Except Failure Value
  context : Context

/-- The outcome of an evaluation. -/
def Outcome.ofEval (action : Eval Value) (context : Context) : Outcome :=
  match action context with
  | .ok value after => ⟨.ok value, after⟩
  | .error halt after => ⟨.error (.evaluating halt), after⟩

/-- The tokens of a source text. -/
def tokensOf (source : String) : Except Failure (List Token) :=
  (tokenize source).mapError .reading

/-- The tree of a source text within limits. -/
def treeWithin (limits : Limits) (source : String) : Except Failure Tree := do
  (parseWithin limits.nesting (← tokensOf source)).mapError .parsing

/-- The tree of a source text. -/
def treeOf (source : String) : Except Failure Tree :=
  treeWithin {} source

/-- Evaluates the tree of a source text, if it has one. -/
def evaluateWithin (limits : Limits) (evaluation : Tree → Eval Value) (source : String)
    (context : Context) : Outcome :=
  match treeWithin limits source with
  | .ok tree => .ofEval (evaluation tree) context
  | .error failure => ⟨.error failure, context⟩

/-- Runs a program in a scope of its own, within limits. -/
def runWithin (limits : Limits) (source : String) (context : Context) : Outcome :=
  evaluateWithin limits (Eval.whole limits.rounds limits.depth) source context

/-- Runs a program in a scope of its own. -/
def run (source : String) (context : Context) : Outcome :=
  runWithin {} source context

/-- Runs the statements of a program in the current scope, within limits. -/
def enterWithin (limits : Limits) (source : String) (context : Context) : Outcome :=
  evaluateWithin limits (Eval.statements limits.rounds limits.depth) source context

/-- Runs the statements of a program in the current scope. -/
def enter (source : String) (context : Context) : Outcome :=
  enterWithin {} source context

/-! ## Listings -/

/-- Why a run that writes listings gave no value. -/
inductive ListedFailure where
  /-- The program fails. -/
  | program (failure : Failure)
  /-- The tree cannot be written out. Nothing handles this, so it is no failure of the program. -/
  | unwritable
  deriving DecidableEq, Repr

/-- A result and the text written on the way to it. -/
structure Listed where
  result : Except ListedFailure Value
  written : String

/-- Runs a program in a fresh context and writes its tokens, its tree and the final bindings. What
comes before a failure is written, and the bindings also when evaluation fails. Trees are written
out by `print`, which may give up on a tree; then the program is not evaluated. -/
def runListedWith (print : Tree → Option String) (source : String) : Listed :=
  match tokensOf source with
  | .error failure => ⟨.error (.program failure), ""⟩
  | .ok tokens =>
    let tokenLines := Token.listAll tokens ++ "\n"
    match parse tokens with
    | .error failure => ⟨.error (.program (.parsing failure)), tokenLines⟩
    | .ok tree =>
      match print tree with
      | none => ⟨.error .unwritable, tokenLines⟩
      | some treeLines =>
        let outcome :=
          Outcome.ofEval (Eval.whole Eval.roundLimit Eval.depthLimit tree) Context.fresh
        ⟨outcome.result.mapError .program,
          tokenLines ++ treeLines ++ outcome.context.listing ++ "\n"⟩

/-- Runs a program with listings, in which trees are written out as outlines. -/
def runListed (source : String) : Listed :=
  runListedWith Tree.outline? source

end BraceLang
