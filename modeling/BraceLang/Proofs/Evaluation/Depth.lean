import BraceLang.Proofs.Evaluation.Frame

/-!
# Evaluation within a larger limit

An evaluation that is not nested too deeply does not depend on the limit: within a larger one it
has the same outcome and leaves the same context. `Truncates cut action action'` says that `action`
does what `action'` does or halts as `cut` says. The rules keep this relation, so evaluation of a
tree truncates evaluation within any larger limit on the nesting (`tree_truncates`), and evaluation
with any larger bound on the rounds of loops (`tree_truncates_rounds`).
-/

set_option autoImplicit false

namespace BraceLang

namespace Eval

open Effect

variable {α β : Type}

/-- The first action does what the second one does, or it is cut off. -/
structure Truncates (cut : Halt) (action action' : Eval α) : Prop where
  framed : Framed action
  agrees (context : Context) :
    action context = action' context ∨ ∃ last, action context = .error cut last

namespace Truncates

variable {cut : Halt}

theorem refl {action : Eval α} (framed : Framed action) : Truncates cut action action :=
  ⟨framed, fun _ => .inl rfl⟩

theorem halted (cut : Halt) (action : Eval α) : Truncates cut (throw cut) action :=
  ⟨framed_simulation.halt _, fun context => .inr ⟨context, rfl⟩⟩

theorem bind {first first' : Eval α} {next next' : α → Eval β}
    (truncates : Truncates cut first first')
    (follows : ∀ result, Truncates cut (next result) (next' result)) :
    Truncates cut (first >>= next) (first' >>= next') := by
  refine ⟨truncates.framed.bind fun result => (follows result).framed, fun context => ?_⟩
  rcases truncates.agrees context with same | ⟨last, halted⟩
  · cases ran : first context with
    | error halt last => exact .inl ((bind_of_error ran).trans (bind_of_error (same ▸ ran)).symm)
    | ok result middle =>
        rw [bind_of_ok ran, bind_of_ok (same ▸ ran)]
        exact (follows result).agrees middle
  · exact .inr ⟨last, bind_of_error halted⟩

theorem inScope {action action' : Eval α} (truncates : Truncates cut action action') :
    Truncates cut (inScope action) (inScope action') := by
  refine ⟨truncates.framed.inScope, fun context => ?_⟩
  rcases truncates.agrees context.push with same | ⟨last, halted⟩
  · refine .inl ?_
    simp only [Eval.inScope, same]
  · exact .inr ⟨context, inScope_of_error truncates.framed halted⟩

end Truncates

theorem truncates_simulation (cut : Halt) : Simulation (Truncates cut) where
  value result := .refl (framed_simulation.value result)
  halt halt := .refl (framed_simulation.halt halt)
  chain := Truncates.bind
  lookupValue name := .refl (framed_simulation.lookupValue name)
  lookupRoutine name := .refl (framed_simulation.lookupRoutine name)
  setVariable name value := .refl (framed_simulation.setVariable name value)
  setRoutine routine := .refl (framed_simulation.setRoutine routine)
  inScope := Truncates.inScope

/-- **A limit only cuts off.** Evaluation within a limit does what evaluation within a larger one
does, or it is nested too deeply. -/
theorem tree_truncates (bound depth more : Nat) (root : Tree) :
    Truncates .tooDeep (tree bound depth root) (tree bound (depth + more) root) :=
  (truncates_simulation .tooDeep).tree_deeper (Truncates.halted .tooDeep) bound depth more root

theorem sequence_truncates (bound depth more : Nat) (value : Value) (trees : List Tree) :
    Truncates .tooDeep (sequence (tree bound depth) value trees)
      (sequence (tree bound (depth + more)) value trees) :=
  (truncates_simulation .tooDeep).sequence (tree_truncates bound depth more) value trees

/-- Evaluation with a bound on the rounds of loops does what evaluation with a larger one does, or
it is unfinished. -/
theorem tree_truncates_rounds (bound more depth : Nat) (root : Tree) :
    Truncates .unfinished (tree bound depth root) (tree (bound + more) depth root) :=
  (truncates_simulation .unfinished).tree_longer (Truncates.halted .unfinished) bound more depth
    root

end Eval

end BraceLang
