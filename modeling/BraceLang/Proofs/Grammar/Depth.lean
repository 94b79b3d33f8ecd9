import BraceLang.Proofs.Grammar.Simulation

/-!
# Parsing within a larger limit

A parser that is not nested too deeply does not depend on the limit on its nesting: within a larger
one it gives the same tree or fails for the same reason, and it stops at the same place. `Curtails`
is this relation between parsers, and the rules of the parser keep it, because no rule looks at a
failure of a construct inside (`curtails_simulation`). So the tree of a token list, or the reason
why it has none, is the same within every larger limit (`parseWithin_eq_of_le`).
-/

set_option autoImplicit false

namespace BraceLang

namespace Grammar

open BraceLang.Parser Effect

variable {α β : Type}

/-- Outcomes within a limit and within a larger one: they are the same, or the first one is a
failure for its nesting. -/
inductive Curtailed (view : α → α) :
    EStateM.Result Failure Cursor α → EStateM.Result Failure Cursor α → Prop where
  | ok (result : α) (cursor : Cursor) :
      Curtailed view (.ok result cursor) (.ok (view result) cursor)
  | error (failure : Failure) (cursor : Cursor) :
      Curtailed view (.error failure cursor) (.error failure cursor)
  | tooDeep (token : Token) (cursor : Cursor) (other : EStateM.Result Failure Cursor α) :
      Curtailed view (.error (.tooDeep token) cursor) other

/-- The first parser does what the second one does, or it is nested too deeply. -/
def Curtails (view : α → α) (parser parser' : Parser α) : Prop :=
  ∀ cursor, Curtailed view (parser cursor) (parser' cursor)

namespace Curtails

theorem fail (view : α → α) (failure : Failure) :
    Curtails view (throw failure) (throw (failure.relocate id)) := by
  intro cursor
  rw [Failure.relocate_id]
  exact .error failure cursor

theorem chain {view : α → α} {view' : β → β} {first first' : Parser α}
    {next next' : α → Parser β} (one : Curtails view first first')
    (other : ∀ result, Curtails view' (next result) (next' (view result))) :
    Curtails view' (first >>= next) (first' >>= next') := by
  intro cursor
  have curtailed := one cursor
  generalize ran : first cursor = outcome at curtailed
  generalize ran' : first' cursor = outcome' at curtailed
  cases curtailed with
  | ok result middle =>
      rw [bind_of_ok ran, bind_of_ok ran']
      exact other result middle
  | error failure last =>
      rw [bind_of_error ran, bind_of_error ran']
      exact .error failure last
  | tooDeep token last _ =>
      rw [bind_of_error ran]
      exact .tooDeep token last _

theorem lookahead {view : α → α} (kind : Kind) {chosen chosen' plain plain' : Parser α}
    {other other' : Kind → Parser α} (_ : Takes chosen) (_ : Takes plain)
    (one : Curtails view chosen chosen') (two : Curtails view plain plain')
    (others : ∀ found, Curtails view (other found) (other' found)) :
    Curtails view (lookahead kind chosen plain other)
      (lookahead kind chosen' plain' other') := by
  intro cursor
  rw [lookahead_apply, lookahead_apply]
  split
  · split
    · exact one cursor
    · exact two cursor
  · exact others _ cursor

end Curtails

/-- **No rule of the parser looks at the limit.** -/
theorem curtails_simulation :
    Simulation id fun view parser parser' => Curtails view parser parser' where
  value _ result cursor := .ok result cursor
  fail view failure _ := Curtails.fail view failure
  giveUp _ cursor := .tooDeep cursor.current cursor _
  chain := Curtails.chain
  peek cursor := .ok cursor.current cursor
  advance cursor := .ok cursor.current cursor.advance
  bounded _ _ each cursor := each cursor.remaining cursor
  lookahead kind := Curtails.lookahead kind

/-- The parser of a program within a limit and within a larger one. -/
theorem program_curtails (depth more : Nat) :
    Curtails (Tree.relocate id) (program depth) (program (depth + more)) := by
  refine curtails_simulation.program_of_statement rfl ?_
  exact curtails_simulation.nested_deeper (fun _ cursor => .tooDeep cursor.current cursor _)
    depth more .statement

/-- **A limit on the nesting of constructs only cuts off.** A token list that is not nested too
deeply has the same tree within every larger limit, or it is refused for the same reason. -/
theorem parseWithin_eq_of_le {low high : Nat} (order : low ≤ high) {tokens : List Token}
    (shallow : ∀ token, parseWithin low tokens ≠ .error (.tooDeep token)) :
    parseWithin high tokens = parseWithin low tokens := by
  obtain ⟨more, rfl⟩ := Nat.exists_eq_add_of_le order
  cases placed : Cursor.ofTokens? tokens with
  | none => rw [parseWithin, parseWithin, placed]
  | some cursor =>
      simp only [parseWithin, placed] at shallow ⊢
      have curtailed := program_curtails low more cursor
      generalize program low cursor = outcome at curtailed shallow ⊢
      generalize program (low + more) cursor = outcome' at curtailed ⊢
      cases curtailed with
      | ok root last => exact congrArg Except.ok root.relocate_id
      | error failure last => rfl
      | tooDeep token last _ => exact absurd rfl (shallow token)

end Grammar

end BraceLang
