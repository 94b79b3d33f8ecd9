import Mathlib.Data.List.Basic
import BraceLang.Context
import BraceLang.Proofs.Effect

/-!
# Contexts as two parallel stacks

A context can be kept as two stacks, one of the tables of variables and one of the tables of
functions. Nothing in the type of such a pair (`Stacks`) says that the stacks are equally high, or
that there is a table at all: an operation that misses a table fails, after it may have changed the
other stack already.

The stack of scopes of a context gives two stacks of the same height (`Stacks.ofContext`). Every
operation does to these what its counterpart does to the context, and fails only where that fails
(`pop_ofContext`, `setVariable_ofContext`, `setRoutine_ofContext`). So two stacks that are made by
such operations are equally high, and no table is ever missing.
-/

set_option autoImplicit false

namespace BraceLang

/-- The tables of variables and those of functions, the innermost one first. -/
structure Stacks where
  values : List (Table Value)
  routines : List (Table Routine)
  deriving DecidableEq, Repr

namespace Stacks

/-- What can go wrong with two stacks. -/
inductive Fault where
  /-- The global scope cannot be left. -/
  | globalScope
  /-- There is no table in a stack. -/
  | noTable
  deriving DecidableEq, Repr

/-! ## Operations -/

/-- An empty table on each stack. -/
def push (pair : Stacks) : Stacks :=
  ⟨.empty :: pair.values, .empty :: pair.routines⟩

/-- The stacks of the global scope alone. -/
def fresh : Stacks :=
  push ⟨[], []⟩

/-- Changes the stack of variables by its innermost table and the others. -/
def onValues (change : Table Value → List (Table Value) → List (Table Value)) :
    EStateM Fault Stacks PUnit := fun pair =>
  match pair.values with
  | [] => .error .noTable pair
  | table :: tables => .ok ⟨⟩ { pair with values := change table tables }

/-- Changes the stack of functions by its innermost table and the others. -/
def onRoutines (change : Table Routine → List (Table Routine) → List (Table Routine)) :
    EStateM Fault Stacks PUnit := fun pair =>
  match pair.routines with
  | [] => .error .noTable pair
  | table :: tables => .ok ⟨⟩ { pair with routines := change table tables }

/-- Takes one table off each stack. Only the height of the first stack is looked at before. -/
def pop : EStateM Fault Stacks PUnit := do
  if (← get).values.length ≤ 1 then throw .globalScope
  onValues fun _ tables => tables
  onRoutines fun _ tables => tables

/-- Binds a variable in the innermost table. -/
def setVariable (name : String) (value : Value) : EStateM Fault Stacks PUnit :=
  onValues fun table tables => table.assign name value :: tables

/-- Binds a function in the innermost table. -/
def setRoutine (routine : Routine) : EStateM Fault Stacks PUnit :=
  onRoutines fun table tables => table.assign routine.name routine :: tables

/-- The value of a variable in the innermost table that binds it. -/
def value? (pair : Stacks) (name : String) : Option Value :=
  pair.values.findSome? fun table => table.find? name

/-- The function of a name in the innermost table that binds it. -/
def routine? (pair : Stacks) (name : String) : Option Routine :=
  pair.routines.findSome? fun table => table.find? name

/-- All bindings, from the outermost tables on, as long as there is one on both stacks. -/
def listing (pair : Stacks) : String :=
  "\n".intercalate ((pair.values.reverse.zip pair.routines.reverse).zipIdx.flatMap
    fun ((values, routines), level) =>
      ("scope " ++ toString level ++ ":") :: Scope.lines ⟨values, routines⟩)

/-! ## The stacks of a context -/

/-- The stack of scopes, taken apart. -/
def ofContext (context : Context) : Stacks :=
  ⟨context.scopes.map Scope.values, context.scopes.map Scope.routines⟩

theorem length_values_ofContext (context : Context) :
    (ofContext context).values.length = context.depth :=
  List.length_map _

theorem length_routines_ofContext (context : Context) :
    (ofContext context).routines.length = context.depth :=
  List.length_map _

theorem ofContext_fresh : ofContext .fresh = fresh :=
  rfl

theorem push_ofContext (context : Context) :
    (ofContext context).push = ofContext context.push :=
  rfl

/-- Leaving a scope takes a table off each stack, or fails and changes neither. -/
theorem pop_ofContext (context : Context) :
    pop (ofContext context) =
      match context.pop? with
      | some restored => .ok ⟨⟩ (ofContext restored)
      | none => .error .globalScope (ofContext context) := by
  obtain ⟨inner, outer⟩ := context
  cases outer <;> rfl

theorem setVariable_ofContext (name : String) (value : Value) (context : Context) :
    setVariable name value (ofContext context) =
      .ok ⟨⟩ (ofContext (context.setVariable name value)) :=
  rfl

theorem setRoutine_ofContext (routine : Routine) (context : Context) :
    setRoutine routine (ofContext context) = .ok ⟨⟩ (ofContext (context.setRoutine routine)) :=
  rfl

theorem value?_ofContext (context : Context) (name : String) :
    (ofContext context).value? name = context.value? name :=
  List.findSome?_map

theorem routine?_ofContext (context : Context) (name : String) :
    (ofContext context).routine? name = context.routine? name :=
  List.findSome?_map

/-- A listing goes through the scopes with their levels. -/
theorem listingFrom_eq_flatMap (level : Nat) (scopes : List Scope) :
    Context.listingFrom level scopes =
      (scopes.zipIdx level).flatMap fun (scope, level) =>
        ("scope " ++ toString level ++ ":") :: scope.lines := by
  induction scopes generalizing level with
  | nil => rfl
  | cons scope scopes ih => rw [Context.listingFrom, ih, List.zipIdx_cons, List.flatMap_cons]

/-- Put together again, the tables at one level are those of one scope. -/
theorem listing_ofContext (context : Context) :
    (ofContext context).listing = context.listing := by
  rw [listing, Context.listing, listingFrom_eq_flatMap]
  refine congrArg _ ?_
  rw [ofContext, ← List.map_reverse, ← List.map_reverse, List.zip_map', List.zipIdx_map,
    List.flatMap_map]
  rfl

end Stacks

end BraceLang
