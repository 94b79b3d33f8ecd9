import BraceLang.Tree
import BraceLang.Value

/-!
# Contexts

A context is a stack of scopes, and a scope binds names to values and, independently, names to
functions. A name is looked up from the innermost scope outwards, and it is always bound in the
innermost scope: a binding further out is hidden, never changed.

The stack is never empty by its type: the innermost scope is a field, so leaving a scope
(`Context.pop?`) is possible exactly if there is another one around it. Tables keep the order in
which names were first bound, because listings show it.
-/

set_option autoImplicit false

namespace BraceLang

/-! ## Tables -/

/-- Bindings of names, in the order in which the names were first bound. -/
structure Table (α : Type) where
  entries : List (String × α)
  deriving DecidableEq, Repr

namespace Table

variable {α : Type}

/-- The table without bindings. -/
def empty : Table α :=
  ⟨[]⟩

/-- Entries after binding a name: in its old place if it has one, else at the end. -/
def assignIn (name : String) (value : α) : List (String × α) → List (String × α)
  | [] => [(name, value)]
  | (key, old) :: entries =>
    if key = name then (key, value) :: entries else (key, old) :: assignIn name value entries

/-- Binds a name. -/
def assign (table : Table α) (name : String) (value : α) : Table α :=
  ⟨assignIn name value table.entries⟩

/-- What a name is bound to. -/
def find? (table : Table α) (name : String) : Option α :=
  table.entries.lookup name

/-- The bound names, in order of first binding. -/
def names (table : Table α) : List String :=
  table.entries.map Prod.fst

/-- A name is found bound to what it was bound to last, and no other name is affected. -/
theorem find?_assign (table : Table α) (name query : String) (value : α) :
    (table.assign name value).find? query
      = if query = name then some value else table.find? query := by
  obtain ⟨entries⟩ := table
  simp only [find?, assign]
  induction entries with
  | nil => by_cases same : query = name <;> simp [assignIn, List.lookup_cons, same, beq_false_of_ne]
  | cons entry entries ih =>
    obtain ⟨key, old⟩ := entry
    by_cases bound : key = name
    · by_cases same : query = name <;>
        simp [assignIn, List.lookup_cons, bound, same, beq_false_of_ne]
    · by_cases hit : query = key
      · subst hit
        simp [assignIn, bound]
      · simp [assignIn, List.lookup_cons, bound, hit, beq_false_of_ne, ih]

/-- Binding a name keeps the order of the names, and puts a new one at the end. -/
theorem names_assign (table : Table α) (name : String) (value : α) :
    (table.assign name value).names
      = if name ∈ table.names then table.names else table.names ++ [name] := by
  obtain ⟨entries⟩ := table
  simp only [names, assign]
  induction entries with
  | nil => simp [assignIn]
  | cons entry entries ih =>
    obtain ⟨key, old⟩ := entry
    by_cases bound : key = name
    · simp [assignIn, bound]
    · have other : ¬name = key := fun same => bound same.symm
      by_cases known : name ∈ entries.map Prod.fst <;> simp_all [assignIn]

end Table

/-! ## Scopes -/

/-- A function: its name, its parameters and the block to run. -/
structure Routine where
  name : String
  parameters : List String
  body : Tree
  deriving DecidableEq, Repr

/-- A function on one line of a listing. -/
def Routine.listing (routine : Routine) : String :=
  let parameters :=
    if routine.parameters.isEmpty then "nullary" else ", ".intercalate routine.parameters
  "<fn " ++ routine.name ++ " params=" ++ parameters ++ ">"

/-- The variables and the functions of one scope. -/
structure Scope where
  values : Table Value
  routines : Table Routine
  deriving DecidableEq, Repr

namespace Scope

/-- The scope without bindings. -/
def empty : Scope :=
  ⟨.empty, .empty⟩

/-- The bindings of a scope, one a line: variables first, then functions. -/
def lines (scope : Scope) : List String :=
  scope.values.entries.map (fun entry => "  " ++ entry.1 ++ " = " ++ entry.2.render)
    ++ scope.routines.entries.map fun entry => "  " ++ entry.2.listing

end Scope

/-! ## Contexts -/

/-- A stack of scopes: the innermost one, and those around it from the inside out. -/
structure Context where
  innermost : Scope
  enclosing : List Scope
  deriving DecidableEq, Repr

namespace Context

/-- The context with an empty global scope. -/
def fresh : Context :=
  ⟨.empty, []⟩

/-- All scopes, from the inside out. -/
def scopes (context : Context) : List Scope :=
  context.innermost :: context.enclosing

/-- The number of scopes. -/
def depth (context : Context) : Nat :=
  context.scopes.length

/-- Opens an empty scope. -/
def push (context : Context) : Context :=
  ⟨.empty, context.scopes⟩

/-- Leaves the innermost scope, unless it is the global one. -/
def pop? (context : Context) : Option Context :=
  match context.enclosing with
  | [] => none
  | scope :: enclosing => some ⟨scope, enclosing⟩

/-- Leaving a scope that was just opened changes nothing. -/
theorem pop?_push (context : Context) : context.push.pop? = some context :=
  rfl

/-- Binds a variable in the innermost scope. -/
def setVariable (context : Context) (name : String) (value : Value) : Context :=
  { context with
    innermost := { context.innermost with
      values := context.innermost.values.assign name value } }

/-- The value of a variable in the innermost scope that binds it. -/
def value? (context : Context) (name : String) : Option Value :=
  context.scopes.findSome? fun scope => scope.values.find? name

/-- Binds a function in the innermost scope. -/
def setRoutine (context : Context) (routine : Routine) : Context :=
  { context with
    innermost := { context.innermost with
      routines := context.innermost.routines.assign routine.name routine } }

/-- The function of a name in the innermost scope that binds it. -/
def routine? (context : Context) (name : String) : Option Routine :=
  context.scopes.findSome? fun scope => scope.routines.find? name

/-- An empty scope hides no variable. -/
theorem value?_push (context : Context) (name : String) :
    context.push.value? name = context.value? name :=
  rfl

/-- An empty scope hides no function. -/
theorem routine?_push (context : Context) (name : String) :
    context.push.routine? name = context.routine? name :=
  rfl

/-- A variable has the value that it was bound to last, and no other variable is affected. -/
theorem value?_setVariable (context : Context) (name query : String) (value : Value) :
    (context.setVariable name value).value? query
      = if query = name then some value else context.value? query := by
  by_cases same : query = name <;>
    simp [value?, setVariable, scopes, List.findSome?_cons, Table.find?_assign, same]

/-- A function is what the name was bound to last, and no other function is affected. -/
theorem routine?_setRoutine (context : Context) (routine : Routine) (query : String) :
    (context.setRoutine routine).routine? query
      = if query = routine.name then some routine else context.routine? query := by
  by_cases same : query = routine.name <;>
    simp [routine?, setRoutine, scopes, List.findSome?_cons, Table.find?_assign, same]

/-- Binding a variable affects no function. -/
theorem routine?_setVariable (context : Context) (name query : String) (value : Value) :
    (context.setVariable name value).routine? query = context.routine? query :=
  rfl

/-- Binding a function affects no variable. -/
theorem value?_setRoutine (context : Context) (routine : Routine) (query : String) :
    (context.setRoutine routine).value? query = context.value? query :=
  rfl

/-- Binds names to values in the innermost scope, one after the other. -/
def setVariables (context : Context) : List (String × Value) → Context
  | [] => context
  | (name, value) :: rest => (context.setVariable name value).setVariables rest

/-! ## Listings -/

/-- The lines of a list of scopes that stand from a level on, the outermost first. -/
def listingFrom (level : Nat) : List Scope → List String
  | [] => []
  | scope :: scopes =>
    (("scope " ++ toString level ++ ":") :: scope.lines) ++ listingFrom (level + 1) scopes

/-- All bindings, from the outermost scope to the innermost. -/
def listing (context : Context) : String :=
  "\n".intercalate (listingFrom 0 context.scopes.reverse)

/-- A context on one line. -/
def summary (context : Context) : String :=
  "<Context depth=" ++ toString context.depth ++ ">"

end Context

end BraceLang
