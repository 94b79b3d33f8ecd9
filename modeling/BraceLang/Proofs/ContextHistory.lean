import Mathlib.Data.List.Basic
import BraceLang.Eval.Rules
import BraceLang.Proofs.ParallelStacks

/-!
# Contexts and the operations performed on them

A history lists the operations that were performed on a fresh context, the latest one first;
operations that failed are in it as well. It tells everything about the context that they leave
(`contextAfter`), without any table of bindings.

A scope is named by the length of the history at which it was opened, so a scope that is left and
one that is opened later are never confused. From the history follow the scopes that are still open
(`openScopes`) and the operations that were made in a scope while it was the innermost one
(`madeIn`). Lookups and listings of the context are read off these: the latest binding in the
innermost open scope that has one, and for every open scope its names in the order of their first
bindings, each with its latest binding.

The invariant that carries all of this is `scopes_contextAfter`: the scopes of the context are the
open scopes of the history, each with the tables of the bindings made in it. Where the tables of
variables and of functions are kept on two stacks, the same operations keep these in step with the
context (`stacksAfter_eq`).
-/

set_option autoImplicit false

namespace BraceLang

/-! ## Tables of bindings -/

namespace Table

variable {α : Type}

/-- The table of some bindings, the latest one first. -/
def ofBindings (bindings : List (String × α)) : Table α :=
  bindings.foldr (fun binding table => table.assign binding.1 binding.2) .empty

theorem ofBindings_cons (binding : String × α) (bindings : List (String × α)) :
    ofBindings (binding :: bindings) = (ofBindings bindings).assign binding.1 binding.2 :=
  rfl

/-- The names of some bindings, the latest one first, in the order of their first bindings. -/
def firstBound (bindings : List (String × α)) : List String :=
  (bindings.reverse.map Prod.fst).eraseDups

/-- Bindings, the latest one first, written out one name a line. -/
def bindingLines (line : String → α → String) (bindings : List (String × α)) : List String :=
  (firstBound bindings).filterMap fun name => (bindings.lookup name).map (line name)

/-- A name is bound to what it was bound to last. -/
theorem find?_ofBindings (bindings : List (String × α)) (name : String) :
    (ofBindings bindings).find? name = bindings.lookup name := by
  induction bindings with
  | nil => rfl
  | cons binding bindings ih =>
      obtain ⟨key, bound⟩ := binding
      rw [ofBindings_cons, find?_assign, ih, List.lookup_cons]
      by_cases same : name = key <;> simp [same, beq_false_of_ne]

theorem firstBound_cons (name : String) (bound : α) (bindings : List (String × α)) :
    firstBound ((name, bound) :: bindings) =
      if name ∈ firstBound bindings then firstBound bindings
      else firstBound bindings ++ [name] := by
  unfold firstBound
  rw [List.reverse_cons, List.map_append, List.eraseDups_append]
  generalize bindings.reverse.map Prod.fst = names
  simp only [List.map_cons, List.map_nil, List.removeAll, List.mem_eraseDups]
  by_cases known : name ∈ names
  · simp [known]
  · simp [known, List.eraseDups_cons]

/-- The names of a table stand in the order of their first bindings. -/
theorem names_ofBindings (bindings : List (String × α)) :
    (ofBindings bindings).names = firstBound bindings := by
  induction bindings with
  | nil => rfl
  | cons binding bindings ih =>
      obtain ⟨name, bound⟩ := binding
      rw [ofBindings_cons, names_assign, ih, firstBound_cons]

theorem distinct_names_ofBindings (bindings : List (String × α)) :
    (ofBindings bindings).names.Nodup := by
  induction bindings with
  | nil => exact List.nodup_nil
  | cons binding bindings ih =>
      rw [ofBindings_cons, names_assign]
      split
      · exact ih
      · next unknown => exact List.nodup_append.mpr ⟨ih, by simp, by grind⟩

/-- A table without repeated names is given by its names and by what each of them is bound to. -/
theorem entries_eq_of_nodup {entries : List (String × α)}
    (distinct : (entries.map Prod.fst).Nodup) :
    (entries.map Prod.fst).filterMap (fun name => (entries.lookup name).map (name, ·)) =
      entries := by
  induction entries with
  | nil => rfl
  | cons entry entries ih =>
      obtain ⟨key, bound⟩ := entry
      obtain ⟨unknown, distinct⟩ := List.nodup_cons.mp distinct
      rw [List.map_cons, List.filterMap_cons_some (by rw [List.lookup_cons_self]; rfl)]
      refine congrArg ((key, bound) :: ·) (Eq.trans (List.filterMap_congr ?_) (ih distinct))
      intro name member
      have other : name ≠ key := fun same => unknown (same ▸ member)
      rw [List.lookup_cons, beq_false_of_ne other]

/-- The lines of a table, from its bindings. -/
theorem map_entries_ofBindings (line : String → α → String) (bindings : List (String × α)) :
    (ofBindings bindings).entries.map (fun entry => line entry.1 entry.2) =
      bindingLines line bindings := by
  have entries := entries_eq_of_nodup (distinct_names_ofBindings bindings)
  have found (name : String) : (ofBindings bindings).entries.lookup name = bindings.lookup name :=
    find?_ofBindings bindings name
  have names : (ofBindings bindings).entries.map Prod.fst = firstBound bindings :=
    names_ofBindings bindings
  simp only [found, names] at entries
  rw [← entries, List.map_filterMap, bindingLines]
  simp only [Option.map_map, Function.comp_def]

end Table

/-! ## Histories -/

namespace History

open Effect

/-- What can be done to a context. -/
inductive Operation where
  | push
  | pop
  | setVariable (name : String) (value : Value)
  | setRoutine (routine : Routine)
  deriving DecidableEq, Repr

namespace Operation

/-- An operation as an action. Only leaving a scope can fail. -/
def action : Operation → Eval PUnit
  | push => modify (·.push)
  | pop => fun context =>
    match context.pop? with
    | some restored => .ok ⟨⟩ restored
    | none => .error .scopeUnderflow context
  | setVariable name value => modify (·.setVariable name value)
  | setRoutine routine => modify (·.setRoutine routine)

/-- An operation as an action on two stacks of tables. -/
def onStacks : Operation → EStateM Stacks.Fault Stacks PUnit
  | push => modify (·.push)
  | pop => Stacks.pop
  | setVariable name value => Stacks.setVariable name value
  | setRoutine routine => Stacks.setRoutine routine

/-- The variable that an operation binds, with its value. -/
def valueBinding : Operation → Option (String × Value)
  | setVariable name value => some (name, value)
  | _ => none

/-- The name of the function that an operation binds, with the function. -/
def routineBinding : Operation → Option (String × Routine)
  | setRoutine routine => some (routine.name, routine)
  | _ => none

end Operation

/-- The context after a history. An operation that fails is followed by the next one. -/
def contextAfter : List Operation → Context
  | [] => .fresh
  | operation :: earlier => after operation.action (contextAfter earlier)

/-- The two stacks after a history. -/
def stacksAfter : List Operation → Stacks
  | [] => .fresh
  | operation :: earlier => after operation.onStacks (stacksAfter earlier)

/-- The scopes that are open after a history, from the inside out. A scope is named by the length
of the history that ends with its opening; the global scope has always been open. -/
def openScopes : List Operation → List Nat
  | [] => [0]
  | .push :: earlier => (earlier.length + 1) :: openScopes earlier
  | .pop :: earlier =>
    match openScopes earlier with
    | _ :: scope :: scopes => scope :: scopes
    | scopes => scopes
  | .setVariable _ _ :: earlier | .setRoutine _ :: earlier => openScopes earlier

/-- The operations that were made while a scope was the innermost one, the latest one first. -/
def madeIn (scope : Nat) : List Operation → List Operation
  | [] => []
  | operation :: earlier =>
    if (openScopes earlier).head? = some scope then operation :: madeIn scope earlier
    else madeIn scope earlier

/-- The bindings of variables in a scope, the latest one first. -/
def valuesIn (history : List Operation) (scope : Nat) : List (String × Value) :=
  (madeIn scope history).filterMap Operation.valueBinding

/-- The bindings of functions in a scope, the latest one first. -/
def routinesIn (history : List Operation) (scope : Nat) : List (String × Routine) :=
  (madeIn scope history).filterMap Operation.routineBinding

/-- The line of a listing for a variable. -/
def valueLine (name : String) (value : Value) : String :=
  "  " ++ name ++ " = " ++ value.render

/-- The line of a listing for a function, which shows the name that the function has. -/
def routineLine (_ : String) (routine : Routine) : String :=
  "  " ++ routine.listing

/-- The lines of the listing that tell of a scope which stands at a level. -/
def scopeLines (history : List Operation) (level scope : Nat) : List String :=
  ("scope " ++ toString level ++ ":") ::
    (Table.bindingLines valueLine (valuesIn history scope) ++
      Table.bindingLines routineLine (routinesIn history scope))

/-! ## The scopes of a context -/

theorem openScopes_ne_nil (history : List Operation) : openScopes history ≠ [] := by
  induction history with
  | nil => exact List.cons_ne_nil _ _
  | cons operation earlier ih =>
      cases operation with
      | push => exact List.cons_ne_nil _ _
      | pop =>
          unfold openScopes
          split
          · exact List.cons_ne_nil _ _
          · exact ih
      | setVariable | setRoutine => exact ih

/-- Leaving a scope leaves a part of the open scopes. -/
theorem openScopes_pop_suffix (earlier : List Operation) :
    openScopes (.pop :: earlier) <:+ openScopes earlier := by
  rw [openScopes]
  split
  · next same => exact same ▸ List.suffix_cons _ _
  · exact List.suffix_refl _

/-- Scopes are named by lengths of the history. -/
theorem le_length_of_mem {history : List Operation} {scope : Nat}
    (opened : scope ∈ openScopes history) : scope ≤ history.length := by
  induction history with
  | nil => exact Nat.le_of_eq (List.mem_singleton.mp opened)
  | cons operation earlier ih =>
      rw [List.length_cons]
      cases operation with
      | push =>
          rcases List.mem_cons.mp opened with rfl | opened
          · exact Nat.le_refl _
          · exact Nat.le_succ_of_le (ih opened)
      | pop => exact Nat.le_succ_of_le (ih ((openScopes_pop_suffix earlier).subset opened))
      | setVariable | setRoutine => exact Nat.le_succ_of_le (ih opened)

/-- No scope is open twice: an inner scope was opened later. -/
theorem openScopes_decreasing (history : List Operation) :
    (openScopes history).Pairwise (· > ·) := by
  induction history with
  | nil => exact List.pairwise_singleton _ _
  | cons operation earlier ih =>
      cases operation with
      | push =>
          refine List.pairwise_cons.mpr ⟨fun scope opened => ?_, ih⟩
          exact Nat.lt_succ_of_le (le_length_of_mem opened)
      | pop => exact ih.sublist (openScopes_pop_suffix earlier).sublist
      | setVariable | setRoutine => exact ih

/-- Nothing was made in a scope that was never opened. -/
theorem madeIn_eq_nil {history : List Operation} {scope : Nat} (later : history.length < scope) :
    madeIn scope history = [] := by
  induction history with
  | nil => rfl
  | cons operation earlier ih =>
      rw [List.length_cons] at later
      have closed : (openScopes earlier).head? ≠ some scope := fun first =>
        absurd (le_length_of_mem (List.mem_of_head? first)) (by omega)
      rw [madeIn, if_neg closed, ih (by omega)]

/-- The scope with the bindings that were made in it. -/
def scopeOf (history : List Operation) (scope : Nat) : Scope :=
  ⟨.ofBindings (valuesIn history scope), .ofBindings (routinesIn history scope)⟩

/-- What an operation does to the innermost scope, if that stays open. -/
def Operation.bindIn (scope : Scope) : Operation → Scope
  | setVariable name value => { scope with values := scope.values.assign name value }
  | setRoutine routine => { scope with routines := scope.routines.assign routine.name routine }
  | _ => scope

/-- A scope that is not the innermost one is not affected. -/
theorem scopeOf_cons_of_ne {earlier : List Operation} {scope : Nat}
    (outer : (openScopes earlier).head? ≠ some scope) (operation : Operation) :
    scopeOf (operation :: earlier) scope = scopeOf earlier scope := by
  rw [scopeOf, valuesIn, routinesIn, madeIn, if_neg outer]
  rfl

/-- Bindings are made in the innermost scope. -/
theorem scopeOf_cons_of_head {earlier : List Operation} {scope : Nat}
    (inner : (openScopes earlier).head? = some scope) (operation : Operation) :
    scopeOf (operation :: earlier) scope = operation.bindIn (scopeOf earlier scope) := by
  rw [scopeOf, valuesIn, routinesIn, madeIn, if_pos inner]
  cases operation <;> rfl

/-- An operation changes at most the innermost one of the scopes that were open before it. -/
theorem map_scopeOf_cons {earlier : List Operation} {inner : Nat} {outer : List Nat}
    (opened : openScopes earlier = inner :: outer) (operation : Operation) :
    (openScopes earlier).map (scopeOf (operation :: earlier)) =
      operation.bindIn (scopeOf earlier inner) :: outer.map (scopeOf earlier) := by
  have first : (openScopes earlier).head? = some inner := by rw [opened, List.head?_cons]
  have decreasing := openScopes_decreasing earlier
  rw [opened] at decreasing
  have lower := (List.pairwise_cons.mp decreasing).1
  rw [opened, List.map_cons, scopeOf_cons_of_head first]
  refine congrArg (_ :: ·) (List.map_congr_left fun scope member => ?_)
  refine scopeOf_cons_of_ne (fun same => ?_) operation
  have equal : inner = scope := Option.some.inj (first.symm.trans same)
  exact absurd (lower scope member) (by omega)

/-- **The scopes of a context are the open scopes of its history.** -/
theorem scopes_contextAfter (history : List Operation) :
    (contextAfter history).scopes = (openScopes history).map (scopeOf history) := by
  induction history with
  | nil => rfl
  | cons operation earlier ih =>
      obtain ⟨inner, outer, opened⟩ := List.exists_cons_of_ne_nil (openScopes_ne_nil earlier)
      have kept := map_scopeOf_cons opened operation
      rw [opened, List.map_cons] at ih
      have context : contextAfter earlier = ⟨scopeOf earlier inner, outer.map (scopeOf earlier)⟩ :=
        congrArg₂ Context.mk (List.cons.inj ih).1 (List.cons.inj ih).2
      rw [contextAfter, context]
      cases operation with
      | push =>
          have opens : scopeOf (.push :: earlier) (earlier.length + 1) = .empty := by
            have outside : (openScopes earlier).head? ≠ some (earlier.length + 1) := fun first =>
              absurd (le_length_of_mem (List.mem_of_head? first)) (by omega)
            rw [scopeOf_cons_of_ne outside, scopeOf, valuesIn, routinesIn,
              madeIn_eq_nil (Nat.lt_succ_self _)]
            rfl
          rw [openScopes, List.map_cons, opens, kept]
          rfl
      | pop =>
          rw [openScopes, opened]
          cases outer with
          | nil =>
              rw [opened] at kept
              rw [kept]
              rfl
          | cons scope scopes =>
              rw [opened, List.map_cons] at kept
              rw [(List.cons.inj kept).2]
              rfl
      | setVariable | setRoutine =>
          rw [openScopes, kept]
          rfl

/-! ## Variables and functions apart -/

/-- What can be seen of the scopes after an operation depends on what could be seen before, if it
does so for a binding in one scope. -/
theorem map_scopes_after {β : Type} {view : Scope → β} {operation : Operation}
    (sees : ∀ scope scope', view scope = view scope' →
      view (operation.bindIn scope) = view (operation.bindIn scope'))
    {context context' : Context} (same : context.scopes.map view = context'.scopes.map view) :
    (after operation.action context).scopes.map view =
      (after operation.action context').scopes.map view := by
  obtain ⟨inner, outer⟩ := context
  obtain ⟨inner', outer'⟩ := context'
  obtain ⟨inners, outers⟩ := List.cons.inj same
  cases operation with
  | push => exact congrArg (view .empty :: ·) same
  | pop =>
      match outer, outer', outers with
      | [], [], _ => exact same
      | _ :: _, _ :: _, outers => exact outers
  | setVariable | setRoutine => exact congrArg₂ List.cons (sees inner inner' inners) outers

/-- Operations that bind what is not seen can be left out of a history. -/
theorem map_scopes_filter {β : Type} {view : Scope → β} {keep : Operation → Bool}
    (sees : ∀ operation scope scope', view scope = view scope' →
      view (Operation.bindIn scope operation) = view (Operation.bindIn scope' operation))
    (hidden : ∀ operation, keep operation = false → ∀ context : Context,
      (after operation.action context).scopes.map view = context.scopes.map view)
    (history : List Operation) :
    (contextAfter (history.filter keep)).scopes.map view =
      (contextAfter history).scopes.map view := by
  induction history with
  | nil => rfl
  | cons operation earlier ih =>
      cases kept : keep operation with
      | true =>
          rw [List.filter_cons_of_pos kept]
          exact map_scopes_after (sees operation) ih
      | false =>
          rw [List.filter_cons_of_neg (by simp [kept]), contextAfter, hidden operation kept, ih]

/-- What is found in the tables of one kind does not depend on operations that bind none of it. -/
theorem findSome?_filter {α : Type} (view : Scope → Table α) {keep : Operation → Bool}
    (sees : ∀ operation scope scope', view scope = view scope' →
      view (Operation.bindIn scope operation) = view (Operation.bindIn scope' operation))
    (hidden : ∀ operation, keep operation = false → ∀ context : Context,
      (after operation.action context).scopes.map view = context.scopes.map view)
    (history : List Operation) (name : String) :
    (contextAfter (history.filter keep)).scopes.findSome? (fun scope => (view scope).find? name) =
      (contextAfter history).scopes.findSome? (fun scope => (view scope).find? name) := by
  have seen := map_scopes_filter sees hidden history
  have found := congrArg (List.findSome? fun table : Table α => table.find? name) seen
  rwa [List.findSome?_map, List.findSome?_map] at found

/-- Bindings of functions do not affect variables. -/
theorem value?_filter (history : List Operation) (name : String) :
    (contextAfter (history.filter (·.routineBinding.isNone))).value? name =
      (contextAfter history).value? name := by
  refine findSome?_filter Scope.values (fun operation scope scope' same => ?_) ?_ history name
  · cases operation <;> simp [Operation.bindIn, same]
  · intro operation binds context
    cases operation with
    | setRoutine => rfl
    | push | pop | setVariable => cases binds

/-- Bindings of variables do not affect functions. -/
theorem routine?_filter (history : List Operation) (name : String) :
    (contextAfter (history.filter (·.valueBinding.isNone))).routine? name =
      (contextAfter history).routine? name := by
  refine findSome?_filter Scope.routines (fun operation scope scope' same => ?_) ?_ history name
  · cases operation <;> simp [Operation.bindIn, same]
  · intro operation binds context
    cases operation with
    | setVariable => rfl
    | push | pop | setRoutine => cases binds

/-! ## Depth, failures, lookups and listings -/

/-- An operation fails only if it is to leave the global scope, and then it changes nothing. -/
theorem action_eq_error_iff (operation : Operation) (context : Context) (halt : Eval.Halt)
    (last : Context) :
    operation.action context = .error halt last ↔
      operation = .pop ∧ context.depth = 1 ∧ halt = .scopeUnderflow ∧ last = context := by
  obtain ⟨inner, outer⟩ := context
  cases operation with
  | pop =>
      cases outer with
      | nil => simp [Operation.action, Context.pop?, Context.depth, Context.scopes, eq_comm]
      | cons => simp [Operation.action, Context.pop?, Context.depth, Context.scopes]
  | push | setVariable | setRoutine =>
      refine ⟨fun ran => ?_, fun ran => ?_⟩
      · cases ran
      · cases ran.1

theorem depth_contextAfter (history : List Operation) :
    (contextAfter history).depth = (openScopes history).length := by
  rw [Context.depth, scopes_contextAfter, List.length_map]

theorem value?_contextAfter (history : List Operation) (name : String) :
    (contextAfter history).value? name =
      (openScopes history).findSome? fun scope => (valuesIn history scope).lookup name := by
  rw [Context.value?, scopes_contextAfter, List.findSome?_map]
  exact congrArg (List.findSome? · _) (funext fun scope => Table.find?_ofBindings _ name)

theorem routine?_contextAfter (history : List Operation) (name : String) :
    (contextAfter history).routine? name =
      (openScopes history).findSome? fun scope => (routinesIn history scope).lookup name := by
  rw [Context.routine?, scopes_contextAfter, List.findSome?_map]
  exact congrArg (List.findSome? · _) (funext fun scope => Table.find?_ofBindings _ name)

theorem lines_scopeOf (history : List Operation) (level scope : Nat) :
    ("scope " ++ toString level ++ ":") :: (scopeOf history scope).lines =
      scopeLines history level scope := by
  rw [Scope.lines, scopeOf, scopeLines]
  refine congrArg (_ :: ·) (congrArg₂ (· ++ ·) ?_ ?_)
  · exact Table.map_entries_ofBindings valueLine _
  · exact Table.map_entries_ofBindings routineLine _

theorem listing_contextAfter (history : List Operation) :
    (contextAfter history).listing =
      "\n".intercalate ((openScopes history).reverse.zipIdx.flatMap fun (scope, level) =>
        scopeLines history level scope) := by
  simp only [← lines_scopeOf]
  rw [Context.listing, scopes_contextAfter, ← List.map_reverse, Stacks.listingFrom_eq_flatMap,
    List.zipIdx_map, List.flatMap_map]
  rfl

/-! ## Two stacks of tables -/

/-- One operation keeps the two stacks in step with the context. They fail together, for the same
reason. -/
theorem onStacks_ofContext (operation : Operation) (context : Context) :
    operation.onStacks (.ofContext context) =
      match operation.action context with
      | .ok _ last => .ok ⟨⟩ (.ofContext last)
      | .error _ last => .error .globalScope (.ofContext last) := by
  cases operation with
  | push => exact congrArg (EStateM.Result.ok PUnit.unit) (Stacks.push_ofContext context)
  | setVariable name value => exact Stacks.setVariable_ofContext name value context
  | setRoutine routine => exact Stacks.setRoutine_ofContext routine context
  | pop =>
      simp only [Operation.onStacks, Operation.action, Stacks.pop_ofContext]
      cases context.pop? <;> rfl

/-- **The two stacks after a history are those of the context after it.** -/
theorem stacksAfter_eq (history : List Operation) :
    stacksAfter history = .ofContext (contextAfter history) := by
  induction history with
  | nil => exact Stacks.ofContext_fresh.symm
  | cons operation earlier ih =>
      rw [stacksAfter, contextAfter, ih, after, after, onStacks_ofContext]
      cases operation.action (contextAfter earlier) <;> rfl

/-- An operation on the two stacks fails exactly if it is to leave the only scope, and then it
changes nothing. No table is ever missing. -/
theorem onStacks_eq_error_iff (operation : Operation) (context : Context) (fault : Stacks.Fault)
    (last : Stacks) :
    operation.onStacks (.ofContext context) = .error fault last ↔
      operation = .pop ∧ context.depth = 1 ∧ fault = .globalScope ∧ last = .ofContext context := by
  rw [onStacks_ofContext]
  cases ran : operation.action context with
  | ok result middle =>
      refine ⟨nofun, fun ⟨leaves, only, _⟩ => ?_⟩
      have fails := (action_eq_error_iff operation context _ _).mpr ⟨leaves, only, rfl, rfl⟩
      exact absurd (ran.symm.trans fails) nofun
  | error halt middle =>
      obtain ⟨leaves, only, _, rfl⟩ := (action_eq_error_iff operation context _ _).mp ran
      simp [leaves, only, eq_comm]

/-! ## The whole history -/

/-- **A context refines the history of the operations performed on it.** For every history, with
failing operations in it:

* the stack of tables of variables and the stack of tables of functions are equally high, with one
  table each for every open scope, and there is at least one of them;
* an operation fails exactly if it is to leave the only scope, and then it changes nothing;
* a variable has the value of its latest binding in the innermost open scope that has one, and a
  function likewise, and bindings of the other kind can be left out of the history;
* the listing shows the open scopes, the outermost first, each with its variables and then its
  functions, in the order of their first bindings in that scope and with the latest binding.

All of this holds of the two stacks that the operations make and of the context, whose scopes are
the tables of both stacks side by side. -/
theorem context_refines_history (history : List Operation) :
    let context := contextAfter history
    let pair := stacksAfter history
    (pair = .ofContext context ∧
      pair.values.length = (openScopes history).length ∧
      pair.routines.length = (openScopes history).length ∧
      context.depth = (openScopes history).length ∧ 1 ≤ context.depth) ∧
    (∀ operation : Operation,
      (∀ (halt : Eval.Halt) (last : Context), operation.action context = .error halt last ↔
        operation = .pop ∧ context.depth = 1 ∧ halt = .scopeUnderflow ∧ last = context) ∧
      ∀ (fault : Stacks.Fault) (last : Stacks), operation.onStacks pair = .error fault last ↔
        operation = .pop ∧ context.depth = 1 ∧ fault = .globalScope ∧ last = pair) ∧
    (∀ name, pair.value? name = context.value? name ∧ context.value? name =
        (openScopes history).findSome? (fun scope => (valuesIn history scope).lookup name) ∧
      (contextAfter (history.filter (·.routineBinding.isNone))).value? name =
        context.value? name) ∧
    (∀ name, pair.routine? name = context.routine? name ∧ context.routine? name =
        (openScopes history).findSome? (fun scope => (routinesIn history scope).lookup name) ∧
      (contextAfter (history.filter (·.valueBinding.isNone))).routine? name =
        context.routine? name) ∧
    pair.listing = context.listing ∧ context.listing =
      "\n".intercalate ((openScopes history).reverse.zipIdx.flatMap fun (scope, level) =>
        scopeLines history level scope) := by
  intro context pair
  have taken : pair = .ofContext context := stacksAfter_eq history
  have depth : context.depth = (openScopes history).length := depth_contextAfter history
  rw [taken]
  refine ⟨⟨rfl, ?_, ?_, depth, ?_⟩, fun operation => ⟨?_, ?_⟩, fun name => ?_, fun name => ?_, ?_⟩
  · rw [Stacks.length_values_ofContext, depth]
  · rw [Stacks.length_routines_ofContext, depth]
  · rw [depth]
    exact List.length_pos_of_ne_nil (openScopes_ne_nil history)
  · exact action_eq_error_iff operation context
  · exact onStacks_eq_error_iff operation context
  · exact ⟨Stacks.value?_ofContext context name, value?_contextAfter history name,
      value?_filter history name⟩
  · exact ⟨Stacks.routine?_ofContext context name, routine?_contextAfter history name,
      routine?_filter history name⟩
  · exact ⟨Stacks.listing_ofContext context, listing_contextAfter history⟩

/-- A history with two open scopes, bindings of every kind and one operation that fails. The scope
with `lost` is left, and both scopes that stay open bind `x`, the inner one twice. -/
def twoScopes : List Operation :=
  [.setVariable "x" .null, .setRoutine ⟨"twice", ["f", "x"], .block [] false 9⟩,
    .setVariable "done" (.bool false), .setVariable "x" (.bool true), .push,
    .pop, .setVariable "lost" (.integer 3), .push, .pop,
    .setVariable "name" (.string "hi"), .setRoutine ⟨"f", [], .block [] false 7⟩,
    .setVariable "x" (.integer (-12))]

/-- The listing after that history, and what is found. -/
theorem context_refines_history_twoScopes :
    (stacksAfter twoScopes).listing =
        "scope 0:\n  x = -12\n  name = \"hi\"\n  <fn f params=nullary>\n" ++
          "scope 1:\n  x = null\n  done = false\n  <fn twice params=f, x>" ∧
      (stacksAfter twoScopes).values.length = 2 ∧ (stacksAfter twoScopes).routines.length = 2 ∧
      (stacksAfter twoScopes).value? "x" = some .null ∧
      (stacksAfter twoScopes).routine? "lost" = none := by
  obtain ⟨⟨-, values, routines, -⟩, -, value, routine, listing, lines⟩ :=
    context_refines_history twoScopes
  refine ⟨listing.trans (lines.trans ?_), values.trans ?_, routines.trans ?_, ?_, ?_⟩
  · decide +kernel
  · decide
  · decide
  · exact ((value "x").1.trans (value "x").2.1).trans (by decide +kernel)
  · exact ((routine "lost").1.trans (routine "lost").2.1).trans (by decide +kernel)

end History

end BraceLang
