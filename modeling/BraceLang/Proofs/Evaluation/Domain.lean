import BraceLang.Proofs.Evaluation.Frame

/-!
# Domains of values

A property of values is kept by evaluation if literals and operators only give values with it, and
if the strings of the trees that are evaluated have it. `Domain value body` is this condition, where
the property `body` of trees passes to the trees below and holds of the bodies of all functions.

If all values and all functions that a context stores have these properties, in whatever scope they
are, then evaluation of a tree with the property gives a value with the property, and afterwards the
context stores such values and functions only, also if evaluation halts (`Domain.evaluation`).
-/

set_option autoImplicit false

namespace BraceLang

/-! ## What a context stores -/

/-- All values of a context and the bodies of all its functions have a property. -/
def Context.Stores (value : Value → Prop) (body : Tree → Prop) (context : Context) : Prop :=
  ∀ scope ∈ context.scopes,
    (∀ entry ∈ scope.values.entries, value entry.2) ∧
      ∀ entry ∈ scope.routines.entries, body entry.2.body

instance {value : Value → Prop} {body : Tree → Prop} [DecidablePred value] [DecidablePred body]
    (context : Context) : Decidable (context.Stores value body) :=
  inferInstanceAs (Decidable (∀ scope ∈ context.scopes, _ ∧ _))

/-- What is bound in a table was bound before, or it was bound just now. -/
theorem Table.of_mem_assign {α : Type} {table : Table α} {name : String} {new : α}
    {entry : String × α} (member : entry ∈ (table.assign name new).entries) :
    entry ∈ table.entries ∨ entry.2 = new := by
  obtain ⟨entries⟩ := table
  simp only [Table.assign] at member ⊢
  induction entries with
  | nil =>
      rw [Table.assignIn, List.mem_singleton] at member
      exact .inr (by rw [member])
  | cons first entries ih =>
      obtain ⟨key, old⟩ := first
      rw [Table.assignIn] at member
      split at member
      · rcases List.mem_cons.mp member with rfl | later
        · exact .inr rfl
        · exact .inl (List.mem_cons_of_mem _ later)
      · rcases List.mem_cons.mp member with rfl | later
        · exact .inl List.mem_cons_self
        · exact (ih later).imp_left (List.mem_cons_of_mem _)

/-- What a name is found bound to is stored in the table. -/
theorem Table.mem_of_find? {α : Type} {table : Table α} {name : String} {found : α}
    (lookup : table.find? name = some found) : (name, found) ∈ table.entries := by
  obtain ⟨entries⟩ := table
  simp only [Table.find?] at lookup
  induction entries with
  | nil => cases lookup
  | cons first entries ih =>
      obtain ⟨key, old⟩ := first
      rw [List.lookup_cons] at lookup
      split at lookup
      · next same =>
          obtain rfl : name = key := by simpa using same
          cases lookup
          exact List.mem_cons_self
      · exact List.mem_cons_of_mem _ (ih lookup)

namespace Context.Stores

variable {value : Value → Prop} {body : Tree → Prop} {context : Context}

theorem value? (stores : context.Stores value body) {name : String} {found : Value}
    (lookup : context.value? name = some found) : value found := by
  obtain ⟨scope, member, bound⟩ := List.exists_of_findSome?_eq_some lookup
  exact (stores scope member).1 _ (Table.mem_of_find? bound)

theorem routine? (stores : context.Stores value body) {name : String} {found : Routine}
    (lookup : context.routine? name = some found) : body found.body := by
  obtain ⟨scope, member, bound⟩ := List.exists_of_findSome?_eq_some lookup
  exact (stores scope member).2 _ (Table.mem_of_find? bound)

theorem push (stores : context.Stores value body) : context.push.Stores value body :=
  List.forall_mem_cons.mpr ⟨⟨fun _ => nofun, fun _ => nofun⟩, stores⟩

theorem setVariable (stores : context.Stores value body) (name : String) {new : Value}
    (holds : value new) : (context.setVariable name new).Stores value body := by
  obtain ⟨inner, outer⟩ := List.forall_mem_cons.mp stores
  refine List.forall_mem_cons.mpr ⟨⟨fun entry member => ?_, inner.2⟩, outer⟩
  rcases Table.of_mem_assign member with old | new
  · exact inner.1 entry old
  · exact new ▸ holds

theorem setRoutine (stores : context.Stores value body) {routine : Routine}
    (holds : body routine.body) : (context.setRoutine routine).Stores value body := by
  obtain ⟨inner, outer⟩ := List.forall_mem_cons.mp stores
  refine List.forall_mem_cons.mpr ⟨⟨inner.1, fun entry member => ?_⟩, outer⟩
  rcases Table.of_mem_assign member with old | new
  · exact inner.2 entry old
  · exact new ▸ holds

end Context.Stores

namespace Eval

open Effect

/-! ## Actions that stay in a domain -/

/-- If the context stores values and functions with some properties only, then so it does after the
action, and a result has the property `post`. -/
def Keeps {α : Type} (value : Value → Prop) (body : Tree → Prop) (action : Eval α)
    (post : α → Prop) : Prop :=
  ∀ context, context.Stores value body →
    (after action context).Stores value body ∧
      ∀ result last, action context = .ok result last → post result

namespace Keeps

variable {α β : Type} {value : Value → Prop} {body : Tree → Prop}

theorem pure {result : α} {post : α → Prop} (holds : post result) :
    Keeps value body (pure result) post := by
  refine fun context stores => ⟨stores, ?_⟩
  rintro _ _ ⟨⟩
  exact holds

theorem halt (halt : Halt) (post : α → Prop) : Keeps value body (throw halt) post :=
  fun _ stores => ⟨stores, nofun⟩

theorem bind {action : Eval α} {next : α → Eval β} {middle : α → Prop} {post : β → Prop}
    (first : Keeps value body action middle)
    (second : ∀ result, middle result → Keeps value body (next result) post) :
    Keeps value body (action >>= next) post := by
  intro context stores
  obtain ⟨kept, holds⟩ := first context stores
  cases ran : action context with
  | ok result last =>
      rw [after_of_ok ran] at kept
      rw [after, bind_of_ok ran]
      exact second result (holds result last ran) last kept
  | error halt last =>
      rw [after_of_error ran] at kept
      rw [after_of_error (bind_of_error ran), bind_of_error ran]
      refine ⟨kept, fun result final given => ?_⟩
      cases given

/-- In a scope of its own an action leaves the context as it was. -/
theorem inScope {action : Eval α} {post : α → Prop} (framed : Framed action)
    (keeps : Keeps value body action post) : Keeps value body (inScope action) post := by
  intro context stores
  rw [after_inScope framed]
  refine ⟨stores, fun result last ran => ?_⟩
  cases inside : action context.push with
  | ok value final =>
      rw [inScope_of_ok framed inside] at ran
      cases ran
      exact (keeps context.push stores.push).2 result final inside
  | error halt final =>
      rw [inScope_of_error framed inside] at ran
      cases ran

theorem located {computed : Except Fault α} {post : α → Prop} (offset : Int)
    (holds : ∀ result, computed = .ok result → post result) :
    Keeps value body (located offset computed) post := by
  cases computed with
  | ok result => exact pure (holds result rfl)
  | error fault => exact halt _ post

theorem read (name : String) (offset : Int) : Keeps value body (read name offset) value := by
  rw [read_eq]
  have lookup : Keeps value body (lookupValue name) fun found =>
      ∀ result, found = some result → value result := by
    refine fun context stores => ⟨stores, ?_⟩
    rintro _ _ ⟨⟩ result found
    exact stores.value? found
  refine lookup.bind fun found holds => ?_
  cases found with
  | some result => exact pure (holds result rfl)
  | none => exact halt _ value

/-- A nesting that is too deep is reported after evaluation, and nothing else changes. -/
theorem reporting {action : Eval α} {post : α → Prop} (keeps : Keeps value body action post)
    (offset : Int) : Keeps value body (reporting offset action) post := by
  intro context stores
  obtain ⟨kept, holds⟩ := keeps context stores
  rw [after_reporting]
  refine ⟨kept, fun result last ran => ?_⟩
  cases inside : action context with
  | ok found final =>
      rw [reporting_of_ok inside] at ran
      cases ran
      exact holds result last inside
  | error halt final =>
      rw [reporting_of_error inside] at ran
      cases ran

theorem lookupRoutine (name : String) :
    Keeps value body (lookupRoutine name) fun found =>
      ∀ routine, found = some routine → body routine.body := by
  refine fun context stores => ⟨stores, ?_⟩
  rintro _ _ ⟨⟩ routine found
  exact stores.routine? found

theorem setVariable (name : String) {new : Value} (holds : value new) :
    Keeps value body (modify (·.setVariable name new) : Eval PUnit) fun _ => True :=
  fun _ stores => ⟨stores.setVariable name holds, fun _ _ _ => trivial⟩

theorem setRoutine {routine : Routine} (holds : body routine.body) :
    Keeps value body (modify (·.setRoutine routine) : Eval PUnit) fun _ => True :=
  fun _ stores => ⟨stores.setRoutine holds, fun _ _ _ => trivial⟩

theorem setVariables {bindings : List (String × Value)}
    (holds : ∀ binding ∈ bindings, value binding.2) :
    Keeps value body (modify (·.setVariables bindings) : Eval PUnit) fun _ => True := by
  induction bindings with
  | nil =>
      rw [setVariables_nil]
      exact pure trivial
  | cons binding rest ih =>
      obtain ⟨name, new⟩ := binding
      obtain ⟨first, others⟩ := List.forall_mem_cons.mp holds
      rw [setVariables_cons]
      exact (setVariable name first).bind fun _ _ => ih others

section Rules

variable {inner : Tree → Eval Value} (framed : ∀ tree, Framed (inner tree))
  (inside : ∀ tree, body tree → Keeps value body (inner tree) value)
include inside

theorem sequence {trees : List Tree} (each : ∀ tree ∈ trees, body tree) {initial : Value}
    (holds : value initial) : Keeps value body (sequence inner initial trees) value := by
  induction trees generalizing initial with
  | nil => exact .pure holds
  | cons tree trees ih =>
      obtain ⟨first, others⟩ := List.forall_mem_cons.mp each
      exact (inside tree first).bind fun result holds => ih others holds

theorem values {trees : List Tree} (each : ∀ tree ∈ trees, body tree) :
    Keeps value body (values inner trees) fun results => ∀ result ∈ results, value result := by
  induction trees with
  | nil => exact .pure fun _ => nofun
  | cons tree trees ih =>
      obtain ⟨first, others⟩ := List.forall_mem_cons.mp each
      refine (inside tree first).bind fun result holds => ?_
      refine (ih others).bind fun results hold => ?_
      exact .pure (List.forall_mem_cons.mpr ⟨holds, hold⟩)

theorem test {question : Tree} (holds : body question) (label : String) :
    Keeps value body (test inner label question) fun _ => True :=
  (inside question holds).bind fun _ _ => .located _ fun _ _ => trivial

include framed

theorem apply {routine : Routine} (holds : body routine.body) {arguments : List Value}
    (each : ∀ argument ∈ arguments, value argument) (offset : Int) :
    Keeps value body (apply inner routine arguments offset) value := by
  unfold Eval.apply
  split
  · exact .halt _ value
  · refine .inScope ((setVariables_framed _).bind fun _ => framed routine.body) ?_
    refine (Keeps.setVariables fun binding member => ?_).bind fun _ _ => inside _ holds
    exact each _ (List.of_mem_zip member).2

end Rules

end Keeps

/-! ## Rules -/

/-- A property of values that literals, operators and the strings of some trees have. -/
structure Domain (value : Value → Prop) (body : Tree → Prop) : Prop where
  null : value .null
  literal {text : String} {result : Value} : literal text = .ok result → value result
  combine {text : String} {left right result : Value} :
    value left → value right → combine text left right = .ok result → value result
  string {root : Tree} : body root → root.kind = .string → value (.string root.text)
  child {root child : Tree} : body root → child ∈ root.children → body child

/-- The body of a function is a part of its definition. -/
theorem body_of_routineOf {root : Tree} {routine : Routine}
    (described : routineOf root = .ok routine) : routine.body ∈ root.children := by
  unfold routineOf at described
  split at described
  · cases described
  · next name rest children =>
      rw [children]
      split at described
      · cases described
      · next body last =>
          split at described
          · cases described
          split at described
          · cases described
          · cases named : parameterNames [] rest.dropLast with
            | error error =>
                rw [named] at described
                cases described
            | ok names =>
                rw [named] at described
                cases described
                exact List.mem_cons_of_mem _ (List.mem_of_getLast? last)

namespace Domain

variable {value : Value → Prop} {body : Tree → Prop} (domain : Domain value body)
include domain

theorem definition {root : Tree} (holds : body root) :
    Keeps value body (definition root) value := by
  unfold Eval.definition
  split
  · next routine described =>
      refine (Keeps.setRoutine ?_).bind fun _ _ => .pure domain.null
      exact domain.child holds (body_of_routineOf described)
  · exact .halt _ value

section Rules

variable {inner : Tree → Eval Value} (framed : ∀ tree, Framed (inner tree))
  (inside : ∀ tree, body tree → Keeps value body (inner tree) value)
include inside

theorem assignment {root : Tree} (holds : body root) :
    Keeps value body (assignment inner root) value := by
  unfold Eval.assignment
  split
  · next target source children =>
      have source : body source := domain.child holds (by simp [children])
      split
      · refine (inside _ source).bind fun result holds => ?_
        exact (Keeps.setVariable _ holds).bind fun _ _ => .pure domain.null
      · exact .halt _ value
  · exact .halt _ value

theorem operation {root : Tree} (holds : body root) :
    Keeps value body (operation inner root) value := by
  unfold Eval.operation
  split
  · next first second children =>
      have first : body first := domain.child holds (by simp [children])
      have second : body second := domain.child holds (by simp [children])
      refine (inside _ first).bind fun left holdsLeft => ?_
      refine (inside _ second).bind fun right holdsRight => ?_
      exact .located _ fun _ => domain.combine holdsLeft holdsRight
  · exact .halt _ value

theorem conditional {root : Tree} (holds : body root) :
    Keeps value body (conditional inner root) value := by
  unfold Eval.conditional
  split
  · next question positive children =>
      have question : body question := domain.child holds (by simp [children])
      have positive : body positive := domain.child holds (by simp [children])
      refine (Keeps.test inside question "if").bind fun truth _ => ?_
      cases truth with
      | true => exact inside _ positive
      | false => exact .pure domain.null
  · next question positive negative children =>
      have question : body question := domain.child holds (by simp [children])
      have positive : body positive := domain.child holds (by simp [children])
      have negative : body negative := domain.child holds (by simp [children])
      refine (Keeps.test inside question "if").bind fun truth _ => ?_
      cases truth with
      | true => exact inside _ positive
      | false => exact inside _ negative
  · exact .halt _ value

theorem rounds {question run : Tree} (asks : body question) (runs : body run) (bound : Nat) :
    Keeps value body (rounds inner question run bound) value := by
  induction bound with
  | zero => exact .halt _ value
  | succ bound ih =>
      refine (Keeps.test inside asks "while").bind fun truth _ => ?_
      cases truth with
      | true => exact (inside _ runs).bind fun _ _ => ih
      | false => exact .pure domain.null

theorem loop {root : Tree} (holds : body root) (bound : Nat) :
    Keeps value body (loop inner bound root) value := by
  unfold Eval.loop
  split
  · next question run children =>
      exact domain.rounds inside (domain.child holds (by simp [children]))
        (domain.child holds (by simp [children])) bound
  · exact .halt _ value

include framed

theorem block {root : Tree} (holds : body root) : Keeps value body (block inner root) value := by
  have run := Keeps.sequence inside (fun child member => domain.child holds member) domain.null
  unfold Eval.block
  split
  · exact .inScope (sequence_framed framed _ _) run
  · exact run

theorem call {root : Tree} (holds : body root) : Keeps value body (call inner root) value := by
  rw [call_eq]
  refine (Keeps.lookupRoutine root.text).bind fun found holdsBody => ?_
  cases found with
  | none => exact .halt _ value
  | some routine =>
      have arguments := Keeps.values inside fun child member => domain.child holds member
      refine arguments.bind fun results each => ?_
      exact Keeps.apply framed inside (holdsBody routine rfl) each root.offset

/-- Every rule stays in the domain, if evaluation of the nodes inside does. -/
theorem node {root : Tree} (holds : body root) (bound : Nat) :
    Keeps value body (node inner bound root) value := by
  unfold Eval.node
  split
  · exact .located _ fun _ => domain.literal
  · next isString => exact .pure (domain.string holds isString)
  · exact .read _ _
  · exact domain.call framed inside holds
  · exact domain.operation inside holds
  · exact domain.assignment inside holds
  · exact domain.conditional inside holds
  · exact domain.loop inside holds bound
  · exact domain.definition holds
  · exact domain.block framed inside holds
  · exact .halt _ value

end Rules

/-- Evaluation of a tree stays in the domain, whatever its bounds. -/
theorem tree (bound depth : Nat) {root : Tree} (holds : body root) :
    Keeps value body (tree bound depth root) value := by
  induction depth generalizing root with
  | zero => exact .halt _ value
  | succ depth ih => exact domain.node (tree_framed bound depth) (fun _ => ih) holds bound

theorem statements (bound depth : Nat) {root : Tree} (holds : body root) :
    Keeps value body (statements bound depth root) value := by
  unfold Eval.statements
  split
  · refine .reporting (Keeps.sequence (fun _ => domain.tree bound depth) ?_ domain.null) _
    exact fun child member => domain.child holds member
  · exact (domain.tree bound depth holds).reporting _

/-- **Evaluation stays in the domain.** This holds of a node inside a tree, of a whole tree and of
statements that are run in the current scope. -/
theorem evaluation (bound depth : Nat) {root : Tree} (holds : body root) :
    ∀ evaluation ∈ [Eval.tree bound depth root, whole bound depth root,
      Eval.statements bound depth root], Keeps value body evaluation value := by
  intro evaluation listed
  simp only [List.mem_cons, List.not_mem_nil, or_false] at listed
  rcases listed with rfl | rfl | rfl
  · exact domain.tree bound depth holds
  · exact (domain.tree bound depth holds).reporting _
  · exact domain.statements bound depth holds

end Domain

end Eval

end BraceLang
