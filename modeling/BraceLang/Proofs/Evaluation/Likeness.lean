import Mathlib.Data.List.Forall2
import BraceLang.Failure
import BraceLang.Proofs.Evaluation.Simulation
import BraceLang.Proofs.Effect

/-!
# Trees that evaluation cannot tell apart

Evaluation reads the kind, the text and the scope flag of a node and goes on with its children; the
offset of a node is only copied into errors. A `Likeness` is a relation between trees that keeps all
this, together with a relation between offsets.

Contexts are alike if they bind the same names in the same order, to equal values and to functions
with alike bodies. The theorem is that alike trees have alike meanings (`Likeness.tree`): in alike
contexts they give the same value or fail with the same fault, at related offsets, and they leave
alike contexts.
-/

set_option autoImplicit false

namespace BraceLang

/-- Reports that differ at most in the place. -/
def Diagnostic.Agrees (first second : Diagnostic) : Prop :=
  first.category = second.category ∧ first.message = second.message ∧
    first.missingName = second.missingName

/-- A relation between trees that agree in everything but their offsets, and a relation in which
their offsets are. -/
structure Likeness where
  trees : Tree → Tree → Prop
  offsets : Int → Int → Prop
  kind_eq {tree tree' : Tree} : trees tree tree' → tree.kind = tree'.kind
  text_eq {tree tree' : Tree} : trees tree tree' → tree.text = tree'.text
  opensScope_eq {tree tree' : Tree} : trees tree tree' → tree.opensScope = tree'.opensScope
  offset {tree tree' : Tree} : trees tree tree' → offsets tree.offset tree'.offset
  children {tree tree' : Tree} : trees tree tree' →
    List.Forall₂ trees tree.children tree'.children

namespace Likeness

variable (likeness : Likeness)

/-! ## Contexts -/

/-- Functions with the same name and parameters, and alike bodies. -/
structure Routines (routine routine' : Routine) : Prop where
  name : routine.name = routine'.name
  parameters : routine.parameters = routine'.parameters
  body : likeness.trees routine.body routine'.body

/-- Entries for the same name. -/
def Entries (entry entry' : String × Routine) : Prop :=
  entry.1 = entry'.1 ∧ likeness.Routines entry.2 entry'.2

/-- Scopes with the same variables and alike functions. -/
structure Scopes (scope scope' : Scope) : Prop where
  values : scope.values = scope'.values
  routines : List.Forall₂ likeness.Entries scope.routines.entries scope'.routines.entries

/-- Contexts with alike scopes. -/
def Contexts (context context' : Context) : Prop :=
  List.Forall₂ likeness.Scopes context.scopes context'.scopes

variable {likeness}

/-- The first results that are found in related lists are related. -/
theorem findSome?_rel {α β γ : Type} {items : α → α → Prop} {results : β → γ → Prop}
    {list list' : List α} (alike : List.Forall₂ items list list') {find : α → Option β}
    {find' : α → Option γ}
    (each : ∀ item item', items item item' → Option.Rel results (find item) (find' item')) :
    Option.Rel results (list.findSome? find) (list'.findSome? find') := by
  induction alike with
  | nil => exact .none
  | @cons item item' _ _ first _ ih =>
      have found := each item item' first
      rw [List.findSome?_cons, List.findSome?_cons]
      generalize find item = one at found
      generalize find' item' = other at found
      cases found with
      | none => exact ih
      | some related => exact .some related

namespace Contexts

variable {context context' : Context} (alike : likeness.Contexts context context')
include alike

theorem push : likeness.Contexts context.push context'.push :=
  .cons ⟨rfl, .nil⟩ alike

theorem innermost : likeness.Scopes context.innermost context'.innermost := by
  cases alike with
  | cons innermost _ => exact innermost

theorem enclosing : List.Forall₂ likeness.Scopes context.enclosing context'.enclosing := by
  cases alike with
  | cons _ enclosing => exact enclosing

theorem pop? : Option.Rel likeness.Contexts context.pop? context'.pop? := by
  obtain ⟨innermost, enclosing⟩ := context
  obtain ⟨innermost', enclosing'⟩ := context'
  cases alike.enclosing with
  | nil => exact .none
  | cons scope others => exact .some (.cons scope others)

theorem value? (name : String) :
    Option.Rel Eq (context.value? name) (context'.value? name) := by
  refine findSome?_rel alike fun scope scope' same => ?_
  rw [same.values]
  cases scope'.values.find? name with
  | none => exact .none
  | some value => exact .some rfl

theorem setVariable (name : String) (value : Value) :
    likeness.Contexts (context.setVariable name value) (context'.setVariable name value) := by
  have values := congrArg (Table.assign · name value) alike.innermost.values
  exact .cons ⟨values, alike.innermost.routines⟩ alike.enclosing

end Contexts

theorem entries_lookup {entries entries' : List (String × Routine)}
    (alike : List.Forall₂ likeness.Entries entries entries') (name : String) :
    Option.Rel likeness.Routines (entries.lookup name) (entries'.lookup name) := by
  induction alike with
  | nil => exact .none
  | @cons entry entry' _ _ first _ ih =>
      obtain ⟨key, routine⟩ := entry
      obtain ⟨key', routine'⟩ := entry'
      obtain ⟨rfl, routines⟩ := first
      rw [List.lookup_cons, List.lookup_cons]
      cases name == key with
      | true => exact .some routines
      | false => exact ih

theorem entries_assignIn {entries entries' : List (String × Routine)}
    (alike : List.Forall₂ likeness.Entries entries entries') {routine routine' : Routine}
    (routines : likeness.Routines routine routine') :
    List.Forall₂ likeness.Entries (Table.assignIn routine.name routine entries)
      (Table.assignIn routine'.name routine' entries') := by
  rw [← routines.name]
  induction alike with
  | nil => exact .cons ⟨rfl, routines⟩ .nil
  | @cons entry entry' _ _ first others ih =>
      obtain ⟨key, old⟩ := entry
      obtain ⟨key', old'⟩ := entry'
      obtain ⟨rfl, olds⟩ := first
      simp only [Table.assignIn]
      split
      · exact .cons ⟨rfl, routines⟩ others
      · exact .cons ⟨rfl, olds⟩ ih

namespace Contexts

variable {context context' : Context} (alike : likeness.Contexts context context')
include alike

theorem routine? (name : String) :
    Option.Rel likeness.Routines (context.routine? name) (context'.routine? name) :=
  findSome?_rel alike fun _ _ same => entries_lookup same.routines name

theorem setRoutine {routine routine' : Routine} (routines : likeness.Routines routine routine') :
    likeness.Contexts (context.setRoutine routine) (context'.setRoutine routine') := by
  have assigned := entries_assignIn alike.innermost.routines routines
  exact .cons ⟨alike.innermost.values, assigned⟩ alike.enclosing

end Contexts

/-! ## Listings -/

theorem Routines.listing_eq {routine routine' : Routine}
    (alike : likeness.Routines routine routine') : routine.listing = routine'.listing := by
  rw [Routine.listing, Routine.listing, alike.name, alike.parameters]

theorem Scopes.lines_eq {scope scope' : Scope} (alike : likeness.Scopes scope scope') :
    scope.lines = scope'.lines := by
  unfold Scope.lines
  rw [alike.values]
  refine congrArg (_ ++ ·) ?_
  have routines := alike.routines
  generalize scope.routines.entries = entries at routines
  generalize scope'.routines.entries = entries' at routines
  induction routines with
  | nil => rfl
  | cons first _ ih => rw [List.map_cons, List.map_cons, first.2.listing_eq, ih]

/-- Alike contexts have the same listing. -/
theorem Contexts.listing_eq {context context' : Context}
    (alike : likeness.Contexts context context') : context.listing = context'.listing := by
  have same {scopes scopes' : List Scope} (each : List.Forall₂ likeness.Scopes scopes scopes')
      (level : Nat) : Context.listingFrom level scopes = Context.listingFrom level scopes' := by
    induction each generalizing level with
    | nil => rfl
    | cons first _ ih => rw [Context.listingFrom, Context.listingFrom, first.lines_eq, ih]
  rw [Context.listing, Context.listing, same (List.forall₂_reverse_iff.mpr alike) 0]

/-! ## Outcomes -/

variable (likeness) in
/-- Halts for the same reason, at related offsets. -/
inductive Halts : Eval.Halt → Eval.Halt → Prop where
  | failed (fault : Eval.Fault) {offset offset' : Int} :
      likeness.offsets offset offset' → Halts (.failed ⟨fault, offset⟩) (.failed ⟨fault, offset'⟩)
  | tooDeep : Halts .tooDeep .tooDeep
  | unfinished : Halts .unfinished .unfinished
  | scopeUnderflow : Halts .scopeUnderflow .scopeUnderflow

theorem Halts.diagnostic_agrees {halt halt' : Eval.Halt} (halts : likeness.Halts halt halt') :
    halt.diagnostic.Agrees halt'.diagnostic := by
  cases halts with
  | failed fault _ => exact ⟨rfl, rfl, rfl⟩
  | tooDeep | unfinished | scopeUnderflow => exact ⟨rfl, rfl, rfl⟩

variable (likeness) in
/-- Related results or halts, and alike contexts. -/
inductive Outcomes {α β : Type} (results : α → β → Prop) :
    EStateM.Result Eval.Halt Context α → EStateM.Result Eval.Halt Context β → Prop where
  | ok {result : α} {result' : β} {context context' : Context} :
      results result result' → likeness.Contexts context context' →
        Outcomes results (.ok result context) (.ok result' context')
  | error {halt halt' : Eval.Halt} {context context' : Context} :
      likeness.Halts halt halt' → likeness.Contexts context context' →
        Outcomes results (.error halt context) (.error halt' context')

variable (likeness) in
/-- Actions with alike outcomes in alike contexts. -/
def Actions {α β : Type} (results : α → β → Prop) (action : Eval α) (action' : Eval β) : Prop :=
  ∀ ⦃context context' : Context⦄, likeness.Contexts context context' →
    likeness.Outcomes results (action context) (action' context')

namespace Actions

open Eval Effect

variable {α β γ δ : Type} {results : α → β → Prop} {others : γ → δ → Prop}

theorem value {result : α} {result' : β} (related : results result result') :
    likeness.Actions results (pure result) (pure result') :=
  fun _ _ alike => .ok related alike

theorem halt {halt halt' : Halt} (related : likeness.Halts halt halt') :
    likeness.Actions results (throw halt) (throw halt') :=
  fun _ _ alike => .error related alike

theorem fail (fault : Fault) {offset offset' : Int} (near : likeness.offsets offset offset') :
    likeness.Actions results (fail fault offset) (fail fault offset') :=
  halt (.failed fault near)

theorem bind {action : Eval α} {action' : Eval β} {next : α → Eval γ} {next' : β → Eval δ}
    (first : likeness.Actions results action action')
    (rest : ∀ {result result'}, results result result' →
      likeness.Actions others (next result) (next' result')) :
    likeness.Actions others (action >>= next) (action' >>= next') := by
  intro context context' alike
  have outcome := first alike
  generalize ran : action context = one at outcome
  generalize ran' : action' context' = other at outcome
  cases outcome with
  | ok related alike' =>
      rw [bind_of_ok ran, bind_of_ok ran']
      exact rest related alike'
  | error related alike' =>
      rw [bind_of_error ran, bind_of_error ran']
      exact .error related alike'

/-- Alike actions in scopes of their own. -/
theorem inScope {action : Eval α} {action' : Eval β}
    (inside : likeness.Actions results action action') :
    likeness.Actions results (inScope action) (inScope action') := by
  intro context context' alike
  have outcome := inside alike.push
  unfold Eval.inScope
  generalize action context.push = one at outcome
  generalize action' context'.push = other at outcome
  cases outcome with
  | @ok _ _ last last' related alike' =>
      have popped := alike'.pop?
      simp only
      generalize last.pop? = restored at popped
      generalize last'.pop? = restored' at popped
      cases popped with
      | none => exact .error .scopeUnderflow alike'
      | some alike'' => exact .ok related alike''
  | @error _ _ last last' related alike' =>
      have popped := alike'.pop?
      simp only
      generalize last.pop? = restored at popped
      generalize last'.pop? = restored' at popped
      cases popped with
      | none => exact .error .scopeUnderflow alike'
      | some alike'' => exact .error related alike''

theorem located {offset offset' : Int} (near : likeness.offsets offset offset')
    (computed : Except Fault α) :
    likeness.Actions Eq (located offset computed) (located offset' computed) := by
  cases computed with
  | ok result => exact value rfl
  | error fault => exact fail fault near

theorem read (name : String) {offset offset' : Int} (near : likeness.offsets offset offset') :
    likeness.Actions Eq (read name offset) (read name offset') := by
  have found : likeness.Actions (Option.Rel Eq) (lookupValue name) (lookupValue name) :=
    fun _ _ alike => .ok (alike.value? name) alike
  rw [read_eq, read_eq]
  refine bind found fun related => ?_
  cases related with
  | none => exact fail _ near
  | some same => exact value same

theorem setVariable (name : String) (bound : Value) :
    likeness.Actions Eq (modify (·.setVariable name bound) : Eval PUnit)
      (modify (·.setVariable name bound)) :=
  fun _ _ alike => .ok rfl (alike.setVariable name bound)

theorem setVariables (bindings : List (String × Value)) :
    likeness.Actions Eq (modify (·.setVariables bindings) : Eval PUnit)
      (modify (·.setVariables bindings)) := by
  induction bindings with
  | nil =>
      rw [setVariables_nil]
      exact value rfl
  | cons binding rest ih =>
      obtain ⟨name, bound⟩ := binding
      rw [setVariables_cons]
      exact bind (setVariable name bound) fun _ => ih

theorem setRoutine {routine routine' : Routine} (routines : likeness.Routines routine routine') :
    likeness.Actions Eq (modify (·.setRoutine routine) : Eval PUnit)
      (modify (·.setRoutine routine')) :=
  fun _ _ alike => .ok rfl (alike.setRoutine routines)

end Actions

/-! ## Definitions -/

open Eval

variable (likeness) in
/-- Computations with related results, or with the same fault at related offsets. -/
inductive Computed {α β : Type} (results : α → β → Prop) : Except Error α → Except Error β → Prop
    where
  | ok {result : α} {result' : β} : results result result' →
      Computed results (.ok result) (.ok result')
  | error (fault : Fault) {offset offset' : Int} : likeness.offsets offset offset' →
      Computed results (.error ⟨fault, offset⟩) (.error ⟨fault, offset'⟩)

theorem Computed.map {α β γ δ : Type} {results : α → β → Prop} {others : γ → δ → Prop}
    {computed : Except Error α} {computed' : Except Error β}
    (alike : likeness.Computed results computed computed') {rearrange : α → γ}
    {rearrange' : β → δ}
    (each : ∀ {result result'}, results result result' →
      others (rearrange result) (rearrange' result')) :
    likeness.Computed others (computed >>= fun result => pure (rearrange result))
      (computed' >>= fun result => pure (rearrange' result)) := by
  cases alike with
  | ok related => exact .ok (each related)
  | error fault near => exact .error fault near

theorem computed_parameterNames {trees trees' : List Tree}
    (alike : List.Forall₂ likeness.trees trees trees') (earlier : List String) :
    likeness.Computed Eq (parameterNames earlier trees) (parameterNames earlier trees') := by
  induction alike generalizing earlier with
  | nil => exact .ok rfl
  | @cons parameter parameter' _ _ first _ ih =>
      simp only [parameterNames, likeness.kind_eq first, likeness.text_eq first]
      split
      · exact .error _ (likeness.offset first)
      · split
        · exact .error _ (likeness.offset first)
        · exact (ih (parameter'.text :: earlier)).map fun same => by rw [same]

/-- The last items of related lists are related, and so are the items before them. -/
theorem forall₂_getLast? {α : Type} {items : α → α → Prop} {list list' : List α}
    (alike : List.Forall₂ items list list') :
    Option.Rel items list.getLast? list'.getLast? ∧
      List.Forall₂ items list.dropLast list'.dropLast := by
  induction alike with
  | nil => exact ⟨.none, .nil⟩
  | cons first rest ih =>
      cases rest with
      | nil => exact ⟨.some first, .nil⟩
      | cons second rest =>
          rw [List.getLast?_cons_cons, List.getLast?_cons_cons]
          exact ⟨ih.1, .cons first ih.2⟩

theorem computed_routineOf {root root' : Tree} (alike : likeness.trees root root') :
    likeness.Computed likeness.Routines (routineOf root) (routineOf root') := by
  have below := likeness.children alike
  unfold routineOf
  generalize root.children = children at below ⊢
  generalize root'.children = children' at below ⊢
  cases below with
  | nil => exact .error _ (likeness.offset alike)
  | @cons name name' rest rest' first others =>
      obtain ⟨ends, parameters⟩ := forall₂_getLast? others
      simp only [likeness.kind_eq first, likeness.text_eq first]
      generalize rest.getLast? = ending at ends ⊢
      generalize rest'.getLast? = ending' at ends ⊢
      cases ends with
      | none => exact .error _ (likeness.offset alike)
      | some body =>
          simp only [likeness.kind_eq body]
          split
          · exact .error _ (likeness.offset first)
          · split
            · exact .error _ (likeness.offset body)
            · exact (computed_parameterNames parameters []).map fun same => ⟨rfl, same, body⟩

theorem isEmpty_eq {α : Type} {items : α → α → Prop} {list list' : List α}
    (alike : List.Forall₂ items list list') : list.isEmpty = list'.isEmpty := by
  cases alike <;> rfl

/-! ## Rules -/

namespace Actions

variable {root root' : Tree} (alike : likeness.trees root root')
include alike

theorem definition : likeness.Actions Eq (definition root) (definition root') := by
  have computed := computed_routineOf alike
  unfold Eval.definition
  generalize routineOf root = routine at computed ⊢
  generalize routineOf root' = routine' at computed ⊢
  cases computed with
  | ok routines => exact bind (setRoutine routines) fun _ => value rfl
  | error fault near => exact fail fault near

/-- A number of children that the kind does not have is refused at the node. -/
theorem childCount {α β : Type} {results : α → β → Prop} {children children' : List Tree}
    (below : List.Forall₂ likeness.trees children children') (wanted : List Nat) :
    likeness.Actions results (Eval.fail (.childCount root.kind wanted children.length) root.offset)
      (Eval.fail (.childCount root'.kind wanted children'.length) root'.offset) := by
  rw [likeness.kind_eq alike, below.length_eq]
  exact fail _ (likeness.offset alike)

section Inside

variable {inner inner' : Tree → Eval Value}
  (inside : ∀ {tree tree'}, likeness.trees tree tree' →
    likeness.Actions Eq (inner tree) (inner' tree'))
include inside

omit alike in
theorem sequence {trees trees' : List Tree} (each : List.Forall₂ likeness.trees trees trees')
    (initial : Value) :
    likeness.Actions Eq (sequence inner initial trees) (sequence inner' initial trees') := by
  induction each generalizing initial with
  | nil => exact value rfl
  | cons first _ ih =>
      refine bind (inside first) fun {result result'} same => ?_
      rw [same]
      exact ih result'

omit alike in
theorem values {trees trees' : List Tree} (each : List.Forall₂ likeness.trees trees trees') :
    likeness.Actions Eq (values inner trees) (values inner' trees') := by
  induction each with
  | nil => exact value rfl
  | cons first _ ih =>
      exact bind (inside first) fun same => bind ih fun same' => value (by rw [same, same'])

theorem block : likeness.Actions Eq (block inner root) (block inner' root') := by
  have statements := sequence inside (likeness.children alike) .null
  unfold Eval.block
  rw [likeness.opensScope_eq alike]
  split
  · exact statements.inScope
  · exact statements

theorem assignment : likeness.Actions Eq (assignment inner root) (assignment inner' root') := by
  have below := likeness.children alike
  unfold Eval.assignment
  generalize root.children = children at below ⊢
  generalize root'.children = children' at below ⊢
  match children, children', below with
  | [], [], .nil => exact childCount alike .nil [2]
  | [_], [_], .cons one .nil => exact childCount alike (.cons one .nil) [2]
  | _ :: _ :: _ :: _, _ :: _ :: _ :: _, .cons one (.cons two (.cons three others)) =>
      exact childCount alike (.cons one (.cons two (.cons three others))) [2]
  | [target, source], [target', source'], .cons one (.cons two .nil) =>
      have bare := isEmpty_eq (likeness.children one)
      simp only [likeness.kind_eq one, likeness.text_eq one, bare]
      split
      · refine bind (inside two) fun {result result'} same => ?_
        rw [same]
        exact bind (setVariable _ _) fun _ => value rfl
      · exact fail _ (likeness.offset one)

theorem operation : likeness.Actions Eq (operation inner root) (operation inner' root') := by
  have below := likeness.children alike
  unfold Eval.operation
  generalize root.children = children at below ⊢
  generalize root'.children = children' at below ⊢
  match children, children', below with
  | [], [], .nil => exact childCount alike .nil [2]
  | [_], [_], .cons one .nil => exact childCount alike (.cons one .nil) [2]
  | _ :: _ :: _ :: _, _ :: _ :: _ :: _, .cons one (.cons two (.cons three others)) =>
      exact childCount alike (.cons one (.cons two (.cons three others))) [2]
  | [_, _], [_, _], .cons one (.cons two .nil) =>
      refine bind (inside one) fun same => bind (inside two) fun same' => ?_
      rw [likeness.text_eq alike, same, same']
      exact located (likeness.offset alike) _

theorem test (label : String) :
    likeness.Actions Eq (test inner label root) (test inner' label root') := by
  refine bind (inside alike) fun same => ?_
  rw [same]
  exact located (likeness.offset alike) _

theorem conditional : likeness.Actions Eq (conditional inner root) (conditional inner' root') := by
  have below := likeness.children alike
  unfold Eval.conditional
  generalize root.children = children at below ⊢
  generalize root'.children = children' at below ⊢
  match children, children', below with
  | [], [], .nil => exact childCount alike .nil [2, 3]
  | [_], [_], .cons one .nil => exact childCount alike (.cons one .nil) [2, 3]
  | [_, _], [_, _], .cons one (.cons two .nil) =>
      refine bind (test one inside "if") fun {truth truth'} same => ?_
      rw [same]
      cases truth' with
      | true => exact inside two
      | false => exact value rfl
  | [_, _, _], [_, _, _], .cons one (.cons two (.cons three .nil)) =>
      refine bind (test one inside "if") fun {truth truth'} same => ?_
      rw [same]
      cases truth' with
      | true => exact inside two
      | false => exact inside three
  | _ :: _ :: _ :: _ :: _, _ :: _ :: _ :: _ :: _,
      .cons one (.cons two (.cons three (.cons four others))) =>
      exact childCount alike (.cons one (.cons two (.cons three (.cons four others)))) [2, 3]

omit alike in
theorem rounds {question question' body body' : Tree}
    (asks : likeness.trees question question') (runs : likeness.trees body body') (bound : Nat) :
    likeness.Actions Eq (rounds inner question body bound)
      (rounds inner' question' body' bound) := by
  induction bound with
  | zero => exact halt .unfinished
  | succ bound ih =>
      refine bind (test asks inside "while") fun {truth truth'} same => ?_
      rw [same]
      cases truth' with
      | true => exact bind (inside runs) fun _ => ih
      | false => exact value rfl

theorem loop (bound : Nat) :
    likeness.Actions Eq (loop inner bound root) (loop inner' bound root') := by
  have below := likeness.children alike
  unfold Eval.loop
  generalize root.children = children at below ⊢
  generalize root'.children = children' at below ⊢
  match children, children', below with
  | [], [], .nil => exact childCount alike .nil [2]
  | [_], [_], .cons one .nil => exact childCount alike (.cons one .nil) [2]
  | [_, _], [_, _], .cons one (.cons two .nil) => exact rounds inside one two bound
  | _ :: _ :: _ :: _, _ :: _ :: _ :: _, .cons one (.cons two (.cons three others)) =>
      exact childCount alike (.cons one (.cons two (.cons three others))) [2]

omit alike in
theorem apply {routine routine' : Routine} (routines : likeness.Routines routine routine')
    (arguments : List Value) {offset offset' : Int} (near : likeness.offsets offset offset') :
    likeness.Actions Eq (apply inner routine arguments offset)
      (apply inner' routine' arguments offset') := by
  unfold Eval.apply
  rw [routines.name, routines.parameters]
  split
  · exact fail _ near
  · exact inScope (bind (setVariables _) fun _ => inside routines.body)

theorem call : likeness.Actions Eq (call inner root) (call inner' root') := by
  have found : likeness.Actions (Option.Rel likeness.Routines) (lookupRoutine root'.text)
      (lookupRoutine root'.text) :=
    fun _ _ contexts => .ok (contexts.routine? _) contexts
  rw [call_eq, call_eq, likeness.text_eq alike]
  refine bind found fun related => ?_
  cases related with
  | none => exact fail _ (likeness.offset alike)
  | some routines =>
      refine bind (values inside (likeness.children alike)) fun {_ arguments} same => ?_
      rw [same]
      exact apply inside routines arguments (likeness.offset alike)

/-- **Every rule respects a likeness.** If the evaluators for the nodes inside do, alike nodes have
alike meanings. -/
theorem node (bound : Nat) :
    likeness.Actions Eq (node inner bound root) (node inner' bound root') := by
  unfold Eval.node
  rw [likeness.kind_eq alike]
  cases root'.kind with
  | numeral =>
      rw [likeness.text_eq alike]
      exact located (likeness.offset alike) _
  | string =>
      rw [likeness.text_eq alike]
      exact value rfl
  | identifier =>
      rw [likeness.text_eq alike]
      exact read _ (likeness.offset alike)
  | call => exact call alike inside
  | operator => exact operation alike inside
  | assign => exact assignment alike inside
  | ifWord => exact conditional alike inside
  | whileWord => exact loop alike inside bound
  | fnWord => exact definition alike
  | block => exact block alike inside
  | _ => exact fail _ (likeness.offset alike)

end Inside

/-! ## Trees -/

/-- **Alike trees have alike meanings.** -/
theorem tree (bound depth : Nat) :
    likeness.Actions Eq (tree bound depth root) (tree bound depth root') := by
  induction depth generalizing root root' with
  | zero => exact halt .tooDeep
  | succ depth ih => exact node alike (fun same => ih same) bound

omit alike in
theorem reporting {α β : Type} {results : α → β → Prop} {action : Eval α} {action' : Eval β}
    (actions : likeness.Actions results action action') {offset offset' : Int}
    (near : likeness.offsets offset offset') :
    likeness.Actions results (reporting offset action) (reporting offset' action') := by
  intro context context' contexts
  have outcome := actions contexts
  unfold Eval.reporting
  generalize action context = one at outcome ⊢
  generalize action' context' = other at outcome ⊢
  cases outcome with
  | ok same contexts' => exact .ok same contexts'
  | error halts contexts' =>
      cases halts with
      | tooDeep => exact .error (.failed .recursionLimit near) contexts'
      | failed fault near' => exact .error (.failed fault near') contexts'
      | unfinished => exact .error .unfinished contexts'
      | scopeUnderflow => exact .error .scopeUnderflow contexts'

theorem whole (bound depth : Nat) :
    likeness.Actions Eq (whole bound depth root) (whole bound depth root') :=
  reporting (tree alike bound depth) (likeness.offset alike)

theorem statements (bound depth : Nat) :
    likeness.Actions Eq (statements bound depth root) (statements bound depth root') := by
  unfold Eval.statements
  rw [likeness.kind_eq alike]
  split
  · exact reporting (sequence (fun same => tree same bound depth) (likeness.children alike) .null)
      (likeness.offset alike)
  · exact whole alike bound depth

end Actions

end Likeness

end BraceLang
