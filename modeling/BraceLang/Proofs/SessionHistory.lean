import BraceLang.Prompt.Session
import BraceLang.Proofs.DocumentedFailures
import BraceLang.Proofs.SourceText

/-!
# The history of a session

A session takes one entry after another until its input ends. What it remembers at any time is
given by its history: the context is the one that the programs entered since the last reset build
from a fresh context, in their order (`context_after`). A program that fails counts with the
bindings that it made before. Between entries only the global scope is open, so no program leaves
one behind, and a program gives a value or fails for a documented reason, so none ends the session.

Commands and programs do not get into each other's way: a text that is a command begins with a
slash, blanks aside, and then its first token is an operator, with which no program begins
(`not_program_of_command`).
-/

set_option autoImplicit false

namespace BraceLang

namespace Prompt

open Lexer Grammar Effect

/-! ## What an entry asks for -/

/-- What an entry asks a session to do. -/
inductive Request where
  | nothing
  | perform (command : Command)
  | evaluate (source : String)
  deriving DecidableEq, Repr

/-- What an entry asks for: a text is first normalised, and nothing is to be done for a blank
one. -/
def Entry.request (entry : Entry) : Request :=
  match entry.text?.map normalise with
  | none => .nothing
  | some source =>
    if Text.allBlank source then .nothing
    else
      match Command.ofLine? source with
      | some command => .perform command
      | none => .evaluate source

/-- Whether a session is to be reset. -/
def Request.isReset (request : Request) : Bool :=
  request = .perform .reset

/-- The program that is to be evaluated. -/
def Request.program? : Request → Option String
  | .evaluate source => some source
  | .nothing | .perform _ => none

/-- The session after a request. -/
def Session.serve (session : Session) : Request → Session
  | .nothing => session
  | .perform command => (command.perform session).1
  | .evaluate source => { session with context := (enter source session.context).context }

/-- An entry changes a session as its request says. -/
theorem take_fst (session : Session) (entry : Entry) :
    (take session entry).1 = session.serve entry.request := by
  simp only [take, Entry.request]
  cases entry.text? with
  | none => rfl
  | some text =>
      simp only [Option.map_some, submit]
      by_cases blank : Text.allBlank (normalise text) = true
      · rw [if_pos blank, if_pos blank]
        rfl
      · rw [if_neg blank, if_neg blank]
        cases Command.ofLine? (normalise text) <;> rfl

/-- The program of an entry is evaluated. -/
theorem take_of_evaluate {entry : Entry} {source : String}
    (asks : entry.request = .evaluate source) (session : Session) :
    take session entry = evaluate session source := by
  simp only [Entry.request] at asks
  cases submitted : entry.text? with
  | none => simp [submitted] at asks
  | some text =>
      simp only [submitted, Option.map_some] at asks
      split at asks
      · cases asks
      · next notBlank =>
          split at asks
          · cases asks
          · next noCommand =>
              cases asks
              simp only [take, submitted, submit, if_neg notBlank, noCommand]

/-- Of all commands, only a reset changes the context. -/
theorem context_perform (session : Session) (command : Command) :
    (command.perform session).1.context =
      if command = .reset then .fresh else session.context := by
  cases command with
  | trace setting => cases setting <;> rfl
  | clear | bindings | reset | unknown _ => rfl

/-! ## Histories -/

/-- The session after some entries. -/
def Session.after (session : Session) (entries : List Entry) : Session :=
  entries.foldl (fun session entry => (take session entry).1) session

theorem Session.after_append (session : Session) (entries : List Entry) (entry : Entry) :
    session.after (entries ++ [entry]) = (session.after entries).serve entry.request := by
  rw [after, List.foldl_append, ← take_fst]
  rfl

/-- The programs that were entered after the last reset. -/
def programs (entries : List Entry) : List String :=
  (entries.reverse.takeWhile fun entry => !entry.request.isReset).reverse.filterMap fun entry =>
    entry.request.program?

/-- The context that programs build, each in the one that the program before it leaves. -/
def replay (context : Context) (sources : List String) : Context :=
  sources.foldl (fun context source => (enter source context).context) context

theorem replay_append (context : Context) (earlier later : List String) :
    replay context (earlier ++ later) = replay (replay context earlier) later :=
  List.foldl_append

theorem programs_append_of_reset {entry : Entry} (resets : entry.request.isReset = true)
    (entries : List Entry) : programs (entries ++ [entry]) = [] := by
  simp [programs, resets]

theorem programs_append {entry : Entry} (keeps : entry.request.isReset = false)
    (entries : List Entry) :
    programs (entries ++ [entry]) = programs entries ++ entry.request.program?.toList := by
  have single : [entry].filterMap (fun entry => entry.request.program?) =
      entry.request.program?.toList := by
    cases asked : entry.request.program? <;> simp [asked]
  simp [programs, keeps, List.filterMap_append, single]

/-- A request gives a fresh context, or has its program evaluated in the context of the session. -/
theorem context_serve (session : Session) (request : Request) :
    (session.serve request).context =
      if request.isReset then .fresh else replay session.context request.program?.toList := by
  cases request with
  | nothing => rfl
  | perform command =>
      show (command.perform session).1.context = _
      rw [context_perform]
      by_cases resets : command = .reset
      · simp [Request.isReset, resets]
      · simp [Request.isReset, resets, Request.program?, replay]
  | evaluate source => rfl

/-- **The context of a session is the replay of its programs.** -/
theorem context_after (trace : Bool) (entries : List Entry) :
    (Session.after { trace := trace } entries).context = replay .fresh (programs entries) := by
  -- the newest entry is the first one of the reversed list
  suffices ∀ reversed : List Entry, (Session.after { trace := trace } reversed.reverse).context =
      replay .fresh (programs reversed.reverse) by
    simpa only [List.reverse_reverse] using this entries.reverse
  intro reversed
  induction reversed with
  | nil => rfl
  | cons entry reversed ih =>
      rw [List.reverse_cons, Session.after_append, context_serve, ih]
      cases resets : entry.request.isReset with
      | true =>
          rw [programs_append_of_reset resets]
          rfl
      | false =>
          rw [programs_append resets, replay_append]
          rfl

/-! ## Programs of a session -/

/-- A documented outcome is a value or a documented failure, if the loops end. -/
theorem result_cases {outcome : Outcome} (documented : outcome.IsDocumented) :
    (∃ value, outcome.result = .ok value) ∨ outcome.result = .error (.evaluating .unfinished) ∨
      ∃ failure, outcome.result = .error failure ∧ failure.isDocumented = true := by
  cases result : outcome.result with
  | ok value => exact .inl ⟨value, rfl⟩
  | error failure =>
      rcases documented.failure failure result with rfl | isDocumented
      · exact .inr (.inl rfl)
      · exact .inr (.inr ⟨failure, rfl, isDocumented⟩)

/-- A program keeps the frame of the context in which it is entered. -/
theorem frame_enter (source : String) (context : Context) :
    Frame context (enter source context).context := by
  unfold enter enterWithin evaluateWithin
  cases treeWithin {} source with
  | error failure => exact .refl context
  | ok root =>
      show Frame context (Outcome.ofEval _ context).context
      rw [context_ofEval]
      exact Eval.statements_framed _ _ root context

theorem depth_replay (context : Context) (sources : List String) :
    (replay context sources).depth = context.depth := by
  induction sources generalizing context with
  | nil => rfl
  | cons source sources ih => exact (ih _).trans (frame_enter source context).depth_eq

theorem prepared_replay {context : Context} (prepared : Prepared context)
    (sources : List String) : Prepared (replay context sources) := by
  induction sources generalizing context with
  | nil => exact prepared
  | cons source sources ih => exact ih ((Call.enter source).isDocumented {} prepared).prepared

/-! ## Outputs -/

theorem length_outputs (session : Session) (entries : List Entry) :
    (outputs session entries).length = entries.length := by
  induction entries generalizing session with
  | nil => rfl
  | cons entry entries ih => exact congrArg Nat.succ (ih _)

/-- What is written for an entry is written by the session after the entries before it. -/
theorem outputs_append (session : Session) (seen : List Entry) (entry : Entry)
    (later : List Entry) :
    (outputs session (seen ++ entry :: later))[seen.length]? =
      some (take (session.after seen) entry).2 := by
  induction seen generalizing session with
  | nil => rfl
  | cons first seen ih => exact ih _

/-! ## Commands are no programs -/

/-- A lexeme that begins with a slash is an operator. -/
theorem operator_of_slash {kind : Kind} {text : String} (spelled : Spelled kind text)
    {rest : List Char} (slash : (Item.lexeme kind text).written = '/' :: rest) :
    kind = .operator := by
  by_cases isString : kind = .string
  · rw [Item.written, if_pos isString] at slash
    cases slash
  rw [Item.written, if_neg isString] at slash
  have first {form : Form} (lexeme : Lexeme form text.toList) : form.accepts '/' = true :=
    lexeme.accepted '/' (by rw [slash]; exact List.mem_cons_self)
  cases spelled with
  | numeral lexeme => exact absurd (first lexeme) (by decide)
  | string lexeme => exact absurd rfl isString
  | keyword member => exact absurd (first (lexeme_of_keyword member)) (by decide)
  | identifier lexeme _ => exact absurd (first lexeme) (by decide)
  | assign => cases slash
  | operator known => rfl
  | punctuation member =>
      rw [Char.toString, String.toList_singleton] at slash
      cases slash
      simp [marks] at member

/-- A text that begins with a slash, blanks aside, has an operator for its first token. -/
theorem operator_of_laid {items : List Item} (laid : Laid items) {rest : List Char}
    (slash : (written items).dropWhile Text.isBlank = '/' :: rest) (position : Nat) :
    ∃ sign more, tokensFrom position items = sign :: more ∧ sign.kind = .operator := by
  induction laid generalizing position with
  | nil => cases slash
  | @cons item items valid _ _ ih =>
      cases item with
      | blank c =>
          have blank : Text.isBlank c = true := valid
          refine ih ?_ _
          rwa [written_cons, Item.written, List.singleton_append,
            List.dropWhile_cons_of_pos blank] at slash
      | lexeme kind text =>
          obtain ⟨c, later, begins, notBlank⟩ := Spelled.head_written valid
          rw [written_cons, begins, List.cons_append,
            List.dropWhile_cons_of_neg (by rw [notBlank]; decide)] at slash
          cases slash
          exact ⟨_, _, rfl, operator_of_slash valid begins⟩

/-- Trimming keeps the first character that is not blank. -/
theorem dropWhile_of_trim {text : String} {c : Char}
    (first : (Text.trim text).toList.head? = some c) :
    ∃ rest, text.toList.dropWhile Text.isBlank = c :: rest := by
  rw [Text.trim, String.toList_ofList, Text.dropEnds] at first
  obtain ⟨middle, trimmed⟩ := List.head?_eq_some_iff.mp first
  -- what is dropped at the end stands behind the rest
  obtain ⟨dropped, same⟩ : (text.toList.dropWhile Text.isBlank).reverse.dropWhile Text.isBlank <:+
      (text.toList.dropWhile Text.isBlank).reverse := List.dropWhile_suffix _
  have whole := congrArg List.reverse same
  rw [List.reverse_reverse, List.reverse_append, trimmed] at whole
  exact ⟨middle ++ dropped.reverse, whole.symm⟩

/-- **A command is no program.** -/
theorem not_program_of_command {text : String} {command : Command}
    (isCommand : Command.ofLine? text = some command) (limits : Limits) (root : Tree) :
    treeWithin limits text ≠ .ok root := by
  intro parsed
  obtain ⟨items, laid, same, -, trees, derived, rfl⟩ := exists_program_of_treeWithin parsed
  have slash : startsWithSlash (Text.trim text) = true := by
    cases found : startsWithSlash (Text.trim text) with
    | true => rfl
    | false => simp [Command.ofLine?, found] at isCommand
  obtain ⟨rest, begins⟩ := dropWhile_of_trim (beq_iff_eq.mp slash)
  rw [← same] at begins
  obtain ⟨sign, more, tokens, isOperator⟩ := operator_of_laid laid begins 0
  rw [tokens] at derived
  have inhabited : trees ≠ [] := by
    rintro rfl
    cases derived
  obtain ⟨first, later, list, starts⟩ := derived.first inhabited
  cases list
  rw [isOperator] at starts
  cases starts

/-- **The law of a session.** A session that begins with a fresh context takes all entries, whatever
they are, and has an output for each of them. A program is evaluated in the context that the entries
before it have left, and gives a value or fails for a documented reason, if its loops end. Before
every entry and after the last one, the context has one scope for the variables and one for the
functions, and it is the one that the programs since the last reset build from a fresh context. A
text that is taken for a command is no program. -/
theorem session_replays_its_programs (trace : Bool) (entries : List Entry) :
    let session : Session := { trace := trace }
    ((outputs session entries).length = entries.length ∧
      ∀ seen entry later, entries = seen ++ entry :: later →
        (outputs session entries)[seen.length]? = some (take (session.after seen) entry).2 ∧
        ∀ source, entry.request = .evaluate source →
          take (session.after seen) entry = evaluate (session.after seen) source ∧
          let result := (enter source (session.after seen).context).result
          (∃ value, result = .ok value) ∨ result = .error (.evaluating .unfinished) ∨
            ∃ failure, result = .error failure ∧ failure.isDocumented = true) ∧
    (∀ seen, seen <+: entries →
      let context := (session.after seen).context
      context.depth = 1 ∧ (context.scopes.map Scope.values).length = 1 ∧
        (context.scopes.map Scope.routines).length = 1 ∧
        context = replay .fresh (programs seen)) ∧
    ∀ text command, Command.ofLine? text = some command →
      ∀ limits root, treeWithin limits text ≠ .ok root := by
  intro session
  have built (seen : List Entry) : (session.after seen).context = replay .fresh (programs seen) :=
    context_after trace seen
  have single (seen : List Entry) : (session.after seen).context.depth = 1 := by
    rw [built, depth_replay]
    rfl
  refine ⟨⟨length_outputs session entries, ?_⟩, ?_, fun _ _ => not_program_of_command⟩
  · rintro seen entry later rfl
    refine ⟨outputs_append session seen entry later, fun source asks => ?_⟩
    refine ⟨take_of_evaluate asks _, ?_⟩
    have prepared : Prepared (session.after seen).context := by
      rw [built]
      exact prepared_replay (prepared_fresh []) _
    exact result_cases ((Call.enter source).isDocumented {} prepared)
  · intro seen _
    have depth := single seen
    exact ⟨depth, by rw [List.length_map]; exact depth, by rw [List.length_map]; exact depth,
      built seen⟩

/-- A session with an interrupt, a reset, a program that fails after it has bound a name, and a
command that is unknown. -/
theorem session_replays_its_programs_reset :
    let entries : List Entry := [.submitted "x = 1 y = 3", .interrupted, .submitted " /reset ",
      .submitted "\u200bx = 2 x / 0", .submitted "/ 2"]
    let session := Session.after {} entries
    programs entries = ["x = 2 x / 0"] ∧ session.context.depth = 1 ∧
      session.context = replay .fresh ["x = 2 x / 0"] ∧
      session.context = Context.fresh.setVariable "x" (.integer 2) ∧
      ∀ limits root, treeWithin limits "/ 2" ≠ .ok root := by
  intro entries session
  have history : programs entries = ["x = 2 x / 0"] := by decide +kernel
  obtain ⟨-, state, commands⟩ := session_replays_its_programs false entries
  obtain ⟨depth, -, -, built⟩ := state entries (List.prefix_refl entries)
  have bound : replay .fresh ["x = 2 x / 0"] = Context.fresh.setVariable "x" (.integer 2) := by
    decide +kernel
  rw [history] at built
  have isCommand : Command.ofLine? "/ 2" = some (.unknown "/") := by decide +kernel
  exact ⟨history, depth, built, built.trans bound, commands "/ 2" (.unknown "/") isCommand⟩

end Prompt

end BraceLang
