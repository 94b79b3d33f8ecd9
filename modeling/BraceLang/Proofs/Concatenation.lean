import BraceLang.Proofs.Evaluation.Likeness
import BraceLang.Proofs.Grammar.Exactness
import BraceLang.Proofs.Grammar.Following
import BraceLang.Proofs.Lexing.Composition

/-!
# Programs entered in parts

A program that is cut between two lines can be entered in two parts, provided that no call is cut
there (`Apart`). Its tokens are those of the first part and, further on in the text, those of the
second (`tokenize_lines`), and no statement of the first part goes on in the second
(`Program.append`). So its statements are those of the two parts.

Entering the whole is entering the first part and then, if that succeeds, the second. What the
second part leaves behind differs in one thing only: the offsets in its trees count from another
place, while the trees of functions that were stored before it keep theirs (`displaced`).
-/

set_option autoImplicit false

namespace BraceLang

open Lexer Grammar Effect

/-! ## Tokens -/

/-- A blank line break between two texts keeps their tokens apart. -/
theorem tokenize_lines {first second : String} {items items' : List Item} (laid : Laid items)
    (laid' : Laid items') (same : written items = first.toList)
    (same' : written items' = second.toList) :
    tokenize (first ++ "\n" ++ second) =
      .ok (tokensFrom 0 items ++
        (tokensFrom 0 items').map (Token.relocate (· + (first.length + 1 : Nat))) ++
          [.endAt (first ++ "\n" ++ second).length]) := by
  have breaks : Text.isBlank '\n' = true := by decide
  have length : (first ++ "\n" ++ second).length = first.length + 1 + second.length := by
    rw [String.length_append, String.length_append]
    rfl
  have newline : "\n" = '\n'.toString := rfl
  rw [length, newline, laid.tokenize_blank same breaks, laid'.tokenize_eq same']
  show Except.ok (behind _ _ _) = _
  rw [behind, List.map_append, List.map_singleton, endAt_relocate, List.append_assoc]

/-! ## Statements -/

namespace Grammar

/-- Statements can be followed by statements. -/
theorem Derives.followed {start middle rest : List Token} {trees others : List Tree}
    (derived : Derives .statements start trees middle)
    (more : Derives .statements middle others rest) :
    Derives .statements start (trees ++ others) rest := by
  generalize isList : Phrase.statements = phrase at derived
  induction derived with
  | noStatement => exact more
  | nextStatement one _ _ ih => exact .nextStatement one (ih more isList)
  | _ => cases isList

theorem Apart.relocate {read rest : List Token} (apart : Apart read rest) (place : Int → Int) :
    Apart read (rest.map (Token.relocate place)) := by
  intro name member isName next first
  rw [List.head?_map, Option.mem_def, Option.map_eq_some_iff] at first
  obtain ⟨token, first, rfl⟩ := first
  exact apart name member isName token first

theorem Apart.of_append_right {read first second : List Token}
    (apart : Apart read (first ++ second)) : Apart read first := by
  cases first with
  | nil => exact .of_unopened nofun
  | cons head tail => exact apart

/-- **Two programs in a row are a program**, unless a call is cut between them. -/
theorem Program.append {tokens tokens' : List Token} {root root' : Tree}
    (isProgram : Program tokens root) (isProgram' : Program tokens' root')
    (apart : Apart tokens tokens') :
    Program (tokens ++ tokens') (.block (root.children ++ root'.children) true 0) := by
  obtain ⟨trees, derived, rfl⟩ := isProgram
  obtain ⟨others, derived', rfl⟩ := isProgram'
  rw [← List.append_nil tokens] at derived
  exact ⟨trees ++ others, (derived.whole tokens' apart).followed derived', rfl⟩

theorem Program.relocate {tokens : List Token} {root : Tree} (isProgram : Program tokens root)
    (place : Int → Int) :
    Program (tokens.map (Token.relocate place))
      (.block (root.children.map (Tree.relocate place)) true 0) := by
  obtain ⟨trees, derived, rfl⟩ := isProgram
  exact ⟨_, derived.relocate place, rfl⟩

end Grammar

/-- The tree of a program that is entered in two parts. -/
def joined (distance : Nat) (root root' : Tree) : Tree :=
  .block (root.children ++ root'.children.map (Tree.relocate (· + distance))) true 0

/-- The tree of two lines of text is put together from the trees of the lines. -/
theorem treeWithin_lines {limits limits' : Limits} {first second : String}
    {tokens tokens' : List Token} {root root' : Tree} (read : tokenize first = .ok tokens)
    (read' : tokenize second = .ok tokens') (parsed : treeWithin limits first = .ok root)
    (parsed' : treeWithin limits' second = .ok root') (apart : Apart tokens.dropLast tokens') :
    ∃ needed, ∀ limits : Limits,
      treeWithin limits (first ++ "\n" ++ second) = .ok (joined (first.length + 1) root root') ∨
        limits.nesting < needed ∧ ∃ token,
          treeWithin limits (first ++ "\n" ++ second) = .error (.parsing (.tooDeep token)) := by
  obtain ⟨items, laid, same, found, isProgram⟩ := exists_program_of_treeWithin parsed
  obtain ⟨items', laid', same', found', isProgram'⟩ := exists_program_of_treeWithin parsed'
  rw [read] at found
  rw [read'] at found'
  obtain rfl := Except.ok.inj found
  obtain rfl := Except.ok.inj found'
  rw [List.dropLast_concat] at apart
  have both := isProgram.append (isProgram'.relocate (· + (first.length + 1 : Nat)))
    (apart.of_append_right.relocate _)
  have tokenized := tokenize_lines laid laid' same same'
  have closed : (Token.endAt (first ++ "\n" ++ second).length).kind = .endOfInput := rfl
  obtain ⟨needed, parses⟩ := both.parseWithin_eq closed
  refine ⟨needed, fun limits => ?_⟩
  rw [treeWithin_of_tokenize tokenized]
  rcases parses limits.nesting with ok | ⟨small, token, refused⟩
  · rw [ok]
    exact .inl rfl
  · rw [refused]
    exact .inr ⟨small, token, rfl⟩

/-! ## Trees at another place -/

/-- The bodies of all functions in a context. -/
def Context.bodies (context : Context) : List Tree :=
  context.scopes.flatMap fun scope => scope.routines.entries.map fun entry => entry.2.body

/-- Trees that come from one of two places. A part of what was stored before stays where it is, and
a part of what is entered is further on in the text. An offset is that of such a part. -/
def displaced (distance : Nat) (stored entered : List Tree) : Likeness where
  trees tree tree' :=
    (tree ∈ Tree.preorderAll stored ∧ tree' = tree) ∨
      (tree ∈ Tree.preorderAll entered ∧ tree' = tree.relocate (· + distance))
  offsets offset offset' :=
    (∃ tree ∈ Tree.preorderAll stored, offset = tree.offset ∧ offset' = offset) ∨
      ∃ tree ∈ Tree.preorderAll entered, offset = tree.offset ∧ offset' = offset + distance
  kind_eq alike := by
    rcases alike with ⟨-, rfl⟩ | ⟨-, rfl⟩
    · rfl
    · exact (Tree.kind_relocate _ _).symm
  text_eq alike := by
    rcases alike with ⟨-, rfl⟩ | ⟨-, rfl⟩
    · rfl
    · exact (Tree.text_relocate _ _).symm
  opensScope_eq alike := by
    rcases alike with ⟨-, rfl⟩ | ⟨-, rfl⟩
    · rfl
    · exact (Tree.opensScope_relocate _ _).symm
  offset {tree tree'} alike := by
    rcases alike with ⟨old, rfl⟩ | ⟨new, rfl⟩
    · exact .inl ⟨tree', old, rfl, rfl⟩
    · exact .inr ⟨tree, new, rfl, Tree.offset_relocate _ _⟩
  children alike := by
    rcases alike with ⟨old, rfl⟩ | ⟨new, rfl⟩
    · exact List.forall₂_same.mpr fun child isChild =>
        .inl ⟨Tree.mem_preorderAll_of_child isChild _ old, rfl⟩
    · rw [Tree.children_relocate]
      exact List.forall₂_map_right_iff.mpr (List.forall₂_same.mpr fun child isChild =>
        .inr ⟨Tree.mem_preorderAll_of_child isChild _ new, rfl⟩)

/-- A context is like itself: nothing that is stored in it has moved. -/
theorem displaced_refl (distance : Nat) (context : Context) (entered : List Tree) :
    (displaced distance context.bodies entered).Contexts context context :=
  List.forall₂_same.mpr fun scope isScope =>
    ⟨rfl, List.forall₂_same.mpr fun entry isEntry => ⟨rfl, rfl, rfl, .inl
      ⟨Tree.mem_preorderAll_of_mem (List.mem_flatMap.mpr
        ⟨scope, isScope, List.mem_map.mpr ⟨entry, isEntry, rfl⟩⟩), rfl⟩⟩⟩

/-! ## Sequences -/

namespace Eval

/-- A sequence in two parts: the second goes on with the value of the first. -/
theorem sequence_append (inner : Tree → Eval Value) (initial : Value) (first second : List Tree) :
    sequence inner initial (first ++ second) =
      sequence inner initial first >>= fun value => sequence inner value second := by
  induction first generalizing initial with
  | nil => rfl
  | cons tree trees ih =>
      show (inner tree >>= fun value => sequence inner value (trees ++ second)) = _
      simp only [ih]
      exact (bind_assoc _ _ _).symm

theorem reporting_bind_of_ok {α β : Type} {action : Eval α} {next : α → Eval β}
    {context middle : Context} {result : α} (ran : action context = .ok result middle)
    (offset : Int) :
    reporting offset (action >>= next) context = reporting offset (next result) middle := by
  unfold reporting
  rw [bind_of_ok ran]

end Eval

/-! ## Entering in parts -/

/-- Statements after others, and by themselves: further on in the text they do the same, and without
any statement the value is that of the others. -/
theorem sequence_displaced (bound depth distance : Nat) (value : Value) (stored trees : List Tree) :
    (displaced distance stored trees).Actions
      (fun own value' => (if trees.isEmpty then value else own) = value')
      (Eval.sequence (Eval.tree bound depth) .null trees)
      (Eval.sequence (Eval.tree bound depth) value
        (trees.map (Tree.relocate (· + distance)))) := by
  cases trees with
  | nil => exact .value rfl
  | cons tree trees =>
      have moved : List.Forall₂ (displaced distance stored (tree :: trees)).trees (tree :: trees)
          ((tree :: trees).map (Tree.relocate (· + distance))) :=
        List.forall₂_map_right_iff.mpr (List.forall₂_same.mpr fun _ member =>
          .inr ⟨Tree.mem_preorderAll_of_mem member, rfl⟩)
      have same := Likeness.Actions.sequence (fun alike => .tree alike bound depth) moved .null
      exact same

/-- Outcomes with alike contexts. Both have a value, the second one an adjusted one, or both are
failures of evaluation that differ at most in the place, or both are too deep a recursion, which is
found at the beginning of a text. -/
structure Likeness.Endings (likeness : Likeness) (adjust : Value → Value)
    (outcome outcome' : Outcome) : Prop where
  contexts : likeness.Contexts outcome.context outcome'.context
  listings : outcome.context.listing = outcome'.context.listing
  results :
    (∃ value, outcome.result = .ok value ∧ outcome'.result = .ok (adjust value)) ∨
      (∃ halt halt', outcome.result = .error (.evaluating halt) ∧
        outcome'.result = .error (.evaluating halt') ∧ likeness.Halts halt halt' ∧
        halt.diagnostic.Agrees halt'.diagnostic) ∨
      (outcome.result = .error (.evaluating (.failed ⟨.recursionLimit, 0⟩)) ∧
        outcome'.result = outcome.result)

theorem Likeness.Actions.endings {likeness : Likeness} {adjust : Value → Value}
    {action action' : Eval Value}
    (actions : likeness.Actions (fun value value' => adjust value = value') action action')
    {context context' : Context} (alike : likeness.Contexts context context') :
    likeness.Endings adjust (.ofEval (Eval.reporting 0 action) context)
      (.ofEval (Eval.reporting 0 action') context') := by
  have outcome := actions alike
  generalize ran : action context = one at outcome
  generalize ran' : action' context' = other at outcome
  cases outcome with
  | ok adjusted contexts =>
      rw [Outcome.ofEval_of_ok (Eval.reporting_of_ok ran 0),
        Outcome.ofEval_of_ok (Eval.reporting_of_ok ran' 0)]
      exact ⟨contexts, contexts.listing_eq, .inl ⟨_, rfl, congrArg _ adjusted.symm⟩⟩
  | @error halt halt' _ _ halts contexts =>
      rw [Outcome.ofEval_of_error (Eval.reporting_of_error ran 0),
        Outcome.ofEval_of_error (Eval.reporting_of_error ran' 0)]
      refine ⟨contexts, contexts.listing_eq, .inr ?_⟩
      cases halts with
      | tooDeep => exact .inr ⟨rfl, rfl⟩
      | failed fault near =>
          exact .inl ⟨_, _, rfl, rfl, .failed fault near, rfl, rfl, rfl⟩
      | unfinished => exact .inl ⟨_, _, rfl, rfl, .unfinished, rfl, rfl, rfl⟩
      | scopeUnderflow => exact .inl ⟨_, _, rfl, rfl, .scopeUnderflow, rfl, rfl, rfl⟩

/-- The outcome of statements that are entered one after the other. -/
def entering (limits : Limits) (statements : List Tree) (context : Context) : Outcome :=
  .ofEval (Eval.reporting 0
    (Eval.sequence (Eval.tree limits.rounds limits.depth) .null statements)) context

theorem enterWithin_of_block {limits : Limits} {source : String} {statements : List Tree}
    (parsed : treeWithin limits source = .ok (.block statements true 0)) (context : Context) :
    enterWithin limits source context = entering limits statements context := by
  rw [enterWithin, evaluateWithin, parsed]
  rfl

/-- A failure among the first statements is the failure of all. -/
theorem entering_append_of_error {limits : Limits} {trees : List Tree} {context : Context}
    {failure : Failure} (failed : (entering limits trees context).result = .error failure)
    (others : List Tree) :
    entering limits (trees ++ others) context = entering limits trees context := by
  unfold entering at failed ⊢
  rw [Eval.sequence_append]
  cases ran : Eval.sequence (Eval.tree limits.rounds limits.depth) .null trees context with
  | ok value middle =>
      rw [Outcome.ofEval_of_ok (Eval.reporting_of_ok ran 0)] at failed
      cases failed
  | error halt middle =>
      rw [Outcome.ofEval_of_error (Eval.reporting_of_error ran 0),
        Outcome.ofEval_of_error (Eval.reporting_of_error (bind_of_error ran) 0)]

/-- If the first statements succeed, the others are entered after them. -/
theorem entering_append_of_ok {limits : Limits} {trees : List Tree} {context : Context}
    {value : Value} (succeeded : (entering limits trees context).result = .ok value)
    (distance : Nat) (others : List Tree) :
    (displaced distance (entering limits trees context).context.bodies others).Endings
      (fun own => if others.isEmpty then value else own)
      (entering limits others (entering limits trees context).context)
      (entering limits (trees ++ others.map (Tree.relocate (· + distance))) context) := by
  cases ran : Eval.sequence (Eval.tree limits.rounds limits.depth) .null trees context with
  | error halt middle =>
      rw [entering, Outcome.ofEval_of_error (Eval.reporting_of_error ran 0)] at succeeded
      cases succeeded
  | ok result middle =>
      have first : entering limits trees context = ⟨.ok result, middle⟩ :=
        Outcome.ofEval_of_ok (Eval.reporting_of_ok ran 0)
      have rest : entering limits (trees ++ others.map (Tree.relocate (· + distance))) context =
          .ofEval (Eval.reporting 0 (Eval.sequence (Eval.tree limits.rounds limits.depth) result
            (others.map (Tree.relocate (· + distance))))) middle := by
        rw [entering, Eval.sequence_append, Outcome.ofEval, Outcome.ofEval,
          Eval.reporting_bind_of_ok ran]
      rw [first] at succeeded ⊢
      cases succeeded
      rw [rest]
      exact (sequence_displaced _ _ distance value middle.bodies others).endings
        (displaced_refl distance middle others)

/-- **A program can be entered in parts.** Let two texts have trees, and let no name at the end of
the first come before a parenthesis that opens the second. Then the two lines of text have a tree
within a limit that is high enough, and below it only the limit is a reason for having none. The
statements are those of the first text and those of the second, further on by the length of the
first and of the line break.

In every context, if the first text fails, so does the whole, with the same outcome. If it succeeds,
entering the whole is like entering the second text after it: the final contexts agree but for the
place of functions that the second text defines, and both give the same value, or both halt with the
same report but for the place. What is reported at a part of the second text is reported further on,
and what is reported inside a function that was stored before it is reported where it was, as is too
deep a recursion. A second text without statements leaves the value of the first. -/
theorem entered_in_parts (limits : Limits) {first second : String} {tokens tokens' : List Token}
    {root root' : Tree} (read : tokenize first = .ok tokens)
    (read' : tokenize second = .ok tokens') (parsed : treeWithin limits first = .ok root)
    (parsed' : treeWithin limits second = .ok root') (apart : Apart tokens.dropLast tokens') :
    let lines := first ++ "\n" ++ second
    let distance := first.length + 1
    (∃ needed, ∀ limits : Limits,
      treeWithin limits lines = .ok (joined distance root root') ∨
        limits.nesting < needed ∧
          ∃ token, treeWithin limits lines = .error (.parsing (.tooDeep token))) ∧
    ∀ nesting, treeWithin { limits with nesting } lines = .ok (joined distance root root') →
      ∀ context,
        let before := enterWithin limits first context
        let after := enterWithin limits second before.context
        let whole := enterWithin { limits with nesting } lines context
        (∀ failure, before.result = .error failure → whole = before) ∧
        ∀ value, before.result = .ok value →
          (displaced distance before.context.bodies root'.children).Endings
            (fun own => if root'.children.isEmpty then value else own) after whole := by
  intro lines distance
  refine ⟨treeWithin_lines read read' parsed parsed' apart, fun nesting joinedParsed context => ?_⟩
  obtain ⟨trees, rfl⟩ := root_of_treeWithin parsed
  obtain ⟨others, rfl⟩ := root_of_treeWithin parsed'
  simp only [enterWithin_of_block parsed, enterWithin_of_block parsed',
    enterWithin_of_block joinedParsed]
  refine ⟨fun _ failed => entering_append_of_error failed _, fun value succeeded => ?_⟩
  exact entering_append_of_ok succeeded distance others

/-- A name is missing in the second line; in the whole it is found missing six characters later. -/
theorem entered_in_parts_missing_name :
    let limits : Limits := ⟨20, 20, 20⟩
    let before := enterWithin limits "a = 1" Context.fresh
    let after := enterWithin limits "a + c" before.context
    let whole := enterWithin limits "a = 1\na + c" Context.fresh
    let sum := Tree.node ⟨.operator, "+", 2, false⟩
      [.leaf ⟨.identifier, "a", 0, false⟩, .leaf ⟨.identifier, "c", 4, false⟩]
    before.result = .ok .null ∧ before.context.bodies = [] ∧
      (displaced 6 [] [sum]).Endings id after whole ∧
      after.result = .error (.evaluating (.failed ⟨.unsetVariable "c", 4⟩)) ∧
      whole.result = .error (.evaluating (.failed ⟨.unsetVariable "c", 10⟩)) := by
  intro limits before after whole sum
  have read : tokenize "a = 1" = .ok
      [⟨.identifier, "a", 0, false⟩, ⟨.assign, "=", 2, false⟩, ⟨.numeral, "1", 4, false⟩,
        ⟨.endOfInput, "", 5, false⟩] := by
    decide +kernel
  have read' : tokenize "a + c" = .ok
      [⟨.identifier, "a", 0, false⟩, ⟨.operator, "+", 2, false⟩, ⟨.identifier, "c", 4, false⟩,
        ⟨.endOfInput, "", 5, false⟩] := by
    decide +kernel
  have parsed : treeWithin limits "a = 1" = .ok
      (.block [.node ⟨.assign, "=", 2, false⟩
        [.leaf ⟨.identifier, "a", 0, false⟩, .leaf ⟨.numeral, "1", 4, false⟩]] true 0) := by
    decide +kernel
  have parsed' : treeWithin limits "a + c" = .ok (.block [sum] true 0) := by decide +kernel
  have succeeded : before.result = .ok .null := by decide +kernel
  have nothing : before.context.bodies = [] := by decide +kernel
  have parts := entered_in_parts limits read read' parsed parsed' (by decide)
  have both : (displaced 6 before.context.bodies [sum]).Endings id after whole :=
    (parts.2 20 (by decide +kernel) Context.fresh).2 .null succeeded
  rw [nothing] at both
  refine ⟨succeeded, nothing, both, ?_, ?_⟩
  · decide +kernel
  · decide +kernel

end BraceLang
