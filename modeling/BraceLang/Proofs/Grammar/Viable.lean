import BraceLang.Proofs.Grammar.Following
import BraceLang.Proofs.Grammar.Sorting

/-!
# Beginnings of phrases

Tokens are viable for a phrase if some tokens can be added after them that make them a whole phrase
(`Viable`). A part of a viable list is viable, so for each rule of the grammar it is enough to
complete its last part: the parts before it are whole, and the places after it can be filled.

An expression is completed from the state of its sorting. Every waiting operator has its left
operand, so one more operand makes the expression whole (`Sorted.viable`).
-/

set_option autoImplicit false

namespace BraceLang

namespace Grammar

open BraceLang.Parser

/-- The tokens are the beginning of a whole phrase. -/
def Viable (phrase : Phrase) (read : List Token) : Prop :=
  ∃ more trees, Whole phrase (read ++ more) trees

theorem Whole.viable {phrase : Phrase} {read : List Token} {trees : List Tree}
    (whole : Whole phrase read trees) : Viable phrase read :=
  ⟨[], trees, by rwa [List.append_nil]⟩

/-- What comes before viable tokens and some of them is viable. -/
theorem Viable.of_append {phrase : Phrase} {read more : List Token}
    (viable : Viable phrase (read ++ more)) : Viable phrase read := by
  obtain ⟨others, trees, whole⟩ := viable
  exact ⟨more ++ others, trees, by rwa [← List.append_assoc]⟩

/-- The phrases that have one tree. -/
def Phrase.hasOneTree : Phrase → Bool
  | .statement | .block _ | .terms _ | .operand => true
  | .statements | .arguments | .parameters => false

theorem Derives.exists_tree {phrase : Phrase} {start rest : List Token} {trees : List Tree}
    (derived : Derives phrase start trees rest) (one : phrase.hasOneTree = true) :
    ∃ tree, trees = [tree] := by
  cases derived <;> first | exact ⟨_, rfl⟩ | cases one

theorem Viable.exists_whole {phrase : Phrase} {read : List Token} (viable : Viable phrase read)
    (one : phrase.hasOneTree = true) : ∃ more tree, Whole phrase (read ++ more) [tree] := by
  obtain ⟨more, trees, whole⟩ := viable
  have derived := whole [] (.of_unopened nofun)
  obtain ⟨tree, rfl⟩ := derived.exists_tree one
  exact ⟨more, tree, whole⟩

/-! ## Filling places -/

/-- A token of a kind, for a place that has to be filled. -/
def filler (kind : Kind) : Token :=
  ⟨kind, "", 0, false⟩

theorem filler_kind (kind : Kind) : (filler kind).kind = kind :=
  rfl

theorem whole_filler_block (opensScope : Bool) :
    Whole (.block opensScope) [filler .openBrace, filler .closeBrace]
      [.block [] opensScope 0] :=
  .block (filler_kind .openBrace) .noStatement (filler_kind .closeBrace)

theorem whole_filler_operand : Whole .operand [filler .numeral] [.leaf (filler .numeral)] :=
  .literal (.inl rfl)

/-- A term is whole also as a term of a looser level. -/
theorem Whole.loosen {low high : Nat} {read : List Token} {tree : Tree}
    (whole : Whole (.terms high) read [tree]) (order : low ≤ high) :
    Whole (.terms low) read [tree] :=
  fun rest apart => (whole rest apart).loosen order

theorem whole_filler_expression :
    Whole .expression [filler .numeral] [.leaf (filler .numeral)] :=
  whole_filler_operand.single.loosen (by decide)

theorem viable_nil_block (opensScope : Bool) : Viable (.block opensScope) [] :=
  ⟨_, _, whole_filler_block opensScope⟩

theorem viable_nil_operand : Viable .operand [] :=
  ⟨_, _, whole_filler_operand⟩

theorem viable_nil_expression : Viable .expression [] :=
  ⟨_, _, whole_filler_expression⟩

theorem viable_nil_statement : Viable .statement [] :=
  ⟨_, _, whole_filler_expression.evaluation⟩

theorem viable_nil_parameters : Viable .parameters [] :=
  ⟨_, _, Whole.lastParameter (filler_kind .identifier)⟩

namespace Viable

variable {word named sign opening closing otherwise comma : Token}
  {read condition positive list first : List Token} {tree question branch : Tree}
  {trees : List Tree}

/-! ## Statements -/

theorem evaluation (viable : Viable .expression read) : Viable .statement read := by
  obtain ⟨more, tree, whole⟩ := viable.exists_whole rfl
  exact ⟨more, _, whole.evaluation⟩

theorem scope (viable : Viable (.block true) read) : Viable .statement read := by
  obtain ⟨more, tree, whole⟩ := viable.exists_whole rfl
  exact ⟨more, _, whole.scope⟩

theorem guarded (isWord : word.kind = .ifWord ∨ word.kind = .whileWord)
    (isOpening : opening.kind = .openParen) (asks : Whole .expression condition [question])
    (isClosing : closing.kind = .closeParen) (viable : Viable (.block true) read) :
    Viable .statement (word :: opening :: condition ++ closing :: read) := by
  obtain ⟨more, branch, whole⟩ := viable.exists_whole rfl
  exact ⟨more, _, by simpa using Whole.guarded isWord isOpening asks isClosing whole⟩

theorem alternative (isWord : word.kind = .ifWord) (isOpening : opening.kind = .openParen)
    (asks : Whole .expression condition [question]) (isClosing : closing.kind = .closeParen)
    (runs : Whole (.block true) positive [branch]) (isElse : otherwise.kind = .elseWord)
    (viable : Viable (.block true) read) :
    Viable .statement
      (word :: opening :: condition ++ closing :: positive ++ otherwise :: read) := by
  obtain ⟨more, branch', whole⟩ := viable.exists_whole rfl
  exact ⟨more, _,
    by simpa using Whole.alternative isWord isOpening asks isClosing runs isElse whole⟩

theorem nullaryDefinition (isWord : word.kind = .fnWord) (isName : named.kind = .identifier)
    (isOpening : opening.kind = .openParen) (isClosing : closing.kind = .closeParen)
    (viable : Viable (.block false) read) :
    Viable .statement (word :: named :: opening :: closing :: read) := by
  obtain ⟨more, body, whole⟩ := viable.exists_whole rfl
  exact ⟨more, _,
    by simpa using Whole.nullaryDefinition isWord isName isOpening isClosing whole⟩

theorem definition (isWord : word.kind = .fnWord) (isName : named.kind = .identifier)
    (isOpening : opening.kind = .openParen) (lists : Whole .parameters list trees)
    (isClosing : closing.kind = .closeParen) (viable : Viable (.block false) read) :
    Viable .statement (word :: named :: opening :: list ++ closing :: read) := by
  obtain ⟨more, body, whole⟩ := viable.exists_whole rfl
  exact ⟨more, _,
    by simpa using Whole.definition isWord isName isOpening lists isClosing whole⟩

/-- A list of parameters that is begun can be closed, and the body can be filled. -/
theorem parameters (isWord : word.kind = .fnWord) (isName : named.kind = .identifier)
    (isOpening : opening.kind = .openParen) (viable : Viable .parameters read) :
    Viable .statement (word :: named :: opening :: read) := by
  obtain ⟨more, trees, whole⟩ := viable
  have closes := definition isWord isName isOpening whole (filler_kind .closeParen)
    (viable_nil_block false)
  have arranged : Viable .statement
      ((word :: named :: opening :: read) ++ (more ++ [filler .closeParen])) := by
    simpa using closes
  exact arranged.of_append

theorem assignment (isName : named.kind = .identifier) (isSign : sign.kind = .assign)
    (viable : Viable .expression read) : Viable .statement (named :: sign :: read) := by
  obtain ⟨more, value, whole⟩ := viable.exists_whole rfl
  exact ⟨more, _, Whole.assignment isName isSign whole⟩

theorem block {opensScope : Bool} (isOpening : opening.kind = .openBrace)
    (viable : Viable .statements read) : Viable (.block opensScope) (opening :: read) := by
  obtain ⟨more, trees, whole⟩ := viable
  have closes : Whole (.block opensScope) _ _ :=
    whole.block isOpening (filler_kind .closeBrace)
  exact ⟨more ++ [filler .closeBrace], _, by simpa using closes⟩

/-- A statement that is begun can be the last one. -/
theorem firstStatement (viable : Viable .statement read) : Viable .statements read := by
  obtain ⟨more, tree, whole⟩ := viable.exists_whole rfl
  refine ⟨more, [tree], ?_⟩
  have alone := whole.nextStatement .noStatement fun rest apart => by simpa using apart
  simpa using alone

/-- Statements that are begun after a whole one. -/
theorem nextStatement {ahead : List Token} (one : Whole .statement first [tree])
    (apart : Apart first (read ++ ahead)) (viable : Viable .statements read) :
    Viable .statements (first ++ read) := by
  cases read with
  | nil =>
      -- what would be filled in here need not be apart from the first statement
      rw [List.append_nil]
      exact one.viable.firstStatement
  | cons token read =>
      obtain ⟨more, trees, whole⟩ := viable
      refine ⟨more, tree :: trees, ?_⟩
      rw [List.append_assoc]
      exact one.nextStatement whole fun _ _ => apart

/-! ## Expressions -/

theorem group (isOpening : opening.kind = .openParen) (viable : Viable .expression read) :
    Viable .operand (opening :: read) := by
  obtain ⟨more, tree, whole⟩ := viable.exists_whole rfl
  have closes := whole.group isOpening (filler_kind .closeParen)
  exact ⟨more ++ [filler .closeParen], _, by simpa using closes⟩

theorem call (isName : named.kind = .identifier) (isOpening : opening.kind = .openParen)
    (viable : Viable .arguments read) : Viable .operand (named :: opening :: read) := by
  obtain ⟨more, trees, whole⟩ := viable
  have closes := Whole.call isName isOpening whole (filler_kind .closeParen)
  exact ⟨more ++ [filler .closeParen], _, by simpa using closes⟩

theorem firstArgument (viable : Viable .expression read) : Viable .arguments read := by
  obtain ⟨more, tree, whole⟩ := viable.exists_whole rfl
  exact ⟨more, _, whole.lastArgument⟩

theorem nextArgument (one : Whole .expression first [tree]) (isComma : comma.kind = .comma)
    (viable : Viable .arguments read) : Viable .arguments (first ++ comma :: read) := by
  obtain ⟨more, trees, whole⟩ := viable
  exact ⟨more, _, by simpa using one.nextArgument isComma whole⟩

theorem nextParameter (isName : named.kind = .identifier) (isComma : comma.kind = .comma)
    (viable : Viable .parameters read) : Viable .parameters (named :: comma :: read) := by
  obtain ⟨more, trees, whole⟩ := viable
  exact ⟨more, _, whole.nextParameter isName isComma⟩

end Viable

/-! ## Operators that wait -/

/-- A term that is tighter than all waiting operators makes the expression whole. -/
theorem Suspended.exists_read {origin here : List Token} {waiting : List Waiting}
    {stack : List Tree} (suspended : Suspended origin waiting stack here) :
    ∃ read, origin = read ++ here ∧
      ∀ {level : Nat} {piece : List Token} {tree : Tree}, Whole (.terms level) piece [tree] →
        (∀ top ∈ waiting.head?, top.level < level) → 1 ≤ level →
          ∃ whole, Whole .expression (read ++ piece) [whole] := by
  induction suspended with
  | none => exact ⟨[], rfl, fun whole _ order => ⟨_, whole.loosen order⟩⟩
  | @wait _ _ _ sign operator _ _ _ derived isOperator known increasing ih =>
      obtain ⟨before, rfl, completes⟩ := ih
      obtain ⟨left, rfl, -, one⟩ := derived.exists_read
      refine ⟨before ++ (left ++ [sign]), by simp, fun {level piece tree} whole tight _ => ?_⟩
      have right := whole.loosen (tight _ rfl)
      have order : 1 ≤ operator.level := Nat.not_lt.mp (Operator.not_level_lt_one operator)
      have completed := completes (one.operation isOperator (mem_joining known) right)
        increasing order
      simpa using completed

/-- Where an operand is missing, the beginning of one continues the expression. -/
theorem Sorted.viable {origin here : List Token} {yard : Yard} (sorted : Sorted origin here yard)
    (wants : yard.wantsOperand = true) {before : List Token} (same : origin = before ++ here)
    {read : List Token} (viable : Viable .operand read) : Viable .expression (before ++ read) := by
  rw [Sorted, if_pos wants] at sorted
  obtain ⟨stack, -, suspended⟩ := sorted
  obtain ⟨taken, same', completes⟩ := suspended.exists_read
  obtain rfl : before = taken := List.append_cancel_right (same.symm.trans same')
  obtain ⟨more, tree, whole⟩ := viable.exists_whole rfl
  obtain ⟨root, completed⟩ := completes whole.single suspended.level_lt_four (by decide)
  exact ⟨more, [root], by rwa [List.append_assoc]⟩

end Grammar

end BraceLang
