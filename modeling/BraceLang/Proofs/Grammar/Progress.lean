import BraceLang.Proofs.Grammar.Nesting
import BraceLang.Proofs.Grammar.Simulation

/-!
# Parsers get on

Every parser of the grammar is put together from a few things: giving a result, failing, giving up
at the cursor, looking at it and advancing it (`Stepwise`). So whatever a parser does, and however
it ends, its cursor only moves forward, over tokens of which none ends the input
(`Stepwise.comesTo`). From any place of a token list that is closed by an end of input, it stays at
or before the first end of input from there on, and so inside the list (`Cursor.ComesTo.keeps`).

What a parser reads is a phrase of the grammar, which has at least one token, and what it refuses is
the token at its cursor (`part_outcome`). An operand is the one construct that can be read where it
does not begin: it then takes the token there, unless it is an end of input.
-/

set_option autoImplicit false

namespace BraceLang

/-! ## Cursors that move forward -/

namespace Cursor

/-- The second cursor is further on, and the tokens between the two are no ends of input. -/
def ComesTo (cursor next : Cursor) : Prop :=
  ∃ read, cursor.toList = read ++ next.toList ∧ ∀ token ∈ read, token.kind ≠ .endOfInput

namespace ComesTo

theorem refl (cursor : Cursor) : cursor.ComesTo cursor :=
  ⟨[], rfl, fun _ => nofun⟩

theorem trans {cursor middle next : Cursor} (first : cursor.ComesTo middle)
    (second : middle.ComesTo next) : cursor.ComesTo next := by
  obtain ⟨read, same, inside⟩ := first
  obtain ⟨more, same', inside'⟩ := second
  refine ⟨read ++ more, by rw [same, same', List.append_assoc], fun token member => ?_⟩
  rcases List.mem_append.mp member with earlier | later
  · exact inside token earlier
  · exact inside' token later

theorem advance (cursor : Cursor) : cursor.ComesTo cursor.advance := by
  unfold Cursor.advance
  split
  · exact refl cursor
  · next inside =>
      split
      · exact refl cursor
      · next token rest following =>
          refine ⟨[cursor.current], ?_, ?_⟩
          · rw [toList, following]
            rfl
          · rintro token (_ | ⟨_, ⟨⟩⟩)
            exact inside

end ComesTo

/-- The index of the first end of input of a list from an index on. -/
def firstEnd (tokens : List Token) (place : Nat) : Nat :=
  place + (tokens.drop place).findIdx (·.kind == .endOfInput)

/-- A cursor of a list has the tokens from its position on. -/
theorem drop_position {tokens : List Token} {cursor : Cursor} (within : cursor.toList <:+ tokens) :
    tokens.drop (cursor.position tokens.length) = cursor.toList :=
  (List.suffix_iff_eq_drop.mp within).symm

/-- The token at the position of a cursor of the list is its current one. -/
theorem getElem?_position {tokens : List Token} {cursor : Cursor}
    (within : cursor.toList <:+ tokens) :
    tokens[cursor.position tokens.length]? = some cursor.current := by
  rw [← List.head?_drop, drop_position within]
  rfl

/-- The second cursor is a place of the list, neither before the first cursor nor behind the first
end of input from there on. -/
structure Keeps (tokens : List Token) (cursor next : Cursor) : Prop where
  within : next.toList <:+ tokens
  indexed : tokens[next.position tokens.length]? = some next.current
  forward : cursor.position tokens.length ≤ next.position tokens.length
  bounded : next.position tokens.length ≤ firstEnd tokens (cursor.position tokens.length)

/-- **A cursor that moves forward** stays in its list and does not pass an end of input. -/
theorem ComesTo.keeps {tokens : List Token} {cursor next : Cursor}
    (comes : cursor.ComesTo next) (within : cursor.toList <:+ tokens) :
    Keeps tokens cursor next := by
  obtain ⟨read, same, inside⟩ := comes
  have counted := within.length_le
  have length : cursor.toList.length = read.length + next.toList.length := by
    rw [same, List.length_append]
  have within' : next.toList <:+ tokens := List.IsSuffix.trans ⟨read, same.symm⟩ within
  refine ⟨within', getElem?_position within', ?_, ?_⟩
  · simp only [position, remaining]
    omega
  · have none : read.findIdx (·.kind == .endOfInput) = read.length :=
      List.findIdx_eq_length.mpr fun token member => beq_false_of_ne (inside token member)
    rw [firstEnd, drop_position within, same, List.findIdx_append, if_neg (by omega)]
    simp only [position, remaining]
    omega

/-- A list that is closed by an end of input has one from each place on. -/
theorem firstEnd_lt {tokens : List Token} {last : Token} (closed : last.kind = .endOfInput)
    {place : Nat} (inside : place < (tokens ++ [last]).length) :
    firstEnd (tokens ++ [last]) place < (tokens ++ [last]).length := by
  have found : ((tokens ++ [last]).drop place).findIdx (·.kind == .endOfInput) <
      ((tokens ++ [last]).drop place).length := by
    refine List.findIdx_lt_length_of_exists ⟨last, ?_, by simp [closed]⟩
    rw [List.length_append, List.length_singleton] at inside
    rw [List.drop_append_of_le_length (Nat.le_of_lt_succ inside)]
    exact List.mem_append_right _ List.mem_cons_self
  rw [List.length_drop] at found
  unfold firstEnd
  omega

/-- The cursors of a closed list are the positions before its end. -/
theorem exists_before {tokens : List Token} {last : Token} {cursor : Cursor}
    (within : cursor.toList <:+ tokens ++ [last]) :
    ∃ rest, rest <:+ tokens ∧ cursor = .before last rest := by
  obtain ⟨current, following⟩ := cursor
  rcases List.suffix_concat_iff.mp within with empty | ⟨rest, same, later⟩
  · cases empty
  · refine ⟨rest, later, ?_⟩
    cases rest <;> cases same <;> rfl

/-- A cursor at an end of input stays there. -/
theorem advance_of_end {cursor : Cursor} (ended : cursor.current.kind = .endOfInput) :
    cursor.advance = cursor := by
  rw [advance, if_pos ended]

/-- A cursor that is not at an end of input advances by one token. -/
theorem position_advance {tokens : List Token} {last : Token} (closed : last.kind = .endOfInput)
    {cursor : Cursor} (within : cursor.toList <:+ tokens ++ [last])
    (inside : cursor.current.kind ≠ .endOfInput) :
    cursor.advance.position (tokens ++ [last]).length =
      cursor.position (tokens ++ [last]).length + 1 := by
  obtain ⟨rest, later, rfl⟩ := exists_before within
  cases rest with
  | nil => exact absurd closed inside
  | cons token rest =>
      have counted := later.length_le
      have inside : token.kind ≠ .endOfInput := inside
      rw [advance_before_cons inside]
      simp only [position, remaining_before, List.length_append, List.length_cons,
        List.length_nil] at counted ⊢
      omega

end Cursor

namespace Grammar

open BraceLang.Parser Effect

variable {α β : Type}

/-! ## Parsers that advance step by step -/

/-- A parser that is put together from giving a result, failing for other reasons than its nesting,
giving up at the cursor, looking at the cursor and advancing it. -/
inductive Stepwise : {α : Type} → Parser α → Prop where
  | value {α : Type} (result : α) : Stepwise (pure result)
  | fail {α : Type} {failure : Failure} (plain : ∀ token, failure ≠ .tooDeep token) :
      Stepwise (throw failure : Parser α)
  | giveUp {α : Type} : Stepwise (giveUp : Parser α)
  | look : Stepwise (get : Parser Cursor)
  | advance : Stepwise advance
  | chain {α β : Type} {first : Parser α} {next : α → Parser β} :
      Stepwise first → (∀ result, Stepwise (next result)) → Stepwise (first >>= next)

/-- **A step-by-step parser only moves forward**, whatever its outcome. -/
theorem Stepwise.comesTo {parser : Parser α} (stepwise : Stepwise parser) (cursor : Cursor) :
    cursor.ComesTo (after parser cursor) := by
  induction stepwise generalizing cursor with
  | value result => exact .refl cursor
  | fail plain => exact .refl cursor
  | giveUp => exact .refl cursor
  | look => exact .refl cursor
  | advance => exact .advance cursor
  | @chain α β first next _ _ ihFirst ihNext =>
      have comes := ihFirst cursor
      cases ran : first cursor with
      | ok result middle =>
          rw [after_of_ok ran] at comes
          rw [after, bind_of_ok ran]
          exact comes.trans (ihNext result middle)
      | error failure stopped =>
          rw [after_of_error ran] at comes
          rwa [after_of_error (bind_of_error ran)]

/-- A step-by-step parser that is nested too deeply gives up where it stops. -/
theorem Stepwise.current_of_tooDeep {parser : Parser α} (stepwise : Stepwise parser)
    {cursor stopped : Cursor} {token : Token}
    (deep : parser cursor = .error (.tooDeep token) stopped) : token = stopped.current := by
  induction stepwise generalizing cursor with
  | value result => cases deep
  | fail plain =>
      cases deep
      exact absurd rfl (plain token)
  | giveUp =>
      cases deep
      rfl
  | look => cases deep
  | advance => cases deep
  | @chain α β first next _ _ ihFirst ihNext =>
      cases ran : first cursor with
      | ok result middle =>
          rw [bind_of_ok ran] at deep
          exact ihNext result deep
      | error failure middle =>
          rw [bind_of_error ran] at deep
          cases deep
          exact ihFirst ran

/-- All rules of the grammar keep to steps. -/
theorem stepwise_simulation :
    Simulation id fun _ parser _ => Stepwise parser where
  value _ := .value
  fail _ := .fail
  giveUp _ := .giveUp
  chain first next := .chain first next
  peek := .chain .look fun _ => .value _
  advance := .advance
  bounded _ _ each := .chain (.chain .look fun _ => .value _) each
  lookahead {_ _ kind _ _ _ _ _ _} _ _ one two others := by
    refine .chain (.chain .look fun _ => .value _) fun token => ?_
    split
    · refine .chain (.chain .look fun _ => .value _) fun next => ?_
      split
      · exact one
      · exact two
    · exact others _

/-! ## Parts of the grammar -/

/-- What can be parsed from a place: a whole program or one of the constructs. -/
inductive Part where
  | program
  | construct (form : Construct)

/-- The parser of a part, within a limit on its nesting. -/
def Part.parser (depth : Nat) : Part → Parser Tree
  | program => Parser.program depth
  | construct form => nested depth form

/-- The parts that take a token from the cursor whenever they are parsed: all constructs do, except
for an operand at an end of input. -/
def Part.Takes (cursor : Cursor) : Part → Prop
  | program => False
  | construct form => form = .operand → cursor.current.kind ≠ .endOfInput

theorem Part.stepwise (depth : Nat) (part : Part) : Stepwise (part.parser depth) :=
  match part with
  | program => stepwise_simulation.program rfl depth
  | construct form => stepwise_simulation.nested depth form

variable {last : Token} {start : List Token}

/-- An operand is read in any case where none begins. -/
theorem nested_operand {cursor : Cursor} (other : cursor.current.kind.startsOperand = false)
    (depth : Nat) :
    nested (depth + 1) .operand cursor = .ok (.leaf cursor.current) cursor.advance := by
  show operand (nested depth) cursor = _
  rw [operand_eq, lookahead_apply]
  generalize cursor.current.kind = found at other ⊢
  cases found with
  | numeral | string | identifier | openParen => cases other
  | _ => rfl

/-- The outcome of a parser: a result as `post` says, a failure for its nesting, or the refusal of
the token at the cursor. -/
def Outcome (last : Token) (parser : Parser α) (start : List Token)
    (post : α → List Token → Prop) : Prop :=
  match parser (.before last start) with
  | .ok result cursor => ∃ rest, cursor = .before last rest ∧ post result rest
  | .error failure cursor =>
    failure = .tooDeep cursor.current ∨ ∃ fault, failure = .rejected fault cursor.current

/-- Without unknown operators, a parser that fails in ordinary ways only refuses tokens. -/
theorem outcome_of_parses
    (known : ∀ token ∈ start, token.kind = .operator → (Operator.ofText? token.text).isSome)
    {parser : Parser α} (stepwise : Stepwise parser) {post : α → List Token → Prop}
    {halts : List Token → Prop} (parses : Parses last parser start post)
    (refuses : Refuses last parser start halts) :
    Outcome last parser start post := by
  unfold Parses at parses
  unfold Outcome
  cases ran : parser (.before last start) with
  | ok result cursor =>
      rw [ran] at parses
      obtain ⟨rest, place, -, holds⟩ := parses
      exact ⟨rest, place, holds⟩
  | error failure cursor =>
      rw [ran] at parses
      match failure with
      | .tooDeep token => exact .inl (congrArg Failure.tooDeep (stepwise.current_of_tooDeep ran))
      | .rejected fault token =>
          obtain ⟨_, _, _, _, rfl, _⟩ := refuses fault token cursor ran
          exact .inr ⟨fault, rfl⟩
      | .broken (.unknownOperator text) =>
          obtain ⟨token, member, isOperator, rfl, unknown⟩ := parses
          have isKnown := known token member isOperator
          rw [unknown] at isKnown
          cases isKnown

/-- An operand that is read where none begins takes the token there, if the input does not end. -/
theorem operand_outcome (closed : last.kind = .endOfInput)
    (other : (Cursor.before last start).current.kind.startsOperand = false) (depth : Nat) :
    Outcome last (nested depth .operand) start fun _ rest =>
      (Cursor.before last start).current.kind ≠ .endOfInput → rest.length < start.length := by
  cases depth with
  | zero => exact .inl rfl
  | succ depth =>
      rw [Outcome, nested_operand other]
      by_cases ended : (Cursor.before last start).current.kind = .endOfInput
      · exact ⟨start, Cursor.advance_of_end ended, fun inside => absurd ended inside⟩
      · cases start with
        | nil => exact absurd closed ended
        | cons token rest =>
            exact ⟨rest, Cursor.advance_before_cons ended last rest, fun _ => Nat.lt_succ_self _⟩

/-- **What a part does** where `start` is left: whatever it refuses is at the cursor, and if it gives
a tree, it has taken a token, as far as `Part.Takes` says so. -/
theorem part_outcome (closed : last.kind = .endOfInput)
    (known : ∀ token ∈ start, token.kind = .operator → (Operator.ofText? token.text).isSome)
    (part : Part) (depth : Nat) :
    Outcome last (part.parser depth) start fun _ rest =>
      part.Takes (.before last start) → rest.length < start.length := by
  cases part with
  | program =>
      refine outcome_of_parses known (Part.program.stepwise depth)
        ((program_parses closed depth start).mono ?_) (program_refuses closed depth start)
      exact fun _ _ _ _ takes => takes.elim
  | construct form =>
      by_cases unready : form = .operand ∧
          (Cursor.before last start).current.kind.startsOperand = false
      · obtain ⟨rfl, other⟩ := unready
        simpa [Part.parser, Part.Takes] using operand_outcome closed other depth
      · have ready : form = .operand →
            (Cursor.before last start).current.kind.startsOperand = true := by
          simpa using unready
        exact outcome_of_parses known ((Part.construct form).stepwise depth)
          ((nested_sound closed depth form start ready).mono fun _ _ _ derived _ =>
            derived.length_le)
          (nested_careful closed depth form start ready)

/-- A token list that is not parsed fails at one of its tokens: the limit is met there, or the token
is refused. -/
theorem exists_mem_of_parseWithin (closed : last.kind = .endOfInput) {tokens : List Token}
    (known : ∀ token ∈ tokens, token.kind = .operator → (Operator.ofText? token.text).isSome)
    {depth : Nat} {failure : Failure}
    (failed : parseWithin depth (tokens ++ [last]) = .error failure) :
    ∃ token ∈ tokens ++ [last], failure = .tooDeep token ∨
      ∃ fault, failure = .rejected fault token := by
  have outcome : Outcome last (program depth) tokens _ := part_outcome closed known .program depth
  have stepwise : Stepwise (program depth) := Part.program.stepwise depth
  have comes := stepwise.comesTo (.before last tokens)
  rw [parseWithin_append closed] at failed
  unfold Outcome at outcome
  cases ran : program depth (.before last tokens) with
  | ok root cursor =>
      rw [ran] at failed
      cases failed
  | error reason cursor =>
      rw [ran] at failed outcome
      cases failed
      rw [after_of_error ran] at comes
      have within : (Cursor.before last tokens).toList <:+ tokens ++ [last] := by
        cases tokens <;> exact List.suffix_rfl
      exact ⟨cursor.current, List.mem_of_getElem? (comes.keeps within).indexed, outcome⟩

/-- **Every part can be parsed**, if the limit on its nesting is large enough. -/
theorem part_shallow (closed : last.kind = .endOfInput) (start : List Token) (part : Part)
    {depth : Nat} (enough : 3 * level start + 5 ≤ depth) :
    Shallow last (part.parser depth) start := by
  cases part with
  | program => exact program_shallow closed enough
  | construct form =>
      by_cases unready : form = .operand ∧
          (Cursor.before last start).current.kind.startsOperand = false
      · obtain ⟨rfl, other⟩ := unready
        obtain ⟨depth, rfl⟩ := Nat.exists_eq_add_one_of_ne_zero (Nat.ne_zero_of_lt enough)
        intro token cursor
        rw [Part.parser, nested_operand other]
        exact nofun
      · have ready : form = .operand →
            (Cursor.before last start).current.kind.startsOperand = true := by
          simpa using unready
        refine nested_ample closed depth form start ready ?_
        cases form <;> simp only [reserve] <;> omega

/-- **Parsers get on.** Take any cursor of a token list that is closed by an end of input, and whose
operators are known; there may be more ends of input before. Every part of the grammar can be parsed
from there, with a limit on its nesting that is large enough. Within any limit its parser advances
step by step, each time by one token, and keeps to the list from the cursor to the first end of input
from there on. If it gives a tree, it has taken a token, unless the part is a program or an operand
at an end of input. If it fails, it is nested too deeply or refuses the token at the cursor where it
stopped. -/
theorem parser_progress (tokens : List Token) (last : Token) (closed : last.kind = .endOfInput)
    (known : ∀ token ∈ tokens, token.kind = .operator → (Operator.ofText? token.text).isSome)
    (cursor : Cursor) (within : cursor.toList <:+ tokens ++ [last]) (part : Part) :
    (∃ enough, ∀ depth stopped, enough ≤ depth →
      ∀ token, part.parser depth cursor ≠ .error (.tooDeep token) stopped) ∧
    (cursor.current.kind ≠ .endOfInput →
      cursor.advance.position (tokens ++ [last]).length =
        cursor.position (tokens ++ [last]).length + 1) ∧
    Cursor.firstEnd (tokens ++ [last]) (cursor.position (tokens ++ [last]).length) <
      (tokens ++ [last]).length ∧
    ∀ depth, Stepwise (part.parser depth) ∧
      Cursor.Keeps (tokens ++ [last]) cursor (after (part.parser depth) cursor) ∧
      match part.parser depth cursor with
      | .ok _ stopped => part.Takes cursor →
        cursor.position (tokens ++ [last]).length < stopped.position (tokens ++ [last]).length
      | .error failure stopped =>
        failure = .tooDeep stopped.current ∨
          ∃ fault, failure = .rejected fault stopped.current := by
  have inside : cursor.position (tokens ++ [last]).length < (tokens ++ [last]).length :=
    (List.getElem?_eq_some_iff.mp (Cursor.getElem?_position within)).1
  obtain ⟨start, later, rfl⟩ := Cursor.exists_before within
  refine ⟨⟨3 * level start + 5, fun depth stopped enough token => ?_⟩,
    Cursor.position_advance closed within, Cursor.firstEnd_lt closed inside,
    fun depth => ⟨part.stepwise depth, ((part.stepwise depth).comesTo _).keeps within, ?_⟩⟩
  · exact part_shallow closed start part enough token stopped
  · have outcome := part_outcome closed
      (fun token member => known token (later.subset member)) part depth
    unfold Outcome at outcome
    cases ran : part.parser depth (.before last start) with
    | error failure stopped =>
        rw [ran] at outcome
        exact outcome
    | ok tree stopped =>
        rw [ran] at outcome
        obtain ⟨rest, rfl, shorter⟩ := outcome
        intro takes
        have shorter := shorter takes
        have counted := later.length_le
        simp only [Cursor.position, Cursor.remaining_before, List.length_append,
          List.length_singleton]
        omega

/-- In the tokens of `(1` and of `)`, each with an end of input, the group is refused at the first
end, which is never passed. -/
theorem parser_progress_group :
    let tokens : List Token := [⟨.openParen, "(", 0, false⟩, ⟨.numeral, "1", 1, false⟩,
      ⟨.endOfInput, "", 2, false⟩, ⟨.closeParen, ")", 0, false⟩]
    let last : Token := ⟨.endOfInput, "", 1, false⟩
    let cursor := Cursor.before last tokens
    (∀ token ∈ tokens, token.kind = .operator → (Operator.ofText? token.text).isSome) ∧
      cursor.toList <:+ tokens ++ [last] ∧
      Cursor.firstEnd (tokens ++ [last]) 0 = 2 ∧
      (after (nested 9 .expression) cursor).position 5 ≤ 2 ∧
      ∃ fault stopped, nested 9 .expression cursor =
        .error (.rejected fault stopped.current) stopped := by
  intro tokens last cursor
  have known : ∀ token ∈ tokens, token.kind = .operator →
      (Operator.ofText? token.text).isSome := by decide
  have within : cursor.toList <:+ tokens ++ [last] := List.suffix_rfl
  obtain ⟨-, keeps, failed⟩ :=
    (parser_progress tokens last rfl known cursor within (.construct .expression)).2.2.2 9
  refine ⟨known, within, by decide, keeps.bounded, ?_⟩
  rcases failed with deep | ⟨fault, same⟩
  · cases deep
  · exact ⟨fault, _, congrArg (EStateM.Result.error · _) same⟩

end Grammar

end BraceLang
