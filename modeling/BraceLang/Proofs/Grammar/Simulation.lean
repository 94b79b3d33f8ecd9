import BraceLang.Proofs.Grammar.Refusal
import BraceLang.Proofs.Relocation

/-!
# Relations that the rules of the parser keep

The rules of the parser are built from a few parsers: giving a result, failing, looking at a token,
taking it, one parser after another, a repetition with a bound, and the choice by the token after a
name. A relation between parsers that each of these keeps is a `Simulation`, and then every rule
keeps it: related parsers for the constructs inside give related parsers for a construct
(`Simulation.construct`). Related parsers may give results that differ in the offsets of tokens. If
a parser that is nested too deeply is related to everything, so are the parsers within a limit and
within a larger one (`Simulation.nested_deeper`).

Two of the parsers need care. The bound of a repetition is the number of tokens that are left, so it
is different in different lists, but every bound that is large enough does the same (`Stable`). And
the token after a name is seen before the name is taken; but the constructs between which it decides
all take the name (`Takes`).
-/

set_option autoImplicit false

namespace BraceLang

namespace Grammar

open BraceLang.Parser Effect

variable {α β : Type}

/-! ## Bounds that are large enough -/

/-- A parser with a bound on its repetitions that does the same for all bounds that exceed the
number of tokens that are left. -/
def Stable (parser : Nat → Parser α) : Prop :=
  ∀ ⦃last : Token⦄ ⦃start : List Token⦄ ⦃rounds rounds' : Nat⦄, last.kind = .endOfInput →
    start.length < rounds → start.length < rounds' →
      parser rounds (.before last start) = parser rounds' (.before last start)

theorem Stable.bind {parser : Nat → Parser α} (stable : Stable parser) (next : α → Parser β) :
    Stable fun rounds => parser rounds >>= next := by
  intro last start rounds rounds' closed enough enough'
  exact bind_eq_bind (stable closed enough enough') fun _ _ _ => rfl

/-- A parser that takes a token whenever it gives a result. -/
def Progresses (parser : Parser α) : Prop :=
  ∀ ⦃last : Token⦄ ⦃start : List Token⦄ ⦃result : α⦄ ⦃cursor : Cursor⦄, last.kind = .endOfInput →
    parser (.before last start) = .ok result cursor →
      ∃ rest, cursor = .before last rest ∧ rest.length < start.length

theorem progresses_of_parses {parser : Parser α} {post : List Token → α → List Token → Prop}
    (parses : ∀ last start, last.kind = .endOfInput → Parses last parser start (post start))
    (shorter : ∀ {start result rest}, post start result rest → rest.length < start.length) :
    Progresses parser := by
  intro last start result cursor closed ran
  have parsed := parses last start closed
  rw [Parses, ran] at parsed
  obtain ⟨rest, place, -, holds⟩ := parsed
  exact ⟨rest, place, shorter holds⟩

theorem itemsUntil_stable {ended : Parser Bool} {item : Parser α}
    (looks : ∀ last, Looks last ended) (progresses : Progresses item) :
    Stable (itemsUntil ended item) := by
  intro last start rounds rounds' closed enough enough'
  induction rounds generalizing start rounds' with
  | zero => exact absurd enough (Nat.not_lt_zero _)
  | succ rounds ih =>
      obtain ⟨rounds', rfl⟩ := Nat.exists_eq_add_one_of_ne_zero (Nat.ne_zero_of_lt enough')
      refine bind_eq_bind rfl fun isOver cursor looked => ?_
      obtain rfl : cursor = .before last start := by
        rcases looks last start with ⟨_, found⟩ | ⟨_, refused⟩
        · rw [looked] at found
          cases found
          rfl
        · rw [looked] at refused
          cases refused
      cases isOver with
      | true => rfl
      | false =>
          refine bind_eq_bind rfl fun first cursor ran => ?_
          obtain ⟨rest, rfl, shorter⟩ := progresses closed ran
          exact bind_eq_bind (ih (by omega) (by omega)) fun _ _ _ => rfl

theorem separated_stable {item : Parser α} (progresses : Progresses item) :
    Stable (separated item) := by
  intro last start rounds rounds' closed enough enough'
  induction rounds generalizing start rounds' with
  | zero => exact absurd enough (Nat.not_lt_zero _)
  | succ rounds ih =>
      obtain ⟨rounds', rfl⟩ := Nat.exists_eq_add_one_of_ne_zero (Nat.ne_zero_of_lt enough')
      refine bind_eq_bind rfl fun first cursor ran => ?_
      obtain ⟨rest, rfl, shorter⟩ := progresses closed ran
      refine bind_eq_bind rfl fun found cursor checked => ?_
      cases checked
      split
      · next found =>
          obtain ⟨comma, later, rfl, isComma⟩ :=
            exists_cons_of_current closed (by decide) (of_decide_eq_true found)
          rw [List.length_cons] at shorter
          have moved := advance_before_cons (by rw [isComma]; decide) last later
          rw [bind_of_ok moved, bind_of_ok moved]
          exact bind_eq_bind (ih (by omega) (by omega)) fun _ _ _ => rfl
      · rfl

/-- A parser for constructs that is sound and careful, whatever token ends the input. -/
def Reliable (inner : Construct → Parser Tree) : Prop :=
  ∀ last : Token, last.kind = .endOfInput → Sound last inner ∧ Careful last inner

theorem nested_reliable (depth : Nat) : Reliable (nested depth) :=
  fun _ closed => ⟨nested_sound closed depth, nested_careful closed depth⟩

theorem Reliable.progresses {inner : Construct → Parser Tree} (reliable : Reliable inner)
    (form : Construct) (other : form ≠ .operand) : Progresses (inner form) :=
  progresses_of_parses
    (fun last start closed => (reliable last closed).1 form start (absurd · other))
    fun derived => derived.length_le

theorem sortRun_stable {inner : Construct → Parser Tree} (reliable : Reliable inner) (yard : Yard) :
    Stable fun rounds => sortRun inner rounds yard := by
  intro last start rounds rounds' closed enough enough'
  induction rounds generalizing start rounds' yard with
  | zero => exact absurd enough (Nat.not_lt_zero _)
  | succ rounds ih =>
      obtain ⟨rounds', rfl⟩ := Nat.exists_eq_add_one_of_ne_zero (Nat.ne_zero_of_lt enough')
      refine bind_eq_bind rfl fun token cursor looked => ?_
      cases looked
      split
      · next starts =>
          split
          · refine bind_eq_bind rfl fun operand cursor ran => ?_
            have parses := (reliable last closed).1 .operand start fun _ => starts
            rw [Parses, ran] at parses
            obtain ⟨rest, rfl, -, derived⟩ := parses
            have shorter := derived.length_le
            rw [List.length_singleton] at shorter
            exact ih _ (by omega) (by omega)
          · rfl
      · split
        · next found =>
            obtain ⟨sign, rest, rfl, isOperator⟩ :=
              exists_cons_of_current closed (by decide) found
            rw [List.length_cons] at enough enough'
            split
            · rfl
            · cases Operator.ofText? (Cursor.before last (sign :: rest)).current.text with
              | none => rfl
              | some operator =>
                  refine bind_eq_bind rfl fun _ cursor moved => ?_
                  rw [advance_before_cons (by rw [isOperator]; decide)] at moved
                  cases moved
                  exact ih _ (Nat.lt_of_succ_lt_succ enough) (Nat.lt_of_succ_lt_succ enough')
        · rfl

/-! ## The token after a name -/

/-- A parser that takes the name it begins with, also when it refuses a token later. -/
def Takes (parser : Parser α) : Prop :=
  ∀ ⦃last name : Token⦄ ⦃more : List Token⦄, last.kind = .endOfInput → name.kind = .identifier →
    match parser (.before last (name :: more)) with
    | .ok _ cursor | .error (.rejected _ _) cursor =>
      ∃ rest, cursor = .before last rest ∧ rest <:+ more
    | .error _ _ => True

theorem Reliable.takes {inner : Construct → Parser Tree} (reliable : Reliable inner)
    {form : Construct} (begins : takesName form = true) : Takes (inner form) := by
  intro last name more closed isName
  obtain ⟨sound, careful⟩ := reliable last closed
  have ready : form = .operand →
      (Cursor.before last (name :: more)).current.kind.startsOperand = true := by
    intro _
    rw [Cursor.current_before_cons, isName]
    rfl
  have later {rest : List Token} (suffix : rest <:+ name :: more)
      (shorter : rest.length < (name :: more).length) : rest <:+ more := by
    rcases List.suffix_cons_iff.mp suffix with same | suffix
    · rw [same] at shorter
      exact absurd shorter (Nat.lt_irrefl _)
    · exact suffix
  have parses := sound form (name :: more) ready
  unfold Parses at parses
  cases ran : inner form (.before last (name :: more)) with
  | ok tree cursor =>
      rw [ran] at parses
      obtain ⟨rest, rfl, suffix, derived⟩ := parses
      exact ⟨rest, rfl, later suffix derived.length_le⟩
  | error failure cursor =>
      match failure with
      | .tooDeep _ | .broken _ => trivial
      | .rejected fault token =>
          obtain ⟨read, ahead, same, rfl, -, halts⟩ :=
            careful form (name :: more) ready fault token cursor ran
          refine ⟨ahead, rfl, later ⟨read, same.symm⟩ ?_⟩
          have some := List.length_pos_iff.mpr (halts.taken begins isName)
          rw [same, List.length_append]
          omega

/-- The choice by the token after a name. -/
def lookahead (kind : Kind) (chosen plain : Parser α) (other : Kind → Parser α) : Parser α := do
  let token ← peek
  if token.kind = .identifier then
    if (← peekNext).kind = kind then chosen else plain
  else
    other token.kind

theorem lookahead_apply (kind : Kind) (chosen plain : Parser α) (other : Kind → Parser α)
    (cursor : Cursor) :
    lookahead kind chosen plain other cursor =
      if cursor.current.kind = .identifier then
        if cursor.next.kind = kind then chosen cursor else plain cursor
      else other cursor.current.kind cursor := by
  have looked : peek cursor = .ok cursor.current cursor := rfl
  have looked' : peekNext cursor = .ok cursor.next cursor := rfl
  unfold lookahead
  rw [bind_of_ok looked]
  split
  · rw [bind_of_ok looked']
    split <;> rfl
  · rfl

theorem statement_eq (inner : Construct → Parser Tree) :
    statement inner = lookahead .assign (inner .assignment) (inner .expression) fun
      | .ifWord => inner .conditional
      | .whileWord => inner .loop
      | .fnWord => inner .definition
      | .forWord => reject .forLoop
      | .openBrace => inner (.block true)
      | _ => inner .expression := by
  unfold statement lookahead
  refine congrArg (peek >>= ·) (funext fun token => ?_)
  cases token.kind <;> rfl

theorem operand_eq (inner : Construct → Parser Tree) :
    operand inner = lookahead .openParen (inner .call) (advance >>= fun token => pure (.leaf token))
      fun
      | .openParen => do
        let _ ← advance
        let grouped ← inner .expression
        let _ ← expect .closeParen .groupClosing
        return grouped
      | _ => advance >>= fun token => pure (.leaf token) := by
  unfold operand lookahead
  refine congrArg (peek >>= ·) (funext fun token => ?_)
  cases token.kind <;> rfl

theorem advance_takes (rearrange : Token → β) :
    Takes (advance >>= fun token => pure (rearrange token)) := by
  intro last name more closed isName
  rw [bind_of_ok (advance_before_cons (by rw [isName]; decide) last more)]
  exact ⟨more, rfl, List.suffix_rfl⟩

/-! ## Simulations -/

/-- A relation between parsers that is kept by everything the rules are built from. Results are
related by a function from those of the first parser to those of the second. -/
structure Simulation (place : Int → Int)
    (related : {α : Type} → (α → α) → Parser α → Parser α → Prop) : Prop where
  value {α : Type} (view : α → α) (result : α) : related view (pure result) (pure (view result))
  fail {α : Type} (view : α → α) {failure : Failure} (plain : ∀ token, failure ≠ .tooDeep token) :
    related view (throw failure) (throw (failure.relocate place))
  giveUp {α : Type} (view : α → α) : related view giveUp giveUp
  chain {α β : Type} {view : α → α} {view' : β → β} {first first' : Parser α}
    {next next' : α → Parser β} : related view first first' →
      (∀ result, related view' (next result) (next' (view result))) →
        related view' (first >>= next) (first' >>= next')
  peek : related (Token.relocate place) peek peek
  advance : related (Token.relocate place) advance advance
  bounded {α : Type} {view : α → α} {parser parser' : Nat → Parser α} : Stable parser →
    Stable parser' → (∀ rounds, related view (parser rounds) (parser' rounds)) →
      related view (bound >>= parser) (bound >>= parser')
  lookahead {α : Type} {view : α → α} (kind : Kind) {chosen chosen' plain plain' : Parser α}
    {other other' : Kind → Parser α} : Takes chosen → Takes plain → related view chosen chosen' →
      related view plain plain' → (∀ found, related view (other found) (other' found)) →
        related view (lookahead kind chosen plain other) (lookahead kind chosen' plain' other')

namespace Simulation

variable {place : Int → Int} {related : {α : Type} → (α → α) → Parser α → Parser α → Prop}
  (simulation : Simulation place related)
include simulation

/-! ## Single tokens and repetition -/

theorem check (kind : Kind) : related id (check kind) (check kind) :=
  simulation.chain simulation.peek fun _ => simulation.value id _

theorem reject (view : α → α) (fault : Fault) : related view (reject fault) (reject fault) :=
  simulation.chain simulation.peek fun token =>
    @Simulation.fail _ _ simulation _ view (.rejected fault token) fun _ => nofun

theorem require (kind : Kind) {fault : Token → Fault}
    (unmoved : ∀ token, fault (token.relocate place) = fault token) :
    related (Token.relocate place) (require kind fault) (require kind fault) := by
  refine simulation.chain simulation.peek fun token => ?_
  rw [Token.relocate_kind, unmoved]
  split
  · exact simulation.advance
  · exact simulation.reject _ _

theorem consume (kind : Kind) : related (Token.relocate place) (consume kind) (consume kind) :=
  simulation.require kind fun _ => rfl

theorem expect (kind : Kind) (expectation : Expectation) :
    related (Token.relocate place) (expect kind expectation) (expect kind expectation) :=
  simulation.require kind fun _ => rfl

section Repetition

variable {view : α → α} {item item' : Parser α} (each : related view item item')
include each

theorem itemsUntil {ended ended' : Parser Bool} (ends : related id ended ended') (rounds : Nat) :
    related (List.map view) (itemsUntil ended item rounds) (itemsUntil ended' item' rounds) := by
  induction rounds with
  | zero => exact simulation.fail _ fun _ => nofun
  | succ rounds ih =>
      refine simulation.chain ends fun found => ?_
      cases found with
      | true => exact simulation.value (List.map view) []
      | false =>
          exact simulation.chain each fun first => simulation.chain ih fun rest =>
            simulation.value (List.map view) (first :: rest)

theorem separated (rounds : Nat) :
    related (List.map view) (separated item rounds) (separated item' rounds) := by
  induction rounds with
  | zero => exact simulation.fail _ fun _ => nofun
  | succ rounds ih =>
      refine simulation.chain each fun first => simulation.chain (simulation.check .comma)
        fun found => ?_
      cases found with
      | true =>
          exact simulation.chain simulation.advance fun _ => simulation.chain ih fun rest =>
            simulation.value (List.map view) (first :: rest)
      | false => exact simulation.value (List.map view) [first]

theorem listed (progresses : Progresses item) (progresses' : Progresses item') :
    related (List.map view) (listed item) (listed item') := by
  refine simulation.chain (simulation.check .closeParen) fun found => ?_
  cases found with
  | true => exact simulation.value (List.map view) []
  | false =>
      exact simulation.bounded (separated_stable progresses) (separated_stable progresses')
        (simulation.separated each)

end Repetition

/-! ## Rules -/

section Rules

variable {inner inner' : Construct → Parser Tree} (reliable : Reliable inner)
  (reliable' : Reliable inner')
  (inside : ∀ form, related (Tree.relocate place) (inner form) (inner' form))

/-- The tree of a node that is put together from moved parts. -/
theorem node (token : Token) (children : List Tree) :
    related (Tree.relocate place) (pure (.node token children))
      (pure (.node (token.relocate place) (children.map (Tree.relocate place)))) := by
  rw [← Tree.relocate_node]
  exact simulation.value _ _

include reliable inside

theorem statement :
    related (Tree.relocate place) (statement inner) (statement inner') := by
  rw [statement_eq, statement_eq]
  refine simulation.lookahead .assign (reliable.takes rfl) (reliable.takes rfl)
    (inside .assignment) (inside .expression) fun found => ?_
  cases found with
  | ifWord => exact inside .conditional
  | whileWord => exact inside .loop
  | fnWord => exact inside .definition
  | forWord => exact simulation.reject _ _
  | openBrace => exact inside (.block true)
  | _ => exact inside .expression

omit reliable in
theorem conditional :
    related (Tree.relocate place) (conditional inner) (conditional inner') := by
  refine simulation.chain (simulation.consume _) fun word => ?_
  refine simulation.chain (simulation.expect _ _) fun _ => ?_
  refine simulation.chain (inside .expression) fun question => ?_
  refine simulation.chain (simulation.expect _ _) fun _ => ?_
  refine simulation.chain (inside (.block true)) fun positive => ?_
  refine simulation.chain (simulation.check .elseWord) fun found => ?_
  cases found with
  | true =>
      refine simulation.chain simulation.advance fun _ => ?_
      refine simulation.chain (inside (.block true)) fun negative => ?_
      exact simulation.node word [question, positive, negative]
  | false => exact simulation.node word [question, positive]

omit reliable in
theorem loop : related (Tree.relocate place) (loop inner) (loop inner') := by
  refine simulation.chain (simulation.consume _) fun word => ?_
  refine simulation.chain (simulation.expect _ _) fun _ => ?_
  refine simulation.chain (inside .expression) fun question => ?_
  refine simulation.chain (simulation.expect _ _) fun _ => ?_
  refine simulation.chain (inside (.block true)) fun body => ?_
  exact simulation.node word [question, body]

omit reliable in
theorem definition : related (Tree.relocate place) (definition inner) (definition inner') := by
  have named : Progresses (Parser.expect .identifier .parameterName) := by
    refine progresses_of_parses (fun last start closed => expect_parses closed (by decide) _) ?_
    rintro start token rest ⟨rfl, -⟩
    exact Nat.lt_succ_self _
  refine simulation.chain (simulation.consume _) fun word => ?_
  refine simulation.chain (simulation.expect _ _) fun name => ?_
  refine simulation.chain (simulation.expect _ _) fun _ => ?_
  refine simulation.chain (simulation.listed (simulation.expect _ _) named named)
    fun parameters => ?_
  refine simulation.chain (simulation.expect _ _) fun _ => ?_
  refine simulation.chain (inside (.block false)) fun body => ?_
  have made := simulation.node word (.leaf name :: parameters.map Tree.leaf ++ [body])
  simpa [Tree.relocate_leaf, Function.comp_def] using made

omit reliable in
theorem assignment : related (Tree.relocate place) (assignment inner) (assignment inner') := by
  refine simulation.chain (simulation.consume _) fun name => ?_
  refine simulation.chain (simulation.consume _) fun sign => ?_
  refine simulation.chain (inside .expression) fun value => ?_
  have made := simulation.node sign [.leaf name, value]
  simpa [Tree.relocate_leaf] using made

omit reliable inside in
theorem blockOver : related id blockOver blockOver := by
  refine simulation.chain (simulation.check .closeBrace) fun found => ?_
  cases found with
  | true => exact simulation.value id true
  | false =>
      refine simulation.chain (simulation.check .endOfInput) fun found => ?_
      cases found with
      | true => exact simulation.reject _ _
      | false => exact simulation.value id false

include reliable' in
theorem block (opensScope : Bool) :
    related (Tree.relocate place) (block inner opensScope) (block inner' opensScope) := by
  refine simulation.chain (simulation.require _ fun _ => rfl) fun opening => ?_
  refine simulation.bounded
    ((itemsUntil_stable blockOver_looks (reliable.progresses .statement nofun)).bind _)
    ((itemsUntil_stable blockOver_looks (reliable'.progresses .statement nofun)).bind _)
    fun rounds => ?_
  refine simulation.chain (simulation.itemsUntil (inside .statement) simulation.blockOver rounds)
    fun statements => ?_
  refine simulation.chain (simulation.consume _) fun _ => ?_
  have made := simulation.value (Tree.relocate place) (.block statements opensScope opening.offset)
  rwa [Tree.relocate_block] at made

omit reliable in
theorem sortRun (rounds : Nat) (yard : Yard) :
    related (Yard.relocate place) (sortRun inner rounds yard)
      (sortRun inner' rounds (yard.relocate place)) := by
  induction rounds generalizing yard with
  | zero => exact simulation.fail _ fun _ => nofun
  | succ rounds ih =>
      refine simulation.chain simulation.peek fun token => ?_
      rw [Token.relocate_kind, Token.relocate_text]
      split
      · show related _ (if yard.wantsOperand = true then _ else _)
          (if yard.wantsOperand = true then _ else _)
        split
        · exact simulation.chain (inside .operand) fun operand => ih (yard.operand operand)
        · exact simulation.value _ yard
      · split
        · show related _ (if yard.wantsOperand = true then _ else _)
            (if yard.wantsOperand = true then _ else _)
          split
          · exact simulation.reject _ _
          · split
            · exact simulation.fail _ fun _ => nofun
            · refine simulation.chain simulation.advance fun _ => ?_
              rw [Yard.operator_relocate]
              exact ih _
        · exact simulation.value _ yard

omit reliable inside in
theorem resolve (start : Token) (yard : Yard) :
    related (Tree.relocate place) (resolve start yard)
      (resolve (start.relocate place) (yard.relocate place)) := by
  unfold Parser.resolve
  rw [Yard.postfixItems_relocate, foldPostfix_relocate]
  have plain (failure : Failure) (failed : foldPostfix yard.postfixItems start = .error failure)
      (token : Token) : failure ≠ .tooDeep token := by
    rintro rfl
    exact foldPostfix_ne_tooDeep _ start token failed
  generalize foldPostfix yard.postfixItems start = folded at plain
  obtain ⟨output, waiting, wantsOperand⟩ := yard
  cases waiting with
  | nil =>
      cases folded with
      | ok tree => exact simulation.value _ tree
      | error failure => exact simulation.fail _ (plain failure rfl)
  | cons top waiting =>
      cases wantsOperand with
      | true => exact simulation.reject _ _
      | false =>
          cases folded with
          | ok tree => exact simulation.value _ tree
          | error failure => exact simulation.fail _ (plain failure rfl)

include reliable' in
theorem expression : related (Tree.relocate place) (expression inner) (expression inner') := by
  refine simulation.chain simulation.peek fun start => ?_
  refine simulation.bounded ((sortRun_stable reliable _).bind _)
    ((sortRun_stable reliable' _).bind _) fun rounds => ?_
  exact simulation.chain (simulation.sortRun inside rounds .empty) (simulation.resolve start)

theorem operand : related (Tree.relocate place) (operand inner) (operand inner') := by
  have leaf : related (Tree.relocate place) (Parser.advance >>= fun token => pure (.leaf token))
      (Parser.advance >>= fun token => pure (.leaf token)) := by
    refine simulation.chain simulation.advance fun token => ?_
    rw [← Tree.relocate_leaf]
    exact simulation.value _ _
  rw [operand_eq, operand_eq]
  refine simulation.lookahead .openParen (reliable.takes rfl) (advance_takes _) (inside .call) leaf
    fun found => ?_
  cases found with
  | openParen =>
      refine simulation.chain simulation.advance fun _ => ?_
      refine simulation.chain (inside .expression) fun grouped => ?_
      exact simulation.chain (simulation.expect _ _) fun _ => simulation.value _ grouped
  | _ => exact leaf

include reliable' in
theorem call : related (Tree.relocate place) (call inner) (call inner') := by
  refine simulation.chain (simulation.consume _) fun name => ?_
  refine simulation.chain (simulation.consume _) fun _ => ?_
  refine simulation.chain (simulation.listed (inside .expression) (reliable.progresses _ nofun)
    (reliable'.progresses _ nofun)) fun arguments => ?_
  refine simulation.chain (simulation.expect _ _) fun _ => ?_
  exact simulation.node ⟨.call, name.text, name.offset, false⟩ arguments

include reliable' in
/-- **Every rule keeps a simulation.** Related parsers for the constructs inside a construct give
related parsers for the construct. -/
theorem construct (form : Construct) :
    related (Tree.relocate place) (construct inner form) (construct inner' form) := by
  cases form with
  | statement => exact simulation.statement reliable inside
  | conditional => exact simulation.conditional inside
  | loop => exact simulation.loop inside
  | definition => exact simulation.definition inside
  | assignment => exact simulation.assignment inside
  | block opensScope => exact simulation.block reliable reliable' inside opensScope
  | expression => exact simulation.expression reliable reliable' inside
  | operand => exact simulation.operand reliable inside
  | call => exact simulation.call reliable reliable' inside

end Rules

/-- The parser of a construct is related to itself, at every depth. -/
theorem nested (depth : Nat) (form : Construct) :
    related (Tree.relocate place) (nested depth form) (nested depth form) := by
  induction depth generalizing form with
  | zero => exact simulation.giveUp _
  | succ depth ih =>
      exact simulation.construct (nested_reliable depth) (nested_reliable depth) ih form

/-- If a parser that is nested too deeply is related to all parsers, the parser of a construct
within a limit is related to the one within any larger limit. -/
theorem nested_deeper
    (escape : ∀ parser : Parser Tree, related (Tree.relocate place) Parser.giveUp parser)
    (depth more : Nat) (form : Construct) :
    related (Tree.relocate place) (Parser.nested depth form)
      (Parser.nested (depth + more) form) := by
  induction depth generalizing form with
  | zero => exact escape _
  | succ depth ih =>
      rw [Nat.succ_add]
      exact simulation.construct (nested_reliable depth) (nested_reliable (depth + more)) ih form

/-- Parsers of programs are related if their parsers of statements are. The block of a program
always begins at zero. -/
theorem program_of_statement (fixed : place 0 = 0) {depth depth' : Nat}
    (inside : related (Tree.relocate place) (Parser.nested depth .statement)
      (Parser.nested depth' .statement)) :
    related (Tree.relocate place) (Parser.program depth) (Parser.program depth') := by
  have stable (limit : Nat) := itemsUntil_stable (check_looks · .endOfInput)
    ((nested_reliable limit).progresses .statement nofun)
  refine simulation.bounded ((stable depth).bind _) ((stable depth').bind _) fun rounds => ?_
  refine simulation.chain (simulation.itemsUntil inside (simulation.check .endOfInput) rounds)
    fun statements => ?_
  have made := simulation.value (Tree.relocate place) (.block statements true 0)
  rwa [Tree.relocate_block, fixed] at made

/-- The parser of programs is related to itself, at every depth. -/
theorem program (fixed : place 0 = 0) (depth : Nat) :
    related (Tree.relocate place) (program depth) (program depth) :=
  simulation.program_of_statement fixed (simulation.nested depth .statement)

end Simulation

end Grammar

end BraceLang
