import BraceLang.Proofs.Grammar.Position
import BraceLang.Proofs.Grammar.Sorting

/-!
# The parser reads all of the grammar

The parser reads every phrase of the grammar and gives its tree, provided that the limit on nested
constructs is large enough; with a smaller limit it may only fail because of the limit.

`Reaches last parser start next rest` compares two parsers that depend on the limit: the first one at
`start` does the same as the second one at `rest`, but for limits below some number it may fail as
nested too deeply. Reaching a parser that only gives a result is accepting (`Accepts`).

What follows a phrase decides whether the parser stops after it. A phrase is followed by a token
that cannot continue it (`Settled`), because no statement begins with an operator, an equals sign or
`else`. With that, `Complete` says for each phrase how the parser reads it, and `Derives.complete`
proves it along the derivation.
-/

set_option autoImplicit false

namespace BraceLang

namespace Grammar

open BraceLang.Parser Effect

variable {α β : Type} {last : Token}

/-! ## Limits that are large enough -/

/-- Where `start` is left, `parser` does what `next` does where `rest` is left. Below some limit it
may also fail as nested too deeply. -/
def Reaches (last : Token) (parser : Nat → Parser α) (start : List Token) (next : Nat → Parser α)
    (rest : List Token) : Prop :=
  ∃ needed, ∀ depth,
    parser depth (.before last start) = next depth (.before last rest) ∨
      depth < needed ∧
        ∃ token cursor, parser depth (.before last start) = .error (.tooDeep token) cursor

/-- Where `start` is left, `parser` gives a result and leaves `rest`. -/
abbrev Accepts (last : Token) (parser : Nat → Parser α) (start : List Token) (result : α)
    (rest : List Token) : Prop :=
  Reaches last parser start (fun _ => pure result) rest

theorem Reaches.of_eq {parser next : Nat → Parser α} {start rest : List Token}
    (same : ∀ depth, parser depth (.before last start) = next depth (.before last rest)) :
    Reaches last parser start next rest :=
  ⟨0, fun depth => .inl (same depth)⟩

theorem Reaches.trans {parser middle next : Nat → Parser α} {start between rest : List Token}
    (first : Reaches last parser start middle between)
    (second : Reaches last middle between next rest) : Reaches last parser start next rest := by
  obtain ⟨needed, first⟩ := first
  obtain ⟨needed', second⟩ := second
  refine ⟨max needed needed', fun depth => ?_⟩
  rcases first depth with same | ⟨small, failed⟩
  · rcases second depth with same' | ⟨small, token, cursor, failed⟩
    · exact .inl (same.trans same')
    · exact .inr ⟨Nat.lt_of_lt_of_le small (Nat.le_max_right _ _), token, cursor,
        same.trans failed⟩
  · exact .inr ⟨Nat.lt_of_lt_of_le small (Nat.le_max_left _ _), failed⟩

/-- After a parser that accepts comes what is to be done with its result. -/
theorem Reaches.step {parser : Nat → Parser α} {next : Nat → α → Parser β}
    {target : Nat → Parser β} {start middle rest : List Token} {result : α}
    (first : Accepts last parser start result middle)
    (second : Reaches last (fun depth => next depth result) middle target rest) :
    Reaches last (fun depth => parser depth >>= next depth) start target rest := by
  refine Reaches.trans ?_ second
  obtain ⟨needed, first⟩ := first
  refine ⟨needed, fun depth => ?_⟩
  rcases first depth with accepted | ⟨small, token, cursor, failed⟩
  · exact .inl (bind_of_ok accepted)
  · exact .inr ⟨small, token, cursor, bind_of_error failed⟩

theorem Accepts.of_ok {parser : Parser α} {start rest : List Token} {result : α}
    (ran : parser (.before last start) = .ok result (.before last rest)) :
    Accepts last (fun _ => parser) start result rest :=
  .of_eq fun _ => ran

theorem accepts_pure (result : α) (rest : List Token) :
    Accepts last (fun _ => pure result) rest result rest :=
  .of_eq fun _ => rfl

/-- A construct that is accepted in terms of its parts is accepted one level up. -/
theorem Accepts.nested {form : Construct} {start rest : List Token} {tree : Tree}
    (accepts : Accepts last (fun depth => construct (nested depth) form) start tree rest) :
    Accepts last (fun depth => nested depth form) start tree rest := by
  obtain ⟨needed, accepts⟩ := accepts
  refine ⟨needed + 1, fun depth => ?_⟩
  cases depth with
  | zero => exact .inr ⟨Nat.succ_pos _, _, _, rfl⟩
  | succ depth =>
      rcases accepts depth with accepted | ⟨small, failed⟩
      · exact .inl accepted
      · exact .inr ⟨Nat.succ_lt_succ small, failed⟩

theorem accepts_require {token : Token} {kind : Kind} (found : token.kind = kind)
    (inside : kind ≠ .endOfInput) (fault : Token → Fault) (rest : List Token) :
    Accepts last (fun _ => require kind fault) (token :: rest) token rest :=
  .of_ok (require_before_cons found inside fault last rest)

theorem accepts_advance {token : Token} (inside : token.kind ≠ .endOfInput) (rest : List Token) :
    Accepts last (fun _ => advance) (token :: rest) token rest :=
  .of_ok (advance_before_cons inside last rest)

theorem accepts_check_true {token : Token} {kind : Kind} (found : token.kind = kind)
    (rest : List Token) :
    Accepts last (fun _ => check kind) (token :: rest) true (token :: rest) := by
  refine .of_ok ?_
  rw [check_before]
  have current : (Cursor.before last (token :: rest)).current.kind = kind := found
  rw [decide_eq_true current]

theorem accepts_check_false {kind : Kind} {start : List Token}
    (other : (Cursor.before last start).current.kind ≠ kind) :
    Accepts last (fun _ => check kind) start false start := by
  refine .of_ok ?_
  rw [check_before, decide_eq_false other]

theorem accepts_bound (start : List Token) :
    Accepts last (fun _ => bound) start (start.length + 1) start :=
  .of_ok (bound_before last start)

/-! ## What may follow -/

/-- The first token, if there is one, continues no statement. -/
def Settled (tokens : List Token) : Prop :=
  ∀ token ∈ tokens.head?,
    token.kind ≠ .operator ∧ token.kind ≠ .assign ∧ token.kind ≠ .elseWord

theorem settled_cons {token : Token} {tokens : List Token} (operator : token.kind ≠ .operator)
    (assign : token.kind ≠ .assign) (otherwise : token.kind ≠ .elseWord) :
    Settled (token :: tokens) := by
  intro other member
  cases member
  exact ⟨operator, assign, otherwise⟩

theorem settled_of_kind {token : Token} {kind : Kind} {tokens : List Token}
    (found : token.kind = kind)
    (other : kind ≠ .operator ∧ kind ≠ .assign ∧ kind ≠ .elseWord) : Settled (token :: tokens) := by
  rw [← found] at other
  exact settled_cons other.1 other.2.1 other.2.2

/-- The token after a phrase is of no kind that would continue it, also at the end. -/
theorem Settled.current_ne {tokens : List Token} (settled : Settled tokens)
    (closed : last.kind = .endOfInput) :
    (Cursor.before last tokens).current.kind ≠ .operator ∧
      (Cursor.before last tokens).current.kind ≠ .assign ∧
      (Cursor.before last tokens).current.kind ≠ .elseWord := by
  cases tokens with
  | nil =>
      show last.kind ≠ .operator ∧ last.kind ≠ .assign ∧ last.kind ≠ .elseWord
      rw [closed]
      decide
  | cons token tokens => exact settled token rfl

/-- More statements begin with a token that continues no statement. -/
theorem Derives.settled {start rest : List Token} {trees : List Tree}
    (derived : Derives .statements start trees rest) (settled : Settled rest) : Settled start := by
  cases trees with
  | nil =>
      cases derived
      exact settled
  | cons tree trees =>
      obtain ⟨token, more, rfl, starts⟩ := derived.first (List.cons_ne_nil _ _)
      refine settled_cons ?_ ?_ ?_ <;> intro same <;> rw [same] at starts <;> cases starts

/-! ## Statements -/

/-- The construct that is read for a statement, by the kinds of the first two tokens. -/
def choice (first second : Kind) : Construct :=
  match first with
  | .ifWord => .conditional
  | .whileWord => .loop
  | .fnWord => .definition
  | .openBrace => .block true
  | .identifier => if second = .assign then .assignment else .expression
  | _ => .expression

theorem statement_before {token : Token} (notFor : token.kind ≠ .forWord) (more : List Token)
    (inner : Construct → Parser Tree) :
    Parser.statement inner (.before last (token :: more)) =
      inner (choice token.kind (Cursor.before last more).current.kind)
        (.before last (token :: more)) := by
  unfold Parser.statement
  rw [bind_of_ok (peek_before last (token :: more))]
  have current : (Cursor.before last (token :: more)).current.kind = token.kind := rfl
  rw [current]
  cases first : token.kind with
  | identifier =>
      simp only [choice]
      rw [bind_of_ok (peekNext_before_cons last token more)]
      split <;> rfl
  | forWord => exact absurd first notFor
  | _ => rfl

/-- A statement is read as the construct that its first two tokens choose. -/
theorem accepts_statement {token : Token} {more rest : List Token} {tree : Tree}
    (notFor : token.kind ≠ .forWord)
    (accepts : Accepts last
      (fun depth => nested depth (choice token.kind (Cursor.before last more).current.kind))
      (token :: more) tree rest) :
    Accepts last (fun depth => nested depth .statement) (token :: more) tree rest :=
  Accepts.nested ((Reaches.of_eq fun depth => statement_before notFor more (nested depth)).trans
    accepts)

section Rules

variable {word name sign opening closing otherwise : Token} {start middle later rest : List Token}

theorem accepts_conditional (closed : last.kind = .endOfInput) {condition positive : Tree}
    (isWord : word.kind = .ifWord) (isOpening : opening.kind = .openParen)
    (first : Accepts last (fun depth => nested depth .expression) start condition
      (closing :: middle))
    (isClosing : closing.kind = .closeParen)
    (second : Accepts last (fun depth => nested depth (.block true)) middle positive rest)
    (settled : Settled rest) :
    Accepts last (fun depth => conditional (nested depth)) (word :: opening :: start)
      (.node word [condition, positive]) rest := by
  apply Reaches.step (accepts_require isWord (by decide) _ _)
  apply Reaches.step (accepts_require isOpening (by decide) _ _)
  apply Reaches.step first
  apply Reaches.step (accepts_require isClosing (by decide) _ _)
  apply Reaches.step second
  apply Reaches.step (accepts_check_false (settled.current_ne closed).2.2)
  exact accepts_pure _ _

theorem accepts_alternative {condition positive negative : Tree}
    (isWord : word.kind = .ifWord) (isOpening : opening.kind = .openParen)
    (first : Accepts last (fun depth => nested depth .expression) start condition
      (closing :: middle))
    (isClosing : closing.kind = .closeParen)
    (second : Accepts last (fun depth => nested depth (.block true)) middle positive
      (otherwise :: later))
    (isElse : otherwise.kind = .elseWord)
    (third : Accepts last (fun depth => nested depth (.block true)) later negative rest) :
    Accepts last (fun depth => conditional (nested depth)) (word :: opening :: start)
      (.node word [condition, positive, negative]) rest := by
  apply Reaches.step (accepts_require isWord (by decide) _ _)
  apply Reaches.step (accepts_require isOpening (by decide) _ _)
  apply Reaches.step first
  apply Reaches.step (accepts_require isClosing (by decide) _ _)
  apply Reaches.step second
  apply Reaches.step (accepts_check_true isElse _)
  apply Reaches.step (accepts_advance (by rw [isElse]; decide) _)
  apply Reaches.step third
  exact accepts_pure _ _

theorem accepts_loop {condition body : Tree} (isWord : word.kind = .whileWord)
    (isOpening : opening.kind = .openParen)
    (first : Accepts last (fun depth => nested depth .expression) start condition
      (closing :: middle))
    (isClosing : closing.kind = .closeParen)
    (second : Accepts last (fun depth => nested depth (.block true)) middle body rest) :
    Accepts last (fun depth => loop (nested depth)) (word :: opening :: start)
      (.node word [condition, body]) rest := by
  apply Reaches.step (accepts_require isWord (by decide) _ _)
  apply Reaches.step (accepts_require isOpening (by decide) _ _)
  apply Reaches.step first
  apply Reaches.step (accepts_require isClosing (by decide) _ _)
  apply Reaches.step second
  exact accepts_pure _ _

theorem accepts_definition (names : List Token) {body : Tree} (isWord : word.kind = .fnWord)
    (isName : name.kind = .identifier) (isOpening : opening.kind = .openParen)
    (list : Accepts last (fun _ => listed (expect .identifier .parameterName)) start names
      (closing :: middle))
    (isClosing : closing.kind = .closeParen)
    (run : Accepts last (fun depth => nested depth (.block false)) middle body rest) :
    Accepts last (fun depth => definition (nested depth)) (word :: name :: opening :: start)
      (.node word (.leaf name :: names.map Tree.leaf ++ [body])) rest := by
  apply Reaches.step (accepts_require isWord (by decide) _ _)
  apply Reaches.step (accepts_require isName (by decide) _ _)
  apply Reaches.step (accepts_require isOpening (by decide) _ _)
  apply Reaches.step list
  apply Reaches.step (accepts_require isClosing (by decide) _ _)
  apply Reaches.step run
  exact accepts_pure _ _

theorem accepts_assignment {value : Tree} (isName : name.kind = .identifier)
    (isSign : sign.kind = .assign)
    (source : Accepts last (fun depth => nested depth .expression) start value rest) :
    Accepts last (fun depth => assignment (nested depth)) (name :: sign :: start)
      (.node sign [.leaf name, value]) rest := by
  apply Reaches.step (accepts_require isName (by decide) _ _)
  apply Reaches.step (accepts_require isSign (by decide) _ _)
  apply Reaches.step source
  exact accepts_pure _ _

theorem accepts_block {opensScope : Bool} {trees : List Tree} (isOpening : opening.kind = .openBrace)
    (list : Accepts last
      (fun depth => itemsUntil blockOver (nested depth .statement) (start.length + 1)) start trees
      (closing :: rest))
    (isClosing : closing.kind = .closeBrace) :
    Accepts last (fun depth => block (nested depth) opensScope) (opening :: start)
      (.block trees opensScope opening.offset) rest := by
  apply Reaches.step (accepts_require isOpening (by decide) _ _)
  apply Reaches.step (accepts_bound _)
  apply Reaches.step list
  apply Reaches.step (accepts_require isClosing (by decide) _ _)
  exact accepts_pure _ _

theorem accepts_group {tree : Tree} (isOpening : opening.kind = .openParen)
    (inside : Accepts last (fun depth => nested depth .expression) start tree (closing :: rest))
    (isClosing : closing.kind = .closeParen) :
    Accepts last (fun depth => operand (nested depth)) (opening :: start) tree rest := by
  apply Reaches.step (.of_ok (peek_before _ _))
  have current : (Cursor.before last (opening :: start)).current.kind = .openParen := isOpening
  simp only [current]
  apply Reaches.step (accepts_advance (by rw [isOpening]; decide) _)
  apply Reaches.step inside
  apply Reaches.step (accepts_require isClosing (by decide) _ _)
  exact accepts_pure _ _

theorem accepts_call {trees : List Tree} (isName : name.kind = .identifier)
    (isOpening : opening.kind = .openParen)
    (list : Accepts last (fun depth => listed (nested depth .expression)) start trees
      (closing :: rest))
    (isClosing : closing.kind = .closeParen) :
    Accepts last (fun depth => call (nested depth)) (name :: opening :: start)
      (.node ⟨.call, name.text, name.offset, false⟩ trees) rest := by
  apply Reaches.step (accepts_require isName (by decide) _ _)
  apply Reaches.step (accepts_require isOpening (by decide) _ _)
  apply Reaches.step list
  apply Reaches.step (accepts_require isClosing (by decide) _ _)
  exact accepts_pure _ _

end Rules

/-! ## Lists -/

section Lists

variable {start middle rest : List Token} {rounds : Nat}

theorem accepts_itemsUntil_nil {ended : Parser Bool} {item : Nat → Parser α}
    (stops : ended (.before last rest) = .ok true (.before last rest)) :
    Accepts last (fun depth => itemsUntil ended (item depth) (rounds + 1)) rest [] rest :=
  .step (.of_ok stops) (accepts_pure _ _)

theorem accepts_itemsUntil_cons {ended : Parser Bool} {item : Nat → Parser α} {value : α}
    {values : List α} (going : ended (.before last start) = .ok false (.before last start))
    (first : Accepts last item start value middle)
    (others : Accepts last (fun depth => itemsUntil ended (item depth) rounds) middle values rest) :
    Accepts last (fun depth => itemsUntil ended (item depth) (rounds + 1)) start (value :: values)
      rest := by
  apply Reaches.step (.of_ok going)
  apply Reaches.step first
  apply Reaches.step others
  exact accepts_pure _ _

theorem accepts_separated_last {item : Nat → Parser α} {value : α}
    (first : Accepts last item start value rest)
    (noComma : (Cursor.before last rest).current.kind ≠ .comma) :
    Accepts last (fun depth => separated (item depth) (rounds + 1)) start [value] rest := by
  apply Reaches.step first
  apply Reaches.step (accepts_check_false noComma)
  exact accepts_pure _ _

theorem accepts_separated_next {item : Nat → Parser α} {value : α} {values : List α}
    {comma : Token} (first : Accepts last item start value (comma :: middle))
    (isComma : comma.kind = .comma)
    (others : Accepts last (fun depth => separated (item depth) rounds) middle values rest) :
    Accepts last (fun depth => separated (item depth) (rounds + 1)) start (value :: values)
      rest := by
  apply Reaches.step first
  apply Reaches.step (accepts_check_true isComma _)
  apply Reaches.step (accepts_advance (by rw [isComma]; decide) _)
  apply Reaches.step others
  exact accepts_pure _ _

theorem accepts_listed_nil {item : Nat → Parser α} {closing : Token}
    (isClosing : closing.kind = .closeParen) :
    Accepts last (fun depth => listed (item depth)) (closing :: rest) [] (closing :: rest) := by
  apply Reaches.step (accepts_check_true isClosing _)
  exact accepts_pure _ _

theorem accepts_listed {item : Nat → Parser α} {values : List α}
    (opens : (Cursor.before last start).current.kind ≠ .closeParen)
    (list : Accepts last (fun depth => separated (item depth) (start.length + 1)) start values
      rest) :
    Accepts last (fun depth => listed (item depth)) start values rest := by
  apply Reaches.step (accepts_check_false opens)
  apply Reaches.step (accepts_bound _)
  exact list

end Lists

/-! ## Expressions -/

/-- A term adds its items to the sequence, once the operators of its level are released. -/
def Sorts (last : Token) (level : Nat) (start : List Token) (tree : Tree) (rest : List Token) :
    Prop :=
  ∀ (yard : Yard) (rounds : Nat), yard.wantsOperand = true →
    (∀ top ∈ yard.waiting.head?, top.level < level) → start.length < rounds →
    ∃ items yard' rounds', Denotes items tree ∧ yard'.wantsOperand = false ∧
      Yard.release level yard'.output yard'.waiting = (items ++ yard.output, yard.waiting) ∧
      rest.length < rounds' ∧
      Reaches last (fun depth => sortRun (nested depth) rounds yard) start
        (fun depth => sortRun (nested depth) rounds' yard') rest

theorem looser_of_le {waiting : List Waiting} {low high : Nat}
    (looser : ∀ top ∈ waiting.head?, top.level < low) (order : low ≤ high) :
    ∀ top ∈ waiting.head?, top.level < high :=
  fun top member => Nat.lt_of_lt_of_le (looser top member) order

theorem sorts_operand {start rest : List Token} {tree : Tree}
    (derived : Derives .operand start [tree] rest)
    (accepts : Accepts last (fun depth => nested depth .operand) start tree rest) :
    Sorts last 4 start tree rest := by
  intro yard rounds wants looser enough
  obtain ⟨token, more, rfl, starts⟩ := derived.first (List.cons_ne_nil _ _)
  have shorter := derived.length_le
  simp only [List.length_cons] at shorter enough
  obtain ⟨rounds, rfl⟩ := Nat.exists_eq_add_one_of_ne_zero (Nat.ne_zero_of_lt enough)
  refine ⟨[.operand tree], yard.operand tree, rounds, denotes_operand tree, rfl,
    release_of_looser looser _, by omega, ?_⟩
  apply Reaches.step (.of_ok (peek_before _ _))
  have current : (Cursor.before last (token :: more)).current.kind.startsOperand = true := starts
  simp only [current, wants, if_true]
  apply Reaches.step accepts
  exact .of_eq fun _ => rfl

theorem sorts_tighter {level : Nat} {start rest : List Token} {tree : Tree}
    (sorts : Sorts last (level + 1) start tree rest) : Sorts last level start tree rest := by
  intro yard rounds wants looser enough
  obtain ⟨items, yard', rounds', denotes, complete, released, enough', reaches⟩ :=
    sorts yard rounds wants (looser_of_le looser (Nat.le_succ _)) enough
  refine ⟨items, yard', rounds', denotes, complete, ?_, enough', reaches⟩
  rw [← release_release (Nat.le_succ level), released]
  exact release_of_looser looser _

theorem sorts_operation {sign : Token} {operator : Operator} {start middle rest : List Token}
    {left right : Tree} (isOperator : sign.kind = .operator)
    (known : Operator.ofText? sign.text = some operator)
    (first : Sorts last operator.level start left (sign :: middle))
    (second : Sorts last (operator.level + 1) middle right rest) :
    Sorts last operator.level start (.node sign [left, right]) rest := by
  intro yard rounds wants looser enough
  obtain ⟨lefts, yard₁, rounds₁, denotes₁, complete₁, released₁, enough₁, reaches₁⟩ :=
    first yard rounds wants looser enough
  rw [List.length_cons] at enough₁
  obtain ⟨rounds₁, rfl⟩ := Nat.exists_eq_add_one_of_ne_zero (Nat.ne_zero_of_lt enough₁)
  have pushed : yard₁.operator sign operator.level =
      ⟨lefts ++ yard.output, ⟨sign, operator.level⟩ :: yard.waiting, true⟩ := by
    simp only [Yard.operator, released₁]
  obtain ⟨rights, yard₂, rounds₂, denotes₂, complete₂, released₂, enough₂, reaches₂⟩ :=
    second ⟨lefts ++ yard.output, ⟨sign, operator.level⟩ :: yard.waiting, true⟩ rounds₁ rfl
      (fun top member => by cases member; exact Nat.lt_succ_self _) (by omega)
  refine ⟨.operator sign :: rights ++ lefts, yard₂, rounds₂, denotes₁.operation denotes₂ sign,
    complete₂, ?_, enough₂, reaches₁.trans (.trans ?_ reaches₂)⟩
  · -- the operator waits until the right operand is complete, so it is released last
    have popped : Yard.release operator.level (rights ++ (lefts ++ yard.output))
        (⟨sign, operator.level⟩ :: yard.waiting) =
        (.operator sign :: rights ++ lefts ++ yard.output, yard.waiting) := by
      have top : operator.level ≤ (⟨sign, operator.level⟩ : Waiting).level := Nat.le_refl _
      rw [release_cons top, release_of_looser looser]
      simp
    rw [← release_release (Nat.le_succ operator.level), released₂]
    exact popped
  · apply Reaches.step (.of_ok (peek_before _ _))
    have current : (Cursor.before last (sign :: middle)).current = sign := rfl
    have notOperand : Kind.operator.startsOperand = false := rfl
    simp only [current, isOperator, notOperand, complete₁, known, if_true, Bool.false_eq_true,
      if_false]
    apply Reaches.step (accepts_advance (by rw [isOperator]; decide) _)
    rw [pushed]
    exact .of_eq fun _ => rfl

/-- An expression is read up to a token that continues no statement. -/
theorem accepts_expression (closed : last.kind = .endOfInput) {start rest : List Token}
    {tree : Tree} (sorts : Sorts last 1 start tree rest) (settled : Settled rest) :
    Accepts last (fun depth => nested depth .expression) start tree rest := by
  obtain ⟨items, yard, rounds, denotes, complete, released, enough, reaches⟩ :=
    sorts .empty (start.length + 1) rfl (fun _ => nofun) (Nat.lt_succ_self _)
  have stops : Accepts last (fun depth => sortRun (nested depth) rounds yard) rest yard rest := by
    obtain ⟨rounds, rfl⟩ := Nat.exists_eq_add_one_of_ne_zero (Nat.ne_zero_of_lt enough)
    apply Reaches.step (.of_ok (peek_before _ _))
    simp only [complete, (settled.current_ne closed).1, Bool.false_eq_true, if_false]
    split
    · exact accepts_pure _ _
    · exact accepts_pure _ _
  have folded (first : Token) : foldPostfix yard.postfixItems first = .ok tree := by
    have whole : Yard.release 1 yard.output yard.waiting = (items, []) := by
      rw [released]
      simp [Yard.empty]
    rw [postfixItems_eq whole]
    exact denotes.foldPostfix_eq first
  refine Accepts.nested ?_
  apply Reaches.step (.of_ok (peek_before _ _))
  apply Reaches.step (accepts_bound _)
  apply Reaches.step (reaches.trans stops)
  simp only [resolve, complete, folded]
  cases yard.waiting <;> exact accepts_pure _ _

/-! ## Derivations -/

/-- After a name that begins a term, an equals sign does not come next. -/
theorem Derives.second_ne_assign {phrase : Phrase} {start rest : List Token}
    {trees : List Tree} (derived : Derives phrase start trees rest) :
    ∀ {token : Token} {more : List Token}, (∃ level, phrase = .terms level) ∨ phrase = .operand →
      start = token :: more → token.kind = .identifier →
      (Cursor.before last rest).current.kind ≠ .assign →
      (Cursor.before last more).current.kind ≠ .assign := by
  induction derived with
  | tighter _ ih => exact fun _ => ih (.inl ⟨_, rfl⟩)
  | operation _ isOperator _ _ ih _ =>
      intro token more _ same isName _
      refine ih (.inl ⟨_, rfl⟩) same isName ?_
      rw [Cursor.current_before_cons, isOperator]
      decide
  | single _ ih => exact fun _ => ih (.inr rfl)
  | literal isLiteral =>
      intro token more _ same isName _
      cases same
      rcases isLiteral with numeral | string
      · cases numeral.symm.trans isName
      · cases string.symm.trans isName
  | name _ _ =>
      intro token more _ same _ after
      cases same
      exact after
  | nullaryCall _ isOpening _ =>
      intro token more _ same _ _
      cases same
      rw [Cursor.current_before_cons, isOpening]
      decide
  | call _ isOpening _ _ _ =>
      intro token more _ same _ _
      cases same
      rw [Cursor.current_before_cons, isOpening]
      decide
  | group isOpening _ _ _ =>
      intro token more _ same isName _
      cases same
      cases isOpening.symm.trans isName
  | _ => rintro _ _ (⟨_, impossible⟩ | impossible) <;> cases impossible

/-- How the parser reads each phrase. -/
def Complete (last : Token) : Phrase → List Token → List Tree → List Token → Prop
  | .statements, start, trees, rest =>
    ∀ ended : Parser Bool, ended (.before last rest) = .ok true (.before last rest) →
      (∀ token more, Phrase.statement.startsWith token.kind = true →
        ended (.before last (token :: more)) = .ok false (.before last (token :: more))) →
      Settled rest → ∀ rounds, start.length < rounds →
        Accepts last (fun depth => itemsUntil ended (nested depth .statement) rounds) start trees
          rest
  | .statement, start, trees, rest =>
    ∀ tree, trees = [tree] → Settled rest →
      Accepts last (fun depth => nested depth .statement) start tree rest
  | .block opensScope, start, trees, rest =>
    ∀ tree, trees = [tree] →
      Accepts last (fun depth => nested depth (.block opensScope)) start tree rest
  | .terms level, start, trees, rest => ∀ tree, trees = [tree] → Sorts last level start tree rest
  | .operand, start, trees, rest =>
    ∀ tree, trees = [tree] → Accepts last (fun depth => nested depth .operand) start tree rest
  | .arguments, start, trees, rest =>
    ∀ closing later, rest = closing :: later → closing.kind = .closeParen →
      ∀ rounds, start.length < rounds →
        Accepts last (fun depth => separated (nested depth .expression) rounds) start trees rest
  | .parameters, start, trees, rest =>
    ∃ names : List Token, trees = names.map Tree.leaf ∧
      ∀ closing later, rest = closing :: later → closing.kind = .closeParen →
        ∀ rounds, start.length < rounds →
          Accepts last (fun _ => separated (expect .identifier .parameterName) rounds) start names
            rest

/-- A list that is not empty does not begin where its parenthesis closes. -/
theorem Derives.current_ne_closing {phrase : Phrase} {start rest : List Token}
    {trees : List Tree} (derived : Derives phrase start trees rest)
    (isList : phrase = .arguments ∨ phrase = .parameters) :
    (Cursor.before last start).current.kind ≠ .closeParen := by
  have inhabited : trees ≠ [] := by
    rcases isList with rfl | rfl <;> cases derived <;> exact List.cons_ne_nil _ _
  obtain ⟨token, more, rfl, starts⟩ := derived.first inhabited
  rw [Cursor.current_before_cons]
  intro same
  rcases isList with rfl | rfl <;> rw [same] at starts <;> cases starts

/-- A bare expression is no assignment. -/
theorem accepts_evaluation (closed : last.kind = .endOfInput) {start rest : List Token}
    {tree : Tree} (derived : Derives .expression start [tree] rest) (settled : Settled rest)
    (accepts : Accepts last (fun depth => nested depth .expression) start tree rest) :
    Accepts last (fun depth => nested depth .statement) start tree rest := by
  obtain ⟨token, more, rfl, starts⟩ := derived.first (List.cons_ne_nil _ _)
  have starts : token.kind.startsOperand = true := starts
  -- only a name begins assignments too, and then the token after it decides
  have chosen : choice token.kind (Cursor.before last more).current.kind = .expression := by
    cases kind : token.kind with
    | identifier =>
        have next := derived.second_ne_assign (.inl ⟨_, rfl⟩) rfl kind
          (settled.current_ne closed).2.1
        simp only [choice, if_neg next]
    | numeral => rfl
    | string => rfl
    | openParen => rfl
    | _ =>
        rw [kind] at starts
        cases starts
  refine accepts_statement ?_ (chosen ▸ accepts)
  intro isFor
  rw [isFor] at starts
  cases starts

/-- A statement that begins with a word is read as the construct of that word. -/
theorem accepts_word {token : Token} {more rest : List Token} {tree : Tree} {kind : Kind}
    {form : Construct} (isKind : token.kind = kind) (notFor : kind ≠ .forWord)
    (chosen : ∀ next, choice kind next = form)
    (accepts : Accepts last (fun depth => construct (nested depth) form) (token :: more) tree
      rest) :
    Accepts last (fun depth => nested depth .statement) (token :: more) tree rest := by
  refine accepts_statement (isKind ▸ notFor) ?_
  rw [isKind, chosen]
  exact Accepts.nested accepts

theorem accepts_name {token : Token} {rest : List Token} (closed : last.kind = .endOfInput)
    (isName : token.kind = .identifier)
    (alone : ∀ next ∈ rest.head?, next.kind ≠ .openParen) :
    Accepts last (fun depth => operand (nested depth)) (token :: rest) (.leaf token) rest := by
  have next : (Cursor.before last rest).current.kind ≠ .openParen := by
    cases rest with
    | nil =>
        show last.kind ≠ .openParen
        rw [closed]
        decide
    | cons token rest => exact alone token rfl
  apply Reaches.step (.of_ok (peek_before _ _))
  simp only [Cursor.current_before_cons, isName]
  apply Reaches.step (.of_ok (peekNext_before_cons _ _ _))
  simp only [if_neg next]
  apply Reaches.step (accepts_advance (by rw [isName]; decide) _)
  exact accepts_pure _ _

theorem accepts_literal {token : Token} {rest : List Token}
    (isLiteral : token.kind = .numeral ∨ token.kind = .string) :
    Accepts last (fun depth => operand (nested depth)) (token :: rest) (.leaf token) rest := by
  apply Reaches.step (.of_ok (peek_before _ _))
  rcases isLiteral with isLiteral | isLiteral
  all_goals
    simp only [Cursor.current_before_cons, isLiteral]
    apply Reaches.step (accepts_advance (by rw [isLiteral]; decide) _)
    exact accepts_pure _ _

/-- A name before a parenthesis is a call. -/
theorem accepts_operand_call {name opening : Token} {start rest : List Token} {tree : Tree}
    (isName : name.kind = .identifier) (isOpening : opening.kind = .openParen)
    (accepts : Accepts last (fun depth => call (nested depth)) (name :: opening :: start) tree
      rest) :
    Accepts last (fun depth => nested depth .operand) (name :: opening :: start) tree rest := by
  refine Accepts.nested ?_
  apply Reaches.step (.of_ok (peek_before _ _))
  simp only [Cursor.current_before_cons, isName]
  apply Reaches.step (.of_ok (peekNext_before_cons _ _ _))
  simp only [Cursor.current_before_cons, isOpening, if_true]
  exact Accepts.nested accepts

/-- Statements begin neither with a brace that closes a block nor at the end of the input. -/
theorem blockOver_statement {token : Token} {more : List Token}
    (starts : Phrase.statement.startsWith token.kind = true) :
    blockOver (.before last (token :: more)) = .ok false (.before last (token :: more)) := by
  have notClosing : token.kind ≠ .closeBrace := by
    intro same
    rw [same] at starts
    cases starts
  have notEnd : token.kind ≠ .endOfInput := by
    intro same
    rw [same] at starts
    cases starts
  unfold blockOver
  rw [bind_of_ok (check_before _ last _), Cursor.current_before_cons, decide_eq_false notClosing]
  simp only [Bool.false_eq_true, if_false]
  rw [bind_of_ok (check_before _ last _), Cursor.current_before_cons, decide_eq_false notEnd]
  rfl

theorem blockOver_closing {token : Token} {more : List Token}
    (isClosing : token.kind = .closeBrace) :
    blockOver (.before last (token :: more)) = .ok true (.before last (token :: more)) := by
  unfold blockOver
  rw [bind_of_ok (check_before _ last _), Cursor.current_before_cons, decide_eq_true isClosing]
  rfl

/-- **Completeness.** The parser reads every phrase, each as its construct. -/
theorem Derives.complete (closed : last.kind = .endOfInput) {phrase : Phrase}
    {start rest : List Token} {trees : List Tree} (derived : Derives phrase start trees rest) :
    Complete last phrase start trees rest := by
  induction derived with
  | noStatement rest =>
      intro ended stops _ _ rounds enough
      obtain ⟨rounds, rfl⟩ := Nat.exists_eq_add_one_of_ne_zero (Nat.ne_zero_of_lt enough)
      exact accepts_itemsUntil_nil stops
  | nextStatement first others ih ihs =>
      intro ended stops going settled rounds enough
      have shorter := first.length_le
      rw [List.length_singleton] at shorter
      obtain ⟨rounds, rfl⟩ := Nat.exists_eq_add_one_of_ne_zero (Nat.ne_zero_of_lt enough)
      obtain ⟨token, more, rfl, starts⟩ := first.first (List.cons_ne_nil _ _)
      exact accepts_itemsUntil_cons (going token more starts)
        (ih _ rfl (others.settled settled)) (ihs ended stops going settled rounds (by omega))
  | conditional isWord isOpening _ isClosing _ ih ihBlock =>
      rintro _ ⟨⟩ settled
      refine accepts_word isWord (by decide) (fun _ => rfl) ?_
      exact accepts_conditional closed isWord isOpening
        (accepts_expression closed (ih _ rfl) (settled_of_kind isClosing (by decide))) isClosing
        (ihBlock _ rfl) settled
  | alternative isWord isOpening _ isClosing _ isElse _ ih ihPositive ihNegative =>
      rintro _ ⟨⟩ _
      refine accepts_word isWord (by decide) (fun _ => rfl) ?_
      exact accepts_alternative isWord isOpening
        (accepts_expression closed (ih _ rfl) (settled_of_kind isClosing (by decide))) isClosing
        (ihPositive _ rfl) isElse (ihNegative _ rfl)
  | loop isWord isOpening _ isClosing _ ih ihBody =>
      rintro _ ⟨⟩ _
      refine accepts_word isWord (by decide) (fun _ => rfl) ?_
      exact accepts_loop isWord isOpening
        (accepts_expression closed (ih _ rfl) (settled_of_kind isClosing (by decide))) isClosing
        (ihBody _ rfl)
  | nullaryDefinition isWord isName isOpening isClosing _ ih =>
      rintro _ ⟨⟩ _
      refine accepts_word isWord (by decide) (fun _ => rfl) ?_
      exact accepts_definition [] isWord isName isOpening
        (accepts_listed_nil isClosing) isClosing (ih _ rfl)
  | definition isWord isName isOpening parameters isClosing _ ihParameters ih =>
      rintro _ ⟨⟩ _
      refine accepts_word isWord (by decide) (fun _ => rfl) ?_
      obtain ⟨names, rfl, accepts⟩ := ihParameters
      refine accepts_definition names isWord isName isOpening ?_ isClosing (ih _ rfl)
      refine accepts_listed (parameters.current_ne_closing (.inr rfl)) ?_
      exact accepts _ _ rfl isClosing _ (Nat.lt_succ_self _)
  | scope block ih =>
      rintro _ ⟨⟩ _
      obtain ⟨token, more, rfl, starts⟩ := block.first (List.cons_ne_nil _ _)
      have isBrace : token.kind = .openBrace := by simpa [Phrase.startsWith] using starts
      refine accepts_statement ?_ ?_
      · rw [isBrace]
        decide
      · rw [isBrace]
        exact ih _ rfl
  | assignment isName isSign _ ih =>
      rintro _ ⟨⟩ settled
      refine accepts_statement ?_ ?_
      · rw [isName]
        decide
      · simp only [choice, isName, Cursor.current_before_cons, isSign, if_true]
        exact Accepts.nested (accepts_assignment isName isSign
          (accepts_expression closed (ih _ rfl) settled))
  | evaluation derived ih =>
      rintro _ ⟨⟩ settled
      exact accepts_evaluation closed derived settled
        (accepts_expression closed (ih _ rfl) settled)
  | block isOpening _ isClosing ih =>
      rintro _ ⟨⟩
      refine Accepts.nested (accepts_block isOpening ?_ isClosing)
      exact ih blockOver (blockOver_closing isClosing) (fun _ _ => blockOver_statement)
        (settled_of_kind isClosing (by decide)) _ (Nat.lt_succ_self _)
  | tighter _ ih =>
      rintro _ ⟨⟩
      exact sorts_tighter (ih _ rfl)
  | operation _ isOperator joins _ ihLeft ihRight =>
      rintro _ ⟨⟩
      obtain ⟨operator, known, rfl⟩ := mem_joining_iff.mp joins
      exact sorts_operation isOperator known (ihLeft _ rfl) (ihRight _ rfl)
  | single operand ih =>
      rintro _ ⟨⟩
      exact sorts_operand operand (ih _ rfl)
  | literal isLiteral =>
      rintro _ ⟨⟩
      exact Accepts.nested (accepts_literal isLiteral)
  | name isName alone =>
      rintro _ ⟨⟩
      exact Accepts.nested (accepts_name closed isName alone)
  | nullaryCall isName isOpening isClosing =>
      rintro _ ⟨⟩
      refine accepts_operand_call isName isOpening ?_
      exact accepts_call isName isOpening (accepts_listed_nil isClosing) isClosing
  | call isName isOpening arguments isClosing ih =>
      rintro _ ⟨⟩
      refine accepts_operand_call isName isOpening ?_
      refine accepts_call isName isOpening ?_ isClosing
      refine accepts_listed (arguments.current_ne_closing (.inl rfl)) ?_
      exact ih _ _ rfl isClosing _ (Nat.lt_succ_self _)
  | group isOpening _ isClosing ih =>
      rintro _ ⟨⟩
      refine Accepts.nested (accepts_group isOpening ?_ isClosing)
      exact accepts_expression closed (ih _ rfl) (settled_of_kind isClosing (by decide))
  | lastArgument _ ih =>
      rintro closing later rfl isClosing rounds enough
      obtain ⟨rounds, rfl⟩ := Nat.exists_eq_add_one_of_ne_zero (Nat.ne_zero_of_lt enough)
      refine accepts_separated_last (accepts_expression closed (ih _ rfl) ?_) ?_
      · exact settled_of_kind isClosing (by decide)
      · rw [Cursor.current_before_cons, isClosing]
        decide
  | nextArgument argument isComma _ ih ihs =>
      intro closing later after isClosing rounds enough
      have shorter := argument.length_le
      simp only [List.length_cons, List.length_nil] at shorter
      obtain ⟨rounds, rfl⟩ := Nat.exists_eq_add_one_of_ne_zero (Nat.ne_zero_of_lt enough)
      refine accepts_separated_next (accepts_expression closed (ih _ rfl) ?_) isComma ?_
      · exact settled_of_kind isComma (by decide)
      · exact ihs closing later after isClosing rounds (by omega)
  | @lastParameter token rest isName =>
      refine ⟨[token], rfl, ?_⟩
      rintro closing later rfl isClosing rounds enough
      obtain ⟨rounds, rfl⟩ := Nat.exists_eq_add_one_of_ne_zero (Nat.ne_zero_of_lt enough)
      refine accepts_separated_last (accepts_require isName (by decide) _ _) ?_
      rw [Cursor.current_before_cons, isClosing]
      decide
  | @nextParameter token _ _ _ _ isName isComma _ ih =>
      obtain ⟨names, rfl, accepts⟩ := ih
      refine ⟨token :: names, rfl, ?_⟩
      intro closing later after isClosing rounds enough
      simp only [List.length_cons] at enough
      obtain ⟨rounds, rfl⟩ := Nat.exists_eq_add_one_of_ne_zero (Nat.ne_zero_of_lt enough)
      refine accepts_separated_next (accepts_require isName (by decide) _ _) isComma ?_
      exact accepts closing later after isClosing rounds (by omega)

end Grammar

end BraceLang
