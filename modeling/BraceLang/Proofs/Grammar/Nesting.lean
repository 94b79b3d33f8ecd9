import BraceLang.Proofs.Grammar.Soundness

/-!
# How deep the parser goes

The parser is nested into itself no deeper than the brackets of its tokens are, up to a factor: at
most three constructs stand between two brackets that are opened, and at most five below the
innermost one. So a limit on its nesting never matters if it is large enough for the brackets
(`parseWithin_ne_tooDeep`). On the other hand each parenthesis of a row takes two constructs, so a
limit that is too low for them makes the parser fail (`parseWithin_eq_tooDeep`).

`peak` is the depth of the brackets in what is left of a token list. A bracket that closes one from
before lowers it, so it does not grow from one phrase to the next (`Derives.level_le`).
-/

set_option autoImplicit false

namespace BraceLang

namespace Grammar

open BraceLang.Parser Effect

variable {α β : Type} {last : Token}

/-! ## Brackets -/

/-- How deeply the brackets that are opened in a list of kinds are nested. -/
def peak : List Kind → Nat
  | [] => 0
  | .openParen :: kinds | .openBrace :: kinds => peak kinds + 1
  | .closeParen :: kinds | .closeBrace :: kinds => peak kinds - 1
  | _ :: kinds => peak kinds

/-- How deeply the brackets of tokens are nested. -/
def level (tokens : List Token) : Nat :=
  peak (tokens.map Token.kind)

theorem level_opening {token : Token} (opens : token.kind = .openParen ∨ token.kind = .openBrace)
    (rest : List Token) : level (token :: rest) = level rest + 1 := by
  rcases opens with kind | kind <;> simp [level, kind, peak]

theorem level_closing {token : Token}
    (closes : token.kind = .closeParen ∨ token.kind = .closeBrace) (rest : List Token) :
    level (token :: rest) = level rest - 1 := by
  rcases closes with kind | kind <;> simp [level, kind, peak]

/-- The kinds that are no brackets. -/
def isFlat : Kind → Bool
  | .openParen | .openBrace | .closeParen | .closeBrace => false
  | _ => true

theorem peak_flat {kind : Kind} (flat : isFlat kind = true) (kinds : List Kind) :
    peak (kind :: kinds) = peak kinds := by
  cases kind <;> first | rfl | cases flat

theorem level_flat {token : Token} (flat : isFlat token.kind = true) (rest : List Token) :
    level (token :: rest) = level rest :=
  peak_flat flat _

/-- A phrase closes the brackets that it opens. -/
theorem Derives.level_le {phrase : Phrase} {start rest : List Token} {trees : List Tree}
    (derived : Derives phrase start trees rest) : level rest ≤ level start := by
  induction derived with
  | literal isLiteral => rcases isLiteral with numeral | string <;> simp_all [level, peak]
  | _ => simp_all [level, peak] <;> omega

/-! ## Parsers that stay within the limit -/

/-- Where `start` is left, the parser does not fail as nested too deeply. -/
def Shallow (last : Token) (parser : Parser α) (start : List Token) : Prop :=
  ∀ token cursor, parser (.before last start) ≠ .error (.tooDeep token) cursor

namespace Shallow

variable {start : List Token}

/-- After a parser that stays within the limit, what follows has to stay within it. -/
theorem bind {parser : Parser α} {next : α → Parser β} {middle : α → List Token → Prop}
    (first : Shallow last parser start) (parses : Parses last parser start middle)
    (second : ∀ result rest, middle result rest → Shallow last (next result) rest) :
    Shallow last (parser >>= next) start := by
  intro token cursor
  unfold Parses at parses
  cases ran : parser (.before last start) with
  | error failure stopped =>
      rw [bind_of_error ran]
      rintro ⟨⟩
      exact first token cursor ran
  | ok result stopped =>
      rw [ran] at parses
      obtain ⟨rest, rfl, -, holds⟩ := parses
      rw [bind_of_ok ran]
      exact second result rest holds token cursor

/-- After a parser that succeeds. -/
theorem of_ok {parser : Parser α} {next : α → Parser β} {result : α} {rest : List Token}
    (ran : parser (.before last start) = .ok result (.before last rest))
    (second : Shallow last (next result) rest) : Shallow last (parser >>= next) start := by
  intro token cursor
  rw [bind_of_ok ran]
  exact second token cursor

theorem pure (result : α) : Shallow last (pure result) start :=
  fun _ => nofun

theorem map {parser : Parser α} (shallow : Shallow last parser start) (finish : α → β) :
    Shallow last (parser >>= fun result => Pure.pure (finish result)) start := by
  intro token cursor
  cases ran : parser (.before last start) with
  | error failure stopped =>
      rw [bind_of_error ran]
      rintro ⟨⟩
      exact shallow token cursor ran
  | ok result stopped =>
      rw [bind_of_ok ran]
      exact nofun

theorem reject (fault : Fault) : Shallow last (reject fault : Parser α) start :=
  fun _ => nofun

/-- A required token is there or it is missed, and neither concerns the limit. -/
theorem require (closed : last.kind = .endOfInput) {kind : Kind} (inside : kind ≠ .endOfInput)
    (fault : Token → Fault) {next : Token → Parser β}
    (second : ∀ token rest, start = token :: rest → token.kind = kind →
      Shallow last (next token) rest) :
    Shallow last (require kind fault >>= next) start := by
  by_cases found : (Cursor.before last start).current.kind = kind
  · obtain ⟨token, rest, rfl, same⟩ := exists_cons_of_current closed inside found
    exact of_ok (require_before_cons same inside fault last rest) (second token rest rfl same)
  · intro token cursor
    rw [bind_of_error (require_before_of_ne found fault)]
    exact nofun

/-- Whether the next token is of a kind decides how to go on. -/
theorem check (closed : last.kind = .endOfInput) {kind : Kind} (inside : kind ≠ .endOfInput)
    {next : Bool → Parser β}
    (found : ∀ token rest, start = token :: rest → token.kind = kind →
      Shallow last (next true) start)
    (missing : Shallow last (next false) start) :
    Shallow last (check kind >>= next) start := by
  refine of_ok (check_before kind last start) ?_
  by_cases current : (Cursor.before last start).current.kind = kind
  · rw [decide_eq_true current]
    obtain ⟨token, rest, same, isKind⟩ := exists_cons_of_current closed inside current
    exact found token rest same isKind
  · rw [decide_eq_false current]
    exact missing

end Shallow

theorem require_shallow (kind : Kind) (fault : Token → Fault) (start : List Token) :
    Shallow last (require kind fault) start := by
  refine .of_ok (peek_before last start) ?_
  split
  · exact fun _ => nofun
  · exact .reject _

/-! ## Repetition -/

/-- Items up to the end of their list, none of which is nested too deeply. -/
theorem itemsUntil_shallow {ended : Parser Bool} {item : Parser α} {bound : Nat}
    (ends : ∀ start, Shallow last ended start ∧ Parses last ended start fun _ rest => rest = start)
    (reads : ∀ start, level start ≤ bound →
      Shallow last item start ∧ Parses last item start fun _ rest => level rest ≤ bound)
    (rounds : Nat) {start : List Token} (low : level start ≤ bound) :
    Shallow last (itemsUntil ended item rounds) start := by
  induction rounds generalizing start with
  | zero => exact fun _ => nofun
  | succ rounds ih =>
      refine .bind (ends start).1 (ends start).2 fun found rest same => ?_
      subst same
      cases found with
      | true => exact .pure _
      | false =>
          refine .bind (reads rest low).1 (reads rest low).2 fun value later below => ?_
          exact (ih below).map _

/-- Items with commas between them, none of which is nested too deeply. -/
theorem separated_shallow (closed : last.kind = .endOfInput) {item : Parser α} {bound : Nat}
    (reads : ∀ start, level start ≤ bound →
      Shallow last item start ∧ Parses last item start fun _ rest => level rest ≤ bound)
    (rounds : Nat) {start : List Token} (low : level start ≤ bound) :
    Shallow last (separated item rounds) start := by
  induction rounds generalizing start with
  | zero => exact fun _ => nofun
  | succ rounds ih =>
      refine .bind (reads start low).1 (reads start low).2 fun value rest below => ?_
      refine .check closed (by decide) ?_ (.pure _)
      rintro comma later rfl isComma
      refine .of_ok (advance_before_cons (by rw [isComma]; decide) last later) ?_
      rw [level_flat (by rw [isComma]; rfl)] at below
      exact (ih below).map _

theorem listed_shallow (closed : last.kind = .endOfInput) {item : Parser α} {bound : Nat}
    (reads : ∀ start, level start ≤ bound →
      Shallow last item start ∧ Parses last item start fun _ rest => level rest ≤ bound)
    {start : List Token} (low : level start ≤ bound) : Shallow last (listed item) start := by
  refine .check closed (by decide) (fun _ _ _ _ => .pure _) ?_
  exact .of_ok (bound_before last start) (separated_shallow closed reads _ low)

/-! ## Constructs -/

/-- How many constructs may be nested at a construct, apart from those inside of brackets. -/
def reserve : Construct → Nat
  | .call => 1
  | .operand => 2
  | .expression | .block _ => 3
  | .conditional | .loop | .definition | .assignment => 4
  | .statement => 5

/-- A parser for constructs with a limit that is large enough for the brackets ahead. -/
def Ample (last : Token) (depth : Nat) (inner : Construct → Parser Tree) : Prop :=
  ∀ form start,
    (form = .operand → (Cursor.before last start).current.kind.startsOperand = true) →
    3 * level start + reserve form ≤ depth → Shallow last (inner form) start

/-- After a construct inside, the brackets are nested no more deeply than before it. -/
theorem Shallow.part {inner : Construct → Parser Tree} {depth : Nat} (sound : Sound last inner)
    (ample : Ample last depth inner) (form : Construct) (notOperand : form ≠ .operand)
    {start : List Token} (enough : 3 * level start + reserve form ≤ depth)
    {next : Tree → Parser β}
    (second : ∀ tree rest, level rest ≤ level start → Shallow last (next tree) rest) :
    Shallow last (inner form >>= next) start := by
  have ready : form = .operand →
      (Cursor.before last start).current.kind.startsOperand = true :=
    fun isOperand => absurd isOperand notOperand
  refine .bind (ample form start ready enough) (sound form start ready) fun tree rest derived => ?_
  exact second tree rest derived.level_le

/-- A limit that is large enough at one place is large enough from there on. -/
theorem part_reads {inner : Construct → Parser Tree} {depth : Nat} (sound : Sound last inner)
    (ample : Ample last depth inner) (form : Construct) (notOperand : form ≠ .operand) (bound : Nat)
    (enough : 3 * bound + reserve form ≤ depth) (start : List Token) (low : level start ≤ bound) :
    Shallow last (inner form) start ∧
      Parses last (inner form) start fun _ rest => level rest ≤ bound := by
  have ready : form = .operand →
      (Cursor.before last start).current.kind.startsOperand = true :=
    fun isOperand => absurd isOperand notOperand
  refine ⟨ample form start ready (by omega), ?_⟩
  exact (sound form start ready).mono fun _ _ _ derived => Nat.le_trans derived.level_le low

section Rules

variable {inner : Construct → Parser Tree} {depth : Nat} (closed : last.kind = .endOfInput)
  (sound : Sound last inner) (ample : Ample last depth inner)

include ample in
theorem statement_shallow {start : List Token} (enough : 3 * level start + 5 ≤ depth + 1) :
    Shallow last (statement inner) start := by
  have within (form : Construct) (notOperand : form ≠ .operand) (low : reserve form ≤ 4) :
      Shallow last (inner form) start :=
    ample form start (fun isOperand => absurd isOperand notOperand) (by omega)
  refine .of_ok (peek_before last start) ?_
  split
  · exact within .conditional nofun (by decide)
  · exact within .loop nofun (by decide)
  · exact within .definition nofun (by decide)
  · exact .reject _
  · exact within (.block true) nofun (by decide)
  · have looked : peekNext (.before last start) =
        .ok (Cursor.before last start).next (.before last start) := rfl
    refine .of_ok looked ?_
    split
    · exact within .assignment nofun (by decide)
    · exact within .expression nofun (by decide)
  · exact within .expression nofun (by decide)

include closed sound ample in
/-- A condition in parentheses and a block, after a word. -/
theorem guarded_shallow {kind : Kind} (flat : isFlat kind = true) (inside : kind ≠ .endOfInput)
    {opened closes : Expectation} {next : Token → Tree → Tree → Parser Tree} {start : List Token}
    (enough : 3 * level start + 4 ≤ depth + 1)
    (follows : ∀ word condition body rest, level rest ≤ level start →
      Shallow last (next word condition body) rest) :
    Shallow last (do
      let word ← consume kind
      let _ ← expect .openParen opened
      let condition ← inner .expression
      let _ ← expect .closeParen closes
      let body ← inner (.block true)
      next word condition body) start := by
  refine .require closed inside _ fun word afterWord same isWord => ?_
  subst same
  rw [level_flat (by rw [isWord]; exact flat)] at enough follows
  refine .require closed (by decide) _ fun opening body same isOpening => ?_
  subst same
  rw [level_opening (.inl isOpening)] at enough follows
  refine .part sound ample .expression nofun (by simp only [reserve]; omega)
    fun condition rest low => ?_
  refine .require closed (by decide) _ fun closing middle same isClosing => ?_
  subst same
  rw [level_closing (.inl isClosing)] at low
  refine .part sound ample (.block true) nofun (by simp only [reserve]; omega)
    fun body rest lower => ?_
  exact follows word condition body rest (by omega)

include closed sound ample in
theorem conditional_shallow {start : List Token} (enough : 3 * level start + 4 ≤ depth + 1) :
    Shallow last (conditional inner) start := by
  refine guarded_shallow closed sound ample rfl (by decide) enough
    fun word condition positive rest low => ?_
  refine .check closed (by decide) ?_ (.pure _)
  rintro otherwise later rfl isElse
  refine .of_ok (advance_before_cons (by rw [isElse]; decide) last later) ?_
  rw [level_flat (by rw [isElse]; rfl)] at low
  exact .part sound ample (.block true) nofun (by simp only [reserve]; omega) fun _ _ _ => .pure _

include closed sound ample in
theorem loop_shallow {start : List Token} (enough : 3 * level start + 4 ≤ depth + 1) :
    Shallow last (loop inner) start :=
  guarded_shallow closed sound ample rfl (by decide) enough fun _ _ _ _ _ => .pure _

include closed in
theorem parameters_shallow {start : List Token} :
    Shallow last (listed (expect .identifier .parameterName)) start := by
  refine listed_shallow closed (fun start low => ?_) (Nat.le_refl (level start))
  refine ⟨require_shallow _ _ start, ?_⟩
  refine (expect_parses closed (by decide) _).mono fun name rest _ isName => ?_
  obtain ⟨rfl, isName⟩ := isName
  rwa [level_flat (by rw [isName]; rfl)] at low

include closed sound ample in
theorem definition_shallow {start : List Token} (enough : 3 * level start + 4 ≤ depth + 1) :
    Shallow last (definition inner) start := by
  refine .require closed (by decide) _ fun word afterWord same isWord => ?_
  subst same
  rw [level_flat (by rw [isWord]; rfl)] at enough
  refine .require closed (by decide) _ fun name afterName same isName => ?_
  subst same
  rw [level_flat (by rw [isName]; rfl)] at enough
  refine .require closed (by decide) _ fun opening list same isOpening => ?_
  subst same
  rw [level_opening (.inl isOpening)] at enough
  refine .bind (parameters_shallow closed) (listed_parses closed (parameters_parses closed) list)
    fun names rest named => ?_
  have low : level rest ≤ level list := by
    rcases named with ⟨rfl, rfl, _⟩ | derived
    · exact Nat.le_refl _
    · exact derived.level_le
  refine .require closed (by decide) _ fun closing middle same isClosing => ?_
  subst same
  rw [level_closing (.inl isClosing)] at low
  exact .part sound ample (.block false) nofun (by simp only [reserve]; omega)
    fun _ _ _ => .pure _

include closed sound ample in
theorem assignment_shallow {start : List Token} (enough : 3 * level start + 4 ≤ depth + 1) :
    Shallow last (assignment inner) start := by
  refine .require closed (by decide) _ fun name afterName same isName => ?_
  subst same
  rw [level_flat (by rw [isName]; rfl)] at enough
  refine .require closed (by decide) _ fun sign afterSign same isSign => ?_
  subst same
  rw [level_flat (by rw [isSign]; rfl)] at enough
  exact .part sound ample .expression nofun (by simp only [reserve]; omega) fun _ _ _ => .pure _

theorem blockOver_shallow (start : List Token) : Shallow last blockOver start := by
  refine .of_ok (check_before .closeBrace last start) ?_
  split
  · exact .pure _
  · refine .of_ok (check_before .endOfInput last start) ?_
    split
    · exact .reject _
    · exact .pure _

include closed sound ample in
theorem block_shallow (opensScope : Bool) {start : List Token}
    (enough : 3 * level start + 3 ≤ depth + 1) : Shallow last (block inner opensScope) start := by
  refine .require closed (by decide) _ fun opening list same isOpening => ?_
  subst same
  rw [level_opening (.inr isOpening)] at enough
  refine .of_ok (bound_before last list) ?_
  have ends (start : List Token) :
      Shallow last blockOver start ∧ Parses last blockOver start fun _ rest => rest = start :=
    ⟨blockOver_shallow start, (blockOver_parses start).mono fun _ _ _ holds => holds.1⟩
  have reads := part_reads sound ample .statement nofun (level list)
    (by simp only [reserve]; omega)
  refine .bind (itemsUntil_shallow ends reads _ (Nat.le_refl _))
    (itemsUntil_parses blockOver_parses (fun start => sound .statement start nofun) _ list
      (Nat.lt_succ_self _)) fun trees rest _ => ?_
  exact .require closed (by decide) _ fun _ _ _ _ => .pure _

include closed sound ample in
theorem sortRun_shallow {bound : Nat} (enough : 3 * bound + 2 ≤ depth) (rounds : Nat) :
    ∀ (yard : Yard) (start : List Token), level start ≤ bound →
      Shallow last (sortRun inner rounds yard) start := by
  induction rounds with
  | zero => exact fun _ _ _ _ => nofun
  | succ rounds ih =>
      intro yard start low
      refine .of_ok (peek_before last start) ?_
      split
      · next starts =>
          split
          · have ready : Construct.operand = .operand →
                (Cursor.before last start).current.kind.startsOperand = true := fun _ => starts
            refine .bind (ample .operand start ready (by simp only [reserve]; omega))
              (sound .operand start ready) fun tree rest derived => ?_
            exact ih _ rest (Nat.le_trans derived.level_le low)
          · exact .pure _
      · split
        · next found =>
            obtain ⟨sign, rest, rfl, isOperator⟩ :=
              exists_cons_of_current closed (by decide) found
            rw [level_flat (by rw [isOperator]; rfl)] at low
            split
            · exact .reject _
            · split
              · exact fun _ => nofun
              · refine .of_ok (advance_before_cons (by rw [isOperator]; decide) last rest) ?_
                exact ih _ rest low
        · exact .pure _

/-- Resolving a sorted run fails for other reasons, if at all. -/
theorem resolve_shallow {origin here : List Token} {yard : Yard} (sorted : Sorted origin here yard)
    (start : Token) : Shallow last (resolve start yard) here := by
  unfold resolve
  cases complete : yard.wantsOperand with
  | false =>
      obtain ⟨tree, folded, -⟩ := sorted.foldPostfix_eq complete start
      rw [folded]
      cases yard.waiting <;> exact .pure _
  | true =>
      cases waiting : yard.waiting with
      | cons top others => exact .reject _
      | nil =>
          rw [sorted.foldPostfix_eq_error complete waiting start]
          exact fun _ => nofun

include closed sound ample in
theorem expression_shallow {start : List Token} (enough : 3 * level start + 3 ≤ depth + 1) :
    Shallow last (expression inner) start := by
  refine .of_ok (peek_before last start) ?_
  refine .of_ok (bound_before last start) ?_
  refine .bind (sortRun_shallow closed sound ample (by omega) _ .empty start (Nat.le_refl _))
    (sortRun_parses closed sound start _ .empty start (Nat.lt_succ_self _) (sorted_empty start))
    fun yard rest sorted => ?_
  exact resolve_shallow sorted _

include closed sound ample in
theorem operand_shallow {start : List Token} (enough : 3 * level start + 2 ≤ depth + 1) :
    Shallow last (operand inner) start := by
  refine .of_ok (peek_before last start) ?_
  split
  · have looked : peekNext (.before last start) =
        .ok (Cursor.before last start).next (.before last start) := rfl
    refine .of_ok looked ?_
    split
    · exact ample .call start nofun (by simp only [reserve]; omega)
    · exact fun _ => nofun
  · next found =>
      obtain ⟨opening, rest, rfl, isOpening⟩ := exists_cons_of_current closed (by decide) found
      rw [level_opening (.inl isOpening)] at enough
      refine .of_ok (advance_before_cons (by rw [isOpening]; decide) last rest) ?_
      refine .part sound ample .expression nofun (by simp only [reserve]; omega)
        fun tree later _ => ?_
      exact .require closed (by decide) _ fun _ _ _ _ => .pure _
  · exact fun _ => nofun

include closed sound ample in
theorem call_shallow {start : List Token} (enough : 3 * level start + 1 ≤ depth + 1) :
    Shallow last (call inner) start := by
  refine .require closed (by decide) _ fun name afterName same isName => ?_
  subst same
  rw [level_flat (by rw [isName]; rfl)] at enough
  refine .require closed (by decide) _ fun opening list same isOpening => ?_
  subst same
  rw [level_opening (.inl isOpening)] at enough
  have reads := part_reads sound ample .expression nofun (level list)
    (by simp only [reserve]; omega)
  refine .bind (listed_shallow closed reads (Nat.le_refl _))
    (listed_parses closed (arguments_parses closed sound) list) fun trees rest _ => ?_
  exact .require closed (by decide) _ fun _ _ _ _ => .pure _

include closed sound ample in
/-- The limit grows by one with each construct. -/
theorem construct_ample : Ample last (depth + 1) (construct inner) := by
  intro form start ready enough
  cases form with
  | statement => exact statement_shallow ample enough
  | conditional => exact conditional_shallow closed sound ample enough
  | loop => exact loop_shallow closed sound ample enough
  | definition => exact definition_shallow closed sound ample enough
  | assignment => exact assignment_shallow closed sound ample enough
  | block opensScope => exact block_shallow closed sound ample opensScope enough
  | expression => exact expression_shallow closed sound ample enough
  | operand => exact operand_shallow closed sound ample enough
  | call => exact call_shallow closed sound ample enough

end Rules

theorem nested_ample (closed : last.kind = .endOfInput) (depth : Nat) :
    Ample last depth (nested depth) := by
  induction depth with
  | zero =>
      intro form start _ enough
      cases form <;> simp [reserve] at enough
  | succ depth ih => exact construct_ample closed (nested_sound closed depth) ih

/-- The statements of a program stay within a limit that is large enough for its brackets. -/
theorem program_shallow (closed : last.kind = .endOfInput) {depth : Nat} {start : List Token}
    (enough : 3 * level start + 5 ≤ depth) : Shallow last (program depth) start := by
  have ends (start : List Token) : Shallow last (check .endOfInput) start ∧
      Parses last (check .endOfInput) start fun _ rest => rest = start :=
    ⟨fun _ => nofun, (check_parses .endOfInput).mono fun _ _ _ holds => holds.1⟩
  have reads := part_reads (nested_sound closed depth) (nested_ample closed depth) .statement nofun
    (level start) enough
  exact .of_ok (bound_before last start) ((itemsUntil_shallow ends reads _ (Nat.le_refl _)).map _)

/-- **The limit is large enough for the brackets.** -/
theorem parseWithin_ne_tooDeep (closed : last.kind = .endOfInput) {tokens : List Token}
    {depth : Nat} (enough : 3 * level tokens + 5 ≤ depth) (token : Token) :
    parseWithin depth (tokens ++ [last]) ≠ .error (.tooDeep token) := by
  rw [parseWithin_append closed]
  cases ran : program depth (.before last tokens) with
  | ok tree cursor => exact nofun
  | error failure cursor =>
      rintro ⟨⟩
      exact program_shallow closed enough token cursor ran

/-! ## Parentheses beyond the limit -/

/-- Where `start` is left, the parser fails as nested too deeply. -/
def Sinks (last : Token) (parser : Parser α) (start : List Token) : Prop :=
  ∃ token cursor, parser (.before last start) = .error (.tooDeep token) cursor

namespace Sinks

variable {start : List Token}

theorem bind {parser : Parser α} (sinks : Sinks last parser start) (next : α → Parser β) :
    Sinks last (parser >>= next) start := by
  obtain ⟨token, cursor, ran⟩ := sinks
  exact ⟨token, cursor, bind_of_error ran⟩

theorem of_ok {parser : Parser α} {next : α → Parser β} {result : α} {rest : List Token}
    (ran : parser (.before last start) = .ok result (.before last rest))
    (sinks : Sinks last (next result) rest) : Sinks last (parser >>= next) start := by
  obtain ⟨token, cursor, failed⟩ := sinks
  exact ⟨token, cursor, by rw [bind_of_ok ran, failed]⟩

end Sinks

/-- An expression that begins with a parenthesis sinks with its first operand. -/
theorem expression_sinks {inner : Construct → Parser Tree} {opening : Token} {rest : List Token}
    (isOpening : opening.kind = .openParen)
    (sinks : Sinks last (inner .operand) (opening :: rest)) :
    Sinks last (expression inner) (opening :: rest) := by
  refine .of_ok (peek_before last _) (.of_ok (bound_before last _) (.bind ?_ _))
  refine .of_ok (peek_before last _) ?_
  have starts : (Cursor.before last (opening :: rest)).current.kind.startsOperand = true := by
    rw [Cursor.current_before_cons, isOpening]
    rfl
  rw [if_pos starts]
  exact sinks.bind _

/-- A group sinks with the expression in it. -/
theorem operand_sinks {inner : Construct → Parser Tree} {opening : Token} {rest : List Token}
    (isOpening : opening.kind = .openParen) (sinks : Sinks last (inner .expression) rest) :
    Sinks last (operand inner) (opening :: rest) := by
  refine .of_ok (peek_before last _) ?_
  rw [Cursor.current_before_cons, isOpening]
  have inside : opening.kind ≠ .endOfInput := by rw [isOpening]; decide
  exact .of_ok (advance_before_cons inside last rest) (sinks.bind _)

/-- Parentheses that are opened one after the other take two constructs each. -/
theorem nested_sinks {opens : List Token} (areOpening : ∀ token ∈ opens, token.kind = .openParen)
    (rest : List Token) {depth : Nat} (few : depth ≤ 2 * opens.length) :
    Sinks last (nested depth .expression) (opens ++ rest) := by
  induction opens generalizing depth with
  | nil =>
      obtain rfl : depth = 0 := Nat.le_zero.mp few
      exact ⟨_, _, rfl⟩
  | cons opening opens ih =>
      obtain ⟨isOpening, others⟩ := List.forall_mem_cons.mp areOpening
      rw [List.length_cons] at few
      -- The expression is one construct, and the group that is its first operand is another.
      match depth, few with
      | 0, _ => exact ⟨_, _, rfl⟩
      | 1, _ => exact expression_sinks isOpening ⟨_, _, rfl⟩
      | depth + 2, few =>
          exact expression_sinks isOpening (operand_sinks isOpening (ih others (by omega)))

/-- **Too many parentheses are refused**, before anything else is said about what follows them. -/
theorem parseWithin_eq_tooDeep (closed : last.kind = .endOfInput) {opens : List Token}
    (inhabited : opens ≠ []) (areOpening : ∀ token ∈ opens, token.kind = .openParen)
    (rest : List Token) {depth : Nat} (few : depth ≤ 2 * opens.length + 1) :
    ∃ token, parseWithin depth (opens ++ rest ++ [last]) = .error (.tooDeep token) := by
  have statements : Sinks last (nested depth .statement) (opens ++ rest) := by
    match depth, few with
    | 0, _ => exact ⟨_, _, rfl⟩
    | depth + 1, few =>
        have sinks := @nested_sinks last _ areOpening rest depth (by omega)
        obtain ⟨opening, others, rfl⟩ := List.exists_cons_of_ne_nil inhabited
        refine .of_ok (peek_before last _) ?_
        rw [List.cons_append, Cursor.current_before_cons, areOpening opening List.mem_cons_self]
        exact sinks
  have sinks : Sinks last (program depth) (opens ++ rest) := by
    obtain ⟨opening, others, rfl⟩ := List.exists_cons_of_ne_nil inhabited
    refine .of_ok (bound_before last _) (.bind ?_ _)
    refine .of_ok (check_before .endOfInput last _) ?_
    have going : ¬ (Cursor.before last (opening :: others ++ rest)).current.kind = .endOfInput := by
      rw [List.cons_append, Cursor.current_before_cons, areOpening opening List.mem_cons_self]
      decide
    rw [decide_eq_false going]
    exact statements.bind _
  obtain ⟨token, cursor, failed⟩ := sinks
  exact ⟨token, by rw [parseWithin_append closed, failed]⟩

end Grammar

end BraceLang
