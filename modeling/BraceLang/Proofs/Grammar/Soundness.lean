import BraceLang.Proofs.Grammar.Position
import BraceLang.Proofs.Grammar.Sorting

/-!
# The parser stays within the grammar

Whatever a parser of the grammar reads is a phrase of the grammar, and the tree it gives is the tree
of the phrase. If it reads nothing, it fails in an ordinary way: a repetition never stalls, a
postfix sequence never lacks an operand, and it never leaves more than one tree.

The rules are given in terms of a parser for the constructs inside. For each of them it is shown
that it is sound if that parser is (`construct_sound`), and so all of them are, at every depth of
nesting (`nested_sound`).
-/

set_option autoImplicit false

namespace BraceLang

namespace Grammar

open BraceLang.Parser

/-- The phrase that a construct of the parser reads. -/
def phraseOf : Construct → Phrase
  | .statement | .conditional | .loop | .definition | .assignment => .statement
  | .block opensScope => .block opensScope
  | .expression => .expression
  | .operand | .call => .operand

/-- A parser for constructs that reads phrases of the grammar. The parser for operands takes any
token, so it has to be used where an operand begins. -/
def Sound (last : Token) (inner : Construct → Parser Tree) : Prop :=
  ∀ form start,
    (form = .operand → (Cursor.before last start).current.kind.startsOperand = true) →
    Parses last (inner form) start fun tree rest => Derives (phraseOf form) start [tree] rest

variable {α : Type} {last : Token}

/-! ## Repetition -/

/-- Items are read until the list is over, if each of them takes a token. -/
theorem itemsUntil_parses {ended : Parser Bool} {item : Parser Tree} {complete : List Token → Prop}
    (ends : ∀ start, Parses last ended start fun found rest =>
      rest = start ∧ (found = true → complete start))
    (reads : ∀ start, Parses last item start fun tree rest => Derives .statement start [tree] rest)
    (rounds : Nat) : ∀ start : List Token, start.length < rounds →
      Parses last (itemsUntil ended item rounds) start fun trees rest =>
        Derives .statements start trees rest ∧ complete rest := by
  induction rounds with
  | zero => intro start enough; exact absurd enough (Nat.not_lt_zero _)
  | succ rounds ih =>
      intro start enough
      refine Parses.bind (ends start) fun found rest _ holds => ?_
      obtain ⟨rfl, finished⟩ := holds
      cases found with
      | true => exact pure_parses ⟨.noStatement rest, finished rfl⟩
      | false =>
          refine Parses.bind (reads rest) fun tree middle _ first => ?_
          have shorter := first.length_le
          simp only [List.length_singleton] at shorter
          refine Parses.bind (ih middle (by omega)) fun trees final _ others => ?_
          exact pure_parses ⟨.nextStatement first others.1, others.2⟩

/-- Items with commas between them, if each of them takes a token. -/
theorem separated_parses {item : Parser α} (one : List Token → α → List Token → Prop)
    (many : List Token → List α → List Token → Prop) (closed : last.kind = .endOfInput)
    (reads : ∀ start, Parses last item start (one start))
    (progress : ∀ {start value rest}, one start value rest → rest.length < start.length)
    (single : ∀ {start value rest}, one start value rest → many start [value] rest)
    (next : ∀ {start value comma middle values rest}, one start value (comma :: middle) →
      comma.kind = .comma → many middle values rest → many start (value :: values) rest)
    (rounds : Nat) : ∀ start : List Token, start.length < rounds →
      Parses last (separated item rounds) start (many start) := by
  induction rounds with
  | zero => intro start enough; exact absurd enough (Nat.not_lt_zero _)
  | succ rounds ih =>
      intro start enough
      refine Parses.bind (reads start) fun value middle _ first => ?_
      refine Parses.bind (check_parses .comma) fun found rest _ holds => ?_
      obtain ⟨rfl, rfl⟩ := holds
      by_cases comma : (Cursor.before last rest).current.kind = .comma
      · rw [if_pos (decide_eq_true comma)]
        obtain ⟨token, later, rfl, isComma⟩ :=
          exists_cons_of_current closed (by decide) comma
        have shorter := progress first
        rw [List.length_cons] at shorter
        have moved : Parses last advance (token :: later) fun _ rest => rest = later :=
          .of_ok (advance_before_cons (by rw [isComma]; decide) last later)
            (List.suffix_cons _ _) rfl
        refine Parses.bind moved fun _ rest _ same => ?_
        subst same
        refine Parses.bind (ih rest (by omega)) fun values final _ others => ?_
        exact pure_parses (next first isComma others)
      · rw [if_neg (by simpa using comma)]
        exact pure_parses (single first)

/-- A list in parentheses is empty where the parenthesis closes, and else has items. -/
theorem listed_parses {item : Parser α} {many : List Token → List α → List Token → Prop}
    (closed : last.kind = .endOfInput)
    (reads : ∀ start : List Token,
      Parses last (separated item (start.length + 1)) start (many start)) (start : List Token) :
    Parses last (listed item) start fun values rest =>
      values = [] ∧ rest = start ∧ (∃ closing later, start = closing :: later ∧
        closing.kind = .closeParen) ∨ many start values rest := by
  refine Parses.bind (check_parses .closeParen) fun found rest _ holds => ?_
  obtain ⟨rfl, rfl⟩ := holds
  by_cases closes : (Cursor.before last rest).current.kind = .closeParen
  · rw [if_pos (decide_eq_true closes)]
    exact pure_parses (.inl ⟨rfl, rfl, exists_cons_of_current closed (by decide) closes⟩)
  · rw [if_neg (by simpa using closes)]
    refine Parses.bind bound_parses fun rounds rest' _ holds => ?_
    obtain ⟨rfl, rfl⟩ := holds
    exact (reads rest').mono fun _ _ _ => .inr

theorem advance_parses {token : Token} {later : List Token} (inside : token.kind ≠ .endOfInput) :
    Parses last advance (token :: later) fun taken rest => taken = token ∧ rest = later :=
  .of_ok (advance_before_cons inside last later) (List.suffix_cons _ _) ⟨rfl, rfl⟩

/-! ## Statements -/

section Rules

variable {inner : Construct → Parser Tree} (closed : last.kind = .endOfInput)
  (sound : Sound last inner)

include sound in
theorem statement_sound (start : List Token) :
    Parses last (statement inner) start fun tree rest => Derives .statement start [tree] rest := by
  have expression : Parses last (inner .expression) start fun tree rest =>
      Derives .statement start [tree] rest :=
    (sound .expression start nofun).mono fun _ _ _ derived => .evaluation derived
  refine Parses.bind peek_parses fun token rest _ holds => ?_
  obtain ⟨rfl, rfl⟩ := holds
  split
  · exact sound .conditional rest nofun
  · exact sound .loop rest nofun
  · exact sound .definition rest nofun
  · exact reject_parses (by simp)
  · exact (sound (.block true) rest nofun).mono fun _ _ _ derived => .scope derived
  · have looked : Parses last peekNext rest fun _ rest' => rest' = rest :=
      .of_ok rfl List.suffix_rfl rfl
    refine Parses.bind looked fun next rest' _ same => ?_
    subst same
    split
    · exact sound .assignment rest' nofun
    · exact expression
  · exact expression

include closed sound in
theorem conditional_sound (start : List Token) :
    Parses last (conditional inner) start fun tree rest =>
      Derives .statement start [tree] rest := by
  refine Parses.bind (consume_parses closed (by decide)) fun word afterWord _ isWord => ?_
  obtain ⟨rfl, isWord⟩ := isWord
  refine Parses.bind (expect_parses closed (by decide) _) fun opening body _ isOpening => ?_
  obtain ⟨rfl, isOpening⟩ := isOpening
  refine Parses.bind (sound .expression body nofun) fun condition afterCondition _ derived => ?_
  refine Parses.bind (expect_parses closed (by decide) _) fun closing middle _ isClosing => ?_
  obtain ⟨rfl, isClosing⟩ := isClosing
  refine Parses.bind (sound (.block true) middle nofun) fun positive rest _ first => ?_
  refine Parses.bind (check_parses .elseWord) fun found rest' _ holds => ?_
  obtain ⟨rfl, rfl⟩ := holds
  by_cases otherwise : (Cursor.before last rest').current.kind = .elseWord
  · rw [if_pos (decide_eq_true otherwise)]
    obtain ⟨token, later, rfl, isElse⟩ := exists_cons_of_current closed (by decide) otherwise
    refine Parses.bind (advance_parses (by rw [isElse]; decide)) fun _ rest _ moved => ?_
    obtain ⟨rfl, rfl⟩ := moved
    refine Parses.bind (sound (.block true) rest nofun) fun negative final _ second => ?_
    exact pure_parses (.alternative isWord isOpening derived isClosing first isElse second)
  · rw [if_neg (by simpa using otherwise)]
    exact pure_parses (.conditional isWord isOpening derived isClosing first)

include closed sound in
theorem loop_sound (start : List Token) :
    Parses last (loop inner) start fun tree rest => Derives .statement start [tree] rest := by
  refine Parses.bind (consume_parses closed (by decide)) fun word afterWord _ isWord => ?_
  obtain ⟨rfl, isWord⟩ := isWord
  refine Parses.bind (expect_parses closed (by decide) _) fun opening body _ isOpening => ?_
  obtain ⟨rfl, isOpening⟩ := isOpening
  refine Parses.bind (sound .expression body nofun) fun condition afterCondition _ derived => ?_
  refine Parses.bind (expect_parses closed (by decide) _) fun closing middle _ isClosing => ?_
  obtain ⟨rfl, isClosing⟩ := isClosing
  refine Parses.bind (sound (.block true) middle nofun) fun repeated rest _ first => ?_
  exact pure_parses (.loop isWord isOpening derived isClosing first)

include closed in
theorem parameters_parses (start : List Token) :
    Parses last (separated (expect .identifier .parameterName) (start.length + 1)) start
      fun names rest => Derives .parameters start (names.map Tree.leaf) rest := by
  refine separated_parses (fun start token rest => start = token :: rest ∧ token.kind = .identifier)
    (fun start names rest => Derives .parameters start (names.map Tree.leaf) rest) closed
    (fun start => expect_parses closed (by decide) _) ?_ ?_ ?_ _ start (Nat.lt_succ_self _)
  · rintro start token rest ⟨rfl, _⟩
    exact Nat.lt_succ_self _
  · rintro start token rest ⟨rfl, isName⟩
    exact .lastParameter isName
  · rintro start token comma middle names rest ⟨rfl, isName⟩ isComma others
    exact .nextParameter isName isComma others

include closed sound in
theorem definition_sound (start : List Token) :
    Parses last (definition inner) start fun tree rest =>
      Derives .statement start [tree] rest := by
  refine Parses.bind (consume_parses closed (by decide)) fun word afterWord _ isWord => ?_
  obtain ⟨rfl, isWord⟩ := isWord
  refine Parses.bind (expect_parses closed (by decide) _) fun name afterName _ isName => ?_
  obtain ⟨rfl, isName⟩ := isName
  refine Parses.bind (expect_parses closed (by decide) _) fun opening list _ isOpening => ?_
  obtain ⟨rfl, isOpening⟩ := isOpening
  refine Parses.bind (listed_parses closed (parameters_parses closed) list)
    fun names afterNames _ named => ?_
  refine Parses.bind (expect_parses closed (by decide) _) fun closing middle _ isClosing => ?_
  obtain ⟨rfl, isClosing⟩ := isClosing
  refine Parses.bind (sound (.block false) middle nofun) fun body rest _ derived => ?_
  rcases named with ⟨rfl, rfl, _⟩ | named
  · exact pure_parses (.nullaryDefinition isWord isName isOpening isClosing derived)
  · exact pure_parses (.definition isWord isName isOpening named isClosing derived)

include closed sound in
theorem assignment_sound (start : List Token) :
    Parses last (assignment inner) start fun tree rest =>
      Derives .statement start [tree] rest := by
  refine Parses.bind (consume_parses closed (by decide)) fun name afterName _ isName => ?_
  obtain ⟨rfl, isName⟩ := isName
  refine Parses.bind (consume_parses closed (by decide)) fun sign afterSign _ isSign => ?_
  obtain ⟨rfl, isSign⟩ := isSign
  refine Parses.bind (sound .expression afterSign nofun) fun value rest _ derived => ?_
  exact pure_parses (.assignment isName isSign derived)

theorem blockOver_parses (start : List Token) :
    Parses last blockOver start fun found rest =>
      rest = start ∧ (found = true → (Cursor.before last start).current.kind = .closeBrace) := by
  refine Parses.bind (check_parses .closeBrace) fun found rest _ holds => ?_
  obtain ⟨rfl, rfl⟩ := holds
  by_cases closes : (Cursor.before last rest).current.kind = .closeBrace
  · rw [if_pos (decide_eq_true closes)]
    exact pure_parses ⟨rfl, fun _ => closes⟩
  · rw [if_neg (by simpa using closes)]
    refine Parses.bind (check_parses .endOfInput) fun found rest' _ holds => ?_
    obtain ⟨rfl, rfl⟩ := holds
    split
    · exact reject_parses (by simp)
    · exact pure_parses ⟨rfl, fun impossible => absurd impossible (by simp)⟩

include closed sound in
theorem block_sound (opensScope : Bool) (start : List Token) :
    Parses last (block inner opensScope) start fun tree rest =>
      Derives (.block opensScope) start [tree] rest := by
  refine Parses.bind (require_parses closed (by decide) fun _ => by simp)
    fun opening list _ isOpening => ?_
  obtain ⟨rfl, isOpening⟩ := isOpening
  refine Parses.bind bound_parses fun rounds list' _ holds => ?_
  obtain ⟨rfl, rfl⟩ := holds
  refine Parses.bind (itemsUntil_parses blockOver_parses
    (fun start => sound .statement start nofun) _ list' (Nat.lt_succ_self _))
    fun trees afterList _ derived => ?_
  refine Parses.bind (consume_parses closed (by decide)) fun closing rest _ isClosing => ?_
  obtain ⟨rfl, isClosing⟩ := isClosing
  exact pure_parses (.block isOpening derived.1 isClosing)

/-! ## Expressions -/

include closed sound in
/-- Sorting reads operands and operators as far as they go. -/
theorem sortRun_parses (origin : List Token) (rounds : Nat) :
    ∀ (yard : Yard) (here : List Token), here.length < rounds → Sorted origin here yard →
      Parses last (sortRun inner rounds yard) here fun yard' rest => Sorted origin rest yard' := by
  induction rounds with
  | zero => intro yard here enough; exact absurd enough (Nat.not_lt_zero _)
  | succ rounds ih =>
      intro yard here enough sorted
      refine Parses.bind peek_parses fun token here' _ holds => ?_
      obtain ⟨rfl, rfl⟩ := holds
      split
      · next starts =>
        split
        · next wants =>
            refine Parses.bind (sound .operand here' fun _ => starts) fun tree rest _ derived => ?_
            have shorter := derived.length_le
            simp only [List.length_singleton] at shorter
            exact ih _ rest (by omega) (sorted.operand wants derived)
        · exact pure_parses sorted
      · split
        · next found =>
            obtain ⟨sign, rest, rfl, isOperator⟩ :=
              exists_cons_of_current closed (by decide) found
            split
            · exact reject_parses (by simp)
            · next complete =>
                have complete : yard.wantsOperand = false := by simpa using complete
                split
                · next unknown =>
                    exact .of_error rfl
                      ⟨sign, List.mem_cons_self, isOperator, rfl, unknown⟩
                · next operator known =>
                    refine Parses.bind (advance_parses (by rw [isOperator]; decide))
                      fun _ rest' _ moved => ?_
                    obtain ⟨rfl, rfl⟩ := moved
                    rw [List.length_cons] at enough
                    exact ih _ rest' (by omega) (sorted.operator complete isOperator known)
        · exact pure_parses sorted

/-- A finished sorting is an expression, and an unfinished one is a mistake. -/
theorem resolve_parses {origin here : List Token} {yard : Yard} (sorted : Sorted origin here yard)
    (start : Token) :
    Parses last (resolve start yard) here fun tree rest =>
      rest = here ∧ Derives .expression origin [tree] here := by
  unfold resolve
  cases complete : yard.wantsOperand with
  | false =>
      obtain ⟨tree, folded, derived⟩ := sorted.foldPostfix_eq complete start
      rw [folded]
      cases yard.waiting <;> exact pure_parses ⟨rfl, derived⟩
  | true =>
      cases waiting : yard.waiting with
      | cons top others => exact reject_parses (by simp)
      | nil =>
          rw [sorted.foldPostfix_eq_error complete waiting start]
          exact .of_error rfl (by simp [Ordinary])

include closed sound in
theorem expression_sound (start : List Token) :
    Parses last (expression inner) start fun tree rest =>
      Derives .expression start [tree] rest := by
  refine Parses.bind peek_parses fun token start' _ holds => ?_
  obtain ⟨rfl, rfl⟩ := holds
  refine Parses.bind bound_parses fun rounds start'' _ holds => ?_
  obtain ⟨rfl, rfl⟩ := holds
  refine Parses.bind (sortRun_parses closed sound start'' _ .empty start'' (Nat.lt_succ_self _)
    (sorted_empty start'')) fun yard rest _ sorted => ?_
  refine (resolve_parses sorted _).mono fun tree rest' _ holds => ?_
  obtain ⟨rfl, derived⟩ := holds
  exact derived

theorem literal_of_startsOperand {kind : Kind} (starts : kind.startsOperand = true)
    (notName : kind ≠ .identifier) (notGroup : kind ≠ .openParen) :
    kind = .numeral ∨ kind = .string := by
  cases kind <;> simp_all [Kind.startsOperand]

include closed sound in
theorem operand_sound {start : List Token}
    (starts : (Cursor.before last start).current.kind.startsOperand = true) :
    Parses last (operand inner) start fun tree rest => Derives .operand start [tree] rest := by
  refine Parses.bind peek_parses fun token start' _ holds => ?_
  obtain ⟨rfl, rfl⟩ := holds
  cases start' with
  | nil =>
      rw [Cursor.before, closed] at starts
      cases starts
  | cons token rest =>
      have starts : token.kind.startsOperand = true := starts
      have inside : token.kind ≠ .endOfInput := by
        intro ended
        rw [ended] at starts
        cases starts
      split
      · next isName =>
          have looked : Parses last peekNext (token :: rest) fun next rest' =>
              rest' = token :: rest ∧ next = (Cursor.before last rest).current :=
            .of_ok (peekNext_before_cons last token rest) List.suffix_rfl ⟨rfl, rfl⟩
          refine Parses.bind looked fun next start' _ holds => ?_
          obtain ⟨rfl, rfl⟩ := holds
          split
          · exact sound .call (token :: rest) (by rintro ⟨⟩)
          · next notCall =>
              refine Parses.bind (advance_parses inside) fun taken rest' _ moved => ?_
              obtain ⟨rfl, rfl⟩ := moved
              refine pure_parses (.name isName fun next member => ?_)
              cases rest' with
              | nil => cases member
              | cons head tail =>
                  cases member
                  exact notCall
      · next isOpening =>
          refine Parses.bind (advance_parses inside) fun taken rest' _ moved => ?_
          obtain ⟨rfl, rfl⟩ := moved
          refine Parses.bind (sound .expression rest' (by rintro ⟨⟩))
            fun tree afterTree _ derived => ?_
          refine Parses.bind (expect_parses closed (by decide) _)
            fun closing final _ isClosing => ?_
          obtain ⟨rfl, isClosing⟩ := isClosing
          exact pure_parses (.group isOpening derived isClosing)
      · next notName notGroup =>
          refine Parses.bind (advance_parses inside) fun taken rest' _ moved => ?_
          obtain ⟨rfl, rfl⟩ := moved
          exact pure_parses (.literal (literal_of_startsOperand starts notName notGroup))

include closed sound in
theorem arguments_parses (start : List Token) :
    Parses last (separated (inner .expression) (start.length + 1)) start
      (Derives .arguments start) := by
  refine separated_parses (fun start tree rest => Derives .expression start [tree] rest)
    (Derives .arguments) closed (fun start => sound .expression start nofun) ?_ .lastArgument
    .nextArgument _ start (Nat.lt_succ_self _)
  intro start tree rest derived
  exact derived.length_le

include closed sound in
theorem call_sound (start : List Token) :
    Parses last (call inner) start fun tree rest => Derives .operand start [tree] rest := by
  refine Parses.bind (consume_parses closed (by decide)) fun name afterName _ isName => ?_
  obtain ⟨rfl, isName⟩ := isName
  refine Parses.bind (consume_parses closed (by decide)) fun opening list _ isOpening => ?_
  obtain ⟨rfl, isOpening⟩ := isOpening
  refine Parses.bind (listed_parses closed (arguments_parses closed sound) list)
    fun trees afterList _ listed => ?_
  refine Parses.bind (expect_parses closed (by decide) _) fun closing rest _ isClosing => ?_
  obtain ⟨rfl, isClosing⟩ := isClosing
  rcases listed with ⟨rfl, rfl, _⟩ | listed
  · exact pure_parses (.nullaryCall isName isOpening isClosing)
  · exact pure_parses (.call isName isOpening listed isClosing)

include closed sound in
/-- Every rule of the parser is sound if the parser for the constructs inside is. -/
theorem construct_sound : Sound last (construct inner) := by
  intro form start ready
  cases form with
  | statement => exact statement_sound sound start
  | conditional => exact conditional_sound closed sound start
  | loop => exact loop_sound closed sound start
  | definition => exact definition_sound closed sound start
  | assignment => exact assignment_sound closed sound start
  | block opensScope => exact block_sound closed sound opensScope start
  | expression => exact expression_sound closed sound start
  | operand => exact operand_sound closed sound (ready rfl)
  | call => exact call_sound closed sound start

end Rules

/-- **The parser is sound.** At every depth it reads phrases of the grammar or fails in an ordinary
way. -/
theorem nested_sound (closed : last.kind = .endOfInput) (depth : Nat) :
    Sound last (nested depth) := by
  induction depth with
  | zero => exact fun _ _ _ => .of_error rfl trivial
  | succ depth ih => exact construct_sound closed ih

/-- A program that is parsed is derived, up to the first end of input. -/
theorem program_parses (closed : last.kind = .endOfInput) (depth : Nat) (start : List Token) :
    Parses last (program depth) start fun root rest =>
      ∃ trees, root = .block trees true 0 ∧ Derives .statements start trees rest ∧
        (Cursor.before last rest).current.kind = .endOfInput := by
  refine Parses.bind bound_parses fun rounds start' _ holds => ?_
  obtain ⟨rfl, rfl⟩ := holds
  have ends (start : List Token) : Parses last (check .endOfInput) start fun found rest =>
      rest = start ∧ (found = true → (Cursor.before last start).current.kind = .endOfInput) :=
    (check_parses .endOfInput).mono fun found rest _ holds =>
      ⟨holds.1, fun isTrue => of_decide_eq_true (holds.2.symm.trans isTrue)⟩
  refine Parses.bind (itemsUntil_parses ends
    (fun start => nested_sound closed depth .statement start nofun) _ start'
    (Nat.lt_succ_self _)) fun trees rest _ derived => ?_
  exact pure_parses ⟨trees, rfl, derived⟩

/-! ## Whole token lists -/

/-- A closed list is parsed from the position at which all of it is left. -/
theorem parseWithin_append (closed : last.kind = .endOfInput) (depth : Nat)
    (tokens : List Token) :
    parseWithin depth (tokens ++ [last]) =
      match program depth (.before last tokens) with
      | .ok tree _ => .ok tree
      | .error failure _ => .error failure := by
  cases ran : program depth (.before last tokens) with
  | ok tree cursor => simp only [parseWithin, Cursor.ofTokens?_append closed, ran]
  | error failure cursor => simp only [parseWithin, Cursor.ofTokens?_append closed, ran]

/-- What is parsed is a program. -/
theorem program_of_parseWithin (closed : last.kind = .endOfInput) {depth : Nat}
    {tokens : List Token} {root : Tree} (inside : ∀ token ∈ tokens, token.kind ≠ .endOfInput)
    (parsed : parseWithin depth (tokens ++ [last]) = .ok root) : Program tokens root := by
  have parses := program_parses closed depth tokens
  rw [parseWithin_append closed] at parsed
  unfold Parses at parses
  cases ran : program depth (.before last tokens) with
  | error failure cursor =>
      rw [ran] at parsed
      cases parsed
  | ok tree cursor =>
      rw [ran] at parsed parses
      cases parsed
      obtain ⟨rest, -, later, trees, rfl, derived, atEnd⟩ := parses
      cases rest with
      | nil => exact ⟨trees, derived, rfl⟩
      | cons token rest => exact absurd atEnd (inside token (later.subset List.mem_cons_self))

/-- What is not parsed is refused in an ordinary way. -/
theorem ordinary_of_parseWithin (closed : last.kind = .endOfInput) {depth : Nat}
    {tokens : List Token} {failure : Failure}
    (refused : parseWithin depth (tokens ++ [last]) = .error failure) :
    Ordinary tokens failure := by
  have parses := program_parses closed depth tokens
  rw [parseWithin_append closed] at refused
  unfold Parses at parses
  cases ran : program depth (.before last tokens) with
  | error failure' cursor =>
      rw [ran] at refused parses
      cases refused
      exact parses
  | ok tree cursor =>
      rw [ran] at refused
      cases refused

end Grammar

end BraceLang
