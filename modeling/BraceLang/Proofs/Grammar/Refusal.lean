import BraceLang.Proofs.Grammar.Soundness
import BraceLang.Proofs.Grammar.Viable

/-!
# Where a parser refuses a token

When a parser of the grammar refuses a token, it stands before that token, and the tokens that it
has read until then are the beginning of the phrase it was reading (`Halts`). A construct that
begins with a name never refuses the name itself.

As for soundness, this is shown for each rule in terms of the parser for the constructs inside
(`construct_careful`), and then at every depth (`nested_careful`).
-/

set_option autoImplicit false

namespace BraceLang

namespace Grammar

open BraceLang.Parser Effect

variable {α β : Type} {last : Token} {start : List Token} {halts : List Token → Prop}

/-! ## Refusals -/

/-- If the parser refuses a token where `start` is left, it stands before that token, and `halts`
holds of the tokens it has read. -/
def Refuses (last : Token) (parser : Parser α) (start : List Token)
    (halts : List Token → Prop) : Prop :=
  ∀ fault token cursor, parser (.before last start) = .error (.rejected fault token) cursor →
    ∃ read ahead, start = read ++ ahead ∧ cursor = .before last ahead ∧
      token = cursor.current ∧ halts read

namespace Refuses

theorem of_ok {parser : Parser α} {result : α} {cursor : Cursor}
    (ran : parser (.before last start) = .ok result cursor) :
    Refuses last parser start halts := by
  intro fault token cursor failed
  rw [ran] at failed
  cases failed

theorem of_broken {parser : Parser α} {defect : Defect} {cursor : Cursor}
    (ran : parser (.before last start) = .error (.broken defect) cursor) :
    Refuses last parser start halts := by
  intro fault token cursor failed
  rw [ran] at failed
  cases failed

/-- The token at the position is refused. -/
theorem here {parser : Parser α} {fault : Fault}
    (ran : parser (.before last start) =
      .error (.rejected fault (Cursor.before last start).current) (.before last start))
    (holds : halts []) : Refuses last parser start halts := by
  intro fault token cursor failed
  rw [ran] at failed
  cases failed
  exact ⟨[], start, rfl, rfl, rfl, holds⟩

theorem mono {parser : Parser α} {halts' : List Token → Prop}
    (refuses : Refuses last parser start halts)
    (weaker : ∀ read ahead, start = read ++ ahead → halts read → halts' read) :
    Refuses last parser start halts' := by
  intro fault token cursor failed
  obtain ⟨read, ahead, same, place, found, holds⟩ := refuses fault token cursor failed
  exact ⟨read, ahead, same, place, found, weaker read ahead same holds⟩

/-- One parser after another. -/
theorem bind {parser : Parser α} {next : α → Parser β} {post : α → List Token → Prop}
    (refuses : Refuses last parser start halts) (parses : Parses last parser start post)
    (follows : ∀ result read rest, start = read ++ rest → post result rest →
      Refuses last (next result) rest fun more => halts (read ++ more)) :
    Refuses last (parser >>= next) start halts := by
  intro fault token cursor failed
  unfold Parses at parses
  cases ran : parser (.before last start) with
  | error failure stopped =>
      rw [bind_of_error ran] at failed
      cases failed
      exact refuses fault token cursor ran
  | ok result middle =>
      rw [ran] at parses
      obtain ⟨rest, rfl, ⟨read, rfl⟩, holds⟩ := parses
      rw [bind_of_ok ran] at failed
      obtain ⟨more, ahead, rfl, place, found, halted⟩ :=
        follows result read rest rfl holds fault token cursor failed
      exact ⟨read ++ more, ahead, by rw [List.append_assoc], place, found, halted⟩

/-- After a parser that does not move. -/
theorem look {parser : Parser α} {next : α → Parser β} {result : α}
    (ran : parser (.before last start) = .ok result (.before last start))
    (follows : Refuses last (next result) start halts) :
    Refuses last (parser >>= next) start halts := by
  intro fault token cursor failed
  rw [bind_of_ok ran] at failed
  exact follows fault token cursor failed

/-- After a parser that takes the next token. -/
theorem step {parser : Parser α} {next : α → Parser β} {result : α} {token : Token}
    {rest : List Token}
    (ran : parser (.before last (token :: rest)) = .ok result (.before last rest))
    (follows : Refuses last (next result) rest fun more => halts (token :: more)) :
    Refuses last (parser >>= next) (token :: rest) halts := by
  intro fault refused cursor failed
  rw [bind_of_ok ran] at failed
  obtain ⟨read, ahead, rfl, place, found, holds⟩ := follows fault refused cursor failed
  exact ⟨token :: read, ahead, rfl, place, found, holds⟩

/-- A result that is only rearranged. -/
theorem map {parser : Parser α} (refuses : Refuses last parser start halts) (rearrange : α → β) :
    Refuses last (parser >>= fun result => pure (rearrange result)) start halts := by
  intro fault token cursor failed
  cases ran : parser (.before last start) with
  | error failure stopped =>
      rw [bind_of_error ran] at failed
      cases failed
      exact refuses fault token cursor ran
  | ok result middle =>
      rw [bind_of_ok ran] at failed
      cases failed

theorem assoc {γ : Type} {parser : Parser α} {middle : α → Parser β} {next : β → Parser γ}
    (refuses : Refuses last (parser >>= fun result => middle result >>= next) start halts) :
    Refuses last ((parser >>= middle) >>= next) start halts := by
  rw [bind_assoc]
  exact refuses

/-- A token of a kind is taken, or it is the token that is refused. -/
theorem require (closed : last.kind = .endOfInput) {kind : Kind} (inside : kind ≠ .endOfInput)
    {fault : Token → Fault} {next : Token → Parser β}
    (missing : (Cursor.before last start).current.kind ≠ kind → halts [])
    (follows : ∀ token rest, start = token :: rest → token.kind = kind →
      Refuses last (next token) rest fun more => halts (token :: more)) :
    Refuses last (Parser.require kind fault >>= next) start halts := by
  by_cases found : (Cursor.before last start).current.kind = kind
  · obtain ⟨token, rest, rfl, same⟩ := exists_cons_of_current closed inside found
    exact .step (require_before_cons same inside fault last rest) (follows token rest rfl same)
  · exact .here (bind_of_error (require_before_of_ne found fault)) (missing found)

end Refuses

/-! ## Repetition -/

/-- A parser that only looks: it gives a result or refuses the next token, and does not move. -/
def Looks (last : Token) (parser : Parser α) : Prop :=
  ∀ start, (∃ result, parser (.before last start) = .ok result (.before last start)) ∨
    ∃ fault, parser (.before last start) =
      .error (.rejected fault (Cursor.before last start).current) (.before last start)

theorem check_looks (last : Token) (kind : Kind) : Looks last (check kind) :=
  fun start => .inl ⟨_, check_before kind last start⟩

theorem blockOver_looks (last : Token) : Looks last blockOver := by
  intro start
  unfold blockOver
  rw [bind_of_ok (check_before .closeBrace last start)]
  split
  · exact .inl ⟨true, rfl⟩
  · rw [bind_of_ok (check_before .endOfInput last start)]
    split
    · exact .inr ⟨.unclosedBlock, rfl⟩
    · exact .inl ⟨false, rfl⟩

/-- A list in parentheses is refused where one of its items is. -/
theorem listed_refuses {item : Parser α}
    (refuses : Refuses last (separated item (start.length + 1)) start halts) :
    Refuses last (listed item) start halts := by
  refine .look (check_before .closeParen last start) ?_
  split
  · exact .of_ok rfl
  · exact .look (bound_before last start) refuses

/-- Items with commas between them. -/
theorem separated_refuses {item : Parser α} {one : List Token → α → Prop}
    (closed : last.kind = .endOfInput)
    (reads : ∀ start, Parses last item start fun value rest =>
      ∃ read, start = read ++ rest ∧ one read value)
    (refuses : ∀ start, Refuses last item start halts)
    (next : ∀ {read value comma more}, one read value → comma.kind = .comma → halts more →
      halts (read ++ comma :: more)) (rounds : Nat) :
    ∀ start, Refuses last (separated item rounds) start halts := by
  induction rounds with
  | zero => exact fun _ => .of_broken rfl
  | succ rounds ih =>
      intro start
      refine .bind (refuses start) (reads start) ?_
      rintro value read rest rfl ⟨read', same, isItem⟩
      obtain rfl : read = read' := List.append_cancel_right same
      refine .look (check_before .comma last rest) ?_
      split
      · next found =>
          obtain ⟨comma, later, rfl, isComma⟩ :=
            exists_cons_of_current closed (by decide) (of_decide_eq_true found)
          refine .step (advance_before_cons (by simp [isComma]) last later) ?_
          exact ((ih later).mono fun more _ _ holds => next isItem isComma holds).map _
      · exact .of_ok rfl

/-! ## Constructs -/

/-- The constructs that are read where a name stands and begin with it. -/
def takesName : Construct → Bool
  | .assignment | .expression | .operand | .call => true
  | _ => false

/-- What a construct has read when it refuses a token: the beginning of its phrase, and a name if
there is one at its start. -/
structure Halts (last : Token) (form : Construct) (start read : List Token) : Prop where
  viable : Viable (phraseOf form) read
  taken : takesName form = true → (Cursor.before last start).current.kind = .identifier → read ≠ []

/-- A parser for constructs that only refuses tokens after the beginning of a phrase. -/
def Careful (last : Token) (inner : Construct → Parser Tree) : Prop :=
  ∀ form start,
    (form = .operand → (Cursor.before last start).current.kind.startsOperand = true) →
    Refuses last (inner form) start (Halts last form start)

theorem Halts.of_viable {form : Construct} {read : List Token} (other : takesName form = false)
    (viable : Viable (phraseOf form) read) : Halts last form start read :=
  ⟨viable, fun takes => absurd (other.symm.trans takes) nofun⟩

section Rules

variable {inner : Construct → Parser Tree} (closed : last.kind = .endOfInput)
  (sound : Sound last inner) (careful : Careful last inner)

include sound careful in
/-- A construct inside another one, and what comes after it. -/
theorem inner_refuses (form : Construct) {next : Tree → Parser β}
    (ready : form = .operand → (Cursor.before last start).current.kind.startsOperand = true)
    (fails : ∀ read, Halts last form start read → halts read)
    (follows : ∀ tree read rest, start = read ++ rest → Apart read rest →
      Whole (phraseOf form) read [tree] →
        Refuses last (next tree) rest fun more => halts (read ++ more)) :
    Refuses last (inner form >>= next) start halts := by
  refine .bind ((careful form start ready).mono fun read _ _ => fails read)
    (sound form start ready) ?_
  rintro tree read rest rfl derived
  obtain ⟨taken, same, apart, whole⟩ := derived.exists_read
  obtain rfl : read = taken := List.append_cancel_right same
  have notParameters : phraseOf form ≠ .parameters := by cases form <;> nofun
  exact follows tree read rest rfl (apart notParameters) whole

include sound careful in
/-- Statements up to a place at which the list is over. -/
theorem itemsUntil_refuses {ended : Parser Bool} (looks : Looks last ended) (rounds : Nat) :
    ∀ start,
      Refuses last (itemsUntil ended (inner .statement) rounds) start (Viable .statements) := by
  induction rounds with
  | zero => exact fun _ => .of_broken rfl
  | succ rounds ih =>
      intro start
      rcases looks start with ⟨isOver, ran⟩ | ⟨fault, ran⟩
      · refine .look ran ?_
        cases isOver with
        | true => exact .of_ok rfl
        | false =>
            refine inner_refuses sound careful .statement nofun
              (fun read halts => halts.viable.firstStatement) ?_
            rintro tree first others rfl apart whole
            refine Refuses.map (Refuses.mono (ih others) ?_) _
            rintro more ahead rfl viable
            exact viable.nextStatement whole apart
      · exact .here (bind_of_error ran) Whole.noStatement.viable

/-! ## Statements -/

include careful in
theorem statement_refuses (start : List Token) :
    Refuses last (statement inner) start (Halts last .statement start) := by
  have expression : Refuses last (inner .expression) start (Halts last .statement start) :=
    (careful .expression start nofun).mono fun _ _ _ halts =>
      .of_viable rfl halts.viable.evaluation
  refine .look (peek_before last start) ?_
  split
  · exact (careful .conditional start nofun).mono fun _ _ _ halts => .of_viable rfl halts.viable
  · exact (careful .loop start nofun).mono fun _ _ _ halts => .of_viable rfl halts.viable
  · exact (careful .definition start nofun).mono fun _ _ _ halts => .of_viable rfl halts.viable
  · exact .here rfl (.of_viable rfl viable_nil_statement)
  · exact (careful (.block true) start nofun).mono fun _ _ _ halts =>
      .of_viable rfl halts.viable.scope
  · have looked : peekNext (.before last start) =
        .ok (Cursor.before last start).next (.before last start) := rfl
    refine .look looked ?_
    split
    · exact (careful .assignment start nofun).mono fun _ _ _ halts =>
        .of_viable rfl halts.viable
    · exact expression
  · exact expression

include closed sound careful in
/-- What conditions and loops have in common: a word, an expression in parentheses and a block. -/
theorem guarded_refuses {kind : Kind} (guards : kind = .ifWord ∨ kind = .whileWord)
    {opens closes : Expectation} {next : Token → Tree → Tree → Parser Tree}
    (ends : ∀ {word opening closing condition question positive branch} rest, word.kind = kind →
      opening.kind = .openParen → Whole .expression condition [question] →
        closing.kind = .closeParen → Whole (.block true) positive [branch] →
          Refuses last (next word question branch) rest fun more =>
            Viable .statement (word :: opening :: condition ++ closing :: positive ++ more))
    (start : List Token) :
    Refuses last (do
      let word ← consume kind
      let _ ← expect .openParen opens
      let question ← inner .expression
      let _ ← expect .closeParen closes
      let branch ← inner (.block true)
      next word question branch) start (Viable .statement) := by
  have inside : kind ≠ .endOfInput := by rcases guards with rfl | rfl <;> decide
  refine .require closed inside (fun _ => viable_nil_statement) fun word rest _ isWord => ?_
  have guarded : word.kind = .ifWord ∨ word.kind = .whileWord := by rwa [isWord]
  -- a condition that is begun can be completed, and the block can be filled
  have asks {opening : Token} {read : List Token} (isOpening : opening.kind = .openParen)
      (viable : Viable .expression read) : Viable .statement (word :: opening :: read) := by
    obtain ⟨more, question, whole⟩ := viable.exists_whole rfl
    have closes := Viable.guarded guarded isOpening whole (filler_kind .closeParen)
      (viable_nil_block true)
    have arranged : Viable .statement
        ((word :: opening :: read) ++ (more ++ [filler .closeParen])) := by
      simpa using closes
    exact arranged.of_append
  have opens : Viable .statement ([word] ++ [filler .openParen]) :=
    asks (filler_kind .openParen) viable_nil_expression
  refine .require closed (by decide) (fun _ => opens.of_append) fun opening rest _ isOpening => ?_
  refine inner_refuses sound careful .expression nofun
    (fun read halts => asks isOpening halts.viable) fun question condition rest _ _ whole => ?_
  refine .require closed (by decide) (fun _ => ?_) fun closing rest _ isClosing => ?_
  · rw [List.append_nil]
    exact asks isOpening whole.viable
  · refine inner_refuses sound careful (.block true) nofun (fun read halts => ?_)
      fun branch positive rest _ _ whole' => ?_
    · exact .guarded guarded isOpening whole isClosing halts.viable
    · refine (ends rest isWord isOpening whole isClosing whole').mono fun more _ _ viable => ?_
      simpa using viable

include closed sound careful in
theorem conditional_refuses (start : List Token) :
    Refuses last (conditional inner) start (Viable .statement) := by
  refine guarded_refuses closed sound careful (.inl rfl) ?_ start
  intro word opening closing condition question positive branch rest isWord isOpening whole
    isClosing whole'
  refine .look (check_before .elseWord last rest) ?_
  split
  · next found =>
      obtain ⟨otherwise, later, rfl, isElse⟩ :=
        exists_cons_of_current closed (by decide) (of_decide_eq_true found)
      refine .step (advance_before_cons (by simp [isElse]) last later) ?_
      refine Refuses.map ((careful (.block true) later nofun).mono fun read _ _ halts => ?_) _
      exact .alternative isWord isOpening whole isClosing whole' isElse halts.viable
  · exact .of_ok rfl

include closed sound careful in
theorem loop_refuses (start : List Token) :
    Refuses last (loop inner) start (Viable .statement) :=
  guarded_refuses closed sound careful (.inr rfl) (fun _ _ _ _ _ _ => .of_ok rfl) start

include closed in
theorem parameters_refuses (rounds : Nat) (start : List Token) :
    Refuses last (separated (expect .identifier .parameterName) rounds) start
      (Viable .parameters) := by
  have reads (start : List Token) :
      Parses last (expect .identifier .parameterName) start fun token rest =>
        ∃ read, start = read ++ rest ∧ read = [token] ∧ token.kind = .identifier :=
    (expect_parses closed (by decide) _).mono fun token rest _ holds =>
      ⟨[token], holds.1, rfl, holds.2⟩
  refine separated_refuses closed reads (fun start => ?_) ?_ rounds start
  · by_cases found : (Cursor.before last start).current.kind = .identifier
    · obtain ⟨token, rest, rfl, isName⟩ := exists_cons_of_current closed (by decide) found
      exact .of_ok (require_before_cons isName (by decide) _ last rest)
    · exact .here (require_before_of_ne found _) viable_nil_parameters
  · rintro read token comma more ⟨rfl, isName⟩ isComma viable
    exact viable.nextParameter isName isComma

include closed careful in
theorem definition_refuses (start : List Token) :
    Refuses last (definition inner) start (Viable .statement) := by
  refine .require closed (by decide) (fun _ => viable_nil_statement) fun word rest _ isWord => ?_
  have named {name : Token} (isName : name.kind = .identifier) :
      Viable .statement ([word, name] ++ [filler .openParen]) :=
    .parameters isWord isName (filler_kind .openParen) viable_nil_parameters
  have begun : Viable .statement ([word] ++ [filler .identifier]) :=
    (named (filler_kind .identifier)).of_append
  refine .require closed (by decide) (fun _ => begun.of_append) fun name rest _ isName => ?_
  refine .require closed (by decide) (fun _ => (named isName).of_append)
    fun opening list _ isOpening => ?_
  refine .bind ((listed_refuses (parameters_refuses closed _ list)).mono fun read _ _ viable =>
      .parameters isWord isName isOpening viable)
    (listed_parses closed (parameters_parses closed) list) ?_
  rintro names read rest rfl (⟨rfl, same, -⟩ | derived)
  · obtain rfl : read = [] := List.append_cancel_right same.symm
    refine .require closed (by decide)
      (fun _ => .parameters isWord isName isOpening viable_nil_parameters)
      fun closing rest _ isClosing => ?_
    refine Refuses.map ((careful (.block false) rest nofun).mono fun more _ _ halts => ?_) _
    exact .nullaryDefinition isWord isName isOpening isClosing halts.viable
  · have whole := derived.whole
    refine .require closed (by decide) (fun _ => ?_) fun closing rest _ isClosing => ?_
    · rw [List.append_nil]
      exact .parameters isWord isName isOpening whole.viable
    · refine Refuses.map ((careful (.block false) rest nofun).mono fun more _ _ halts => ?_) _
      exact .definition isWord isName isOpening whole isClosing halts.viable

include closed careful in
theorem assignment_refuses (start : List Token) :
    Refuses last (assignment inner) start (Halts last .assignment start) := by
  refine .require closed (by decide) (fun other => ?_) fun name rest _ isName => ?_
  · exact ⟨viable_nil_statement, fun _ found => absurd found other⟩
  · have begun : Viable .statement ([name] ++ [filler .assign]) :=
      .assignment isName (filler_kind .assign) viable_nil_expression
    refine .require closed (by decide) (fun _ => ?_) fun sign rest _ isSign => ?_
    · exact ⟨begun.of_append, fun _ _ => List.cons_ne_nil _ _⟩
    · refine Refuses.map ((careful .expression rest nofun).mono fun read _ _ halts => ?_) _
      exact ⟨.assignment isName isSign halts.viable, fun _ _ => List.cons_ne_nil _ _⟩

include closed sound careful in
theorem block_refuses (opensScope : Bool) (start : List Token) :
    Refuses last (block inner opensScope) start (Viable (.block opensScope)) := by
  refine .require closed (by decide) (fun _ => viable_nil_block opensScope)
    fun opening list _ isOpening => ?_
  refine .look (bound_before last list) ?_
  refine .bind ((itemsUntil_refuses sound careful (blockOver_looks last) _ list).mono
    fun read _ _ viable => .block isOpening viable) (itemsUntil_parses blockOver_parses
    (fun start => sound .statement start nofun) _ list (Nat.lt_succ_self _)) ?_
  rintro trees read rest rfl ⟨derived, -⟩
  refine .require closed (by decide) (fun _ => ?_) fun _ _ _ _ => .of_ok rfl
  rw [List.append_nil]
  exact .block isOpening derived.whole.viable

/-! ## Expressions -/

/-- A sorted run is refused where an operand is missing. -/
theorem resolve_refuses {origin here : List Token} {yard : Yard} (sorted : Sorted origin here yard)
    (missing : yard.wantsOperand = true → halts []) :
    Refuses last (resolve (Cursor.before last origin).current yard) here halts := by
  unfold resolve
  cases wants : yard.wantsOperand with
  | false =>
      obtain ⟨tree, folded, -⟩ := sorted.foldPostfix_eq wants (Cursor.before last origin).current
      rw [folded]
      cases yard.waiting <;> exact .of_ok rfl
  | true =>
      cases waiting : yard.waiting with
      | cons top others => exact .here rfl (missing wants)
      | nil =>
          rw [sorted.foldPostfix_eq_error wants waiting]
          rw [Sorted, if_pos wants, waiting] at sorted
          obtain ⟨stack, -, suspended⟩ := sorted
          cases suspended
          exact .here rfl (missing wants)

include closed sound careful in
/-- Sorting the rest of an expression and folding it. The tokens before are what has been sorted
already. -/
theorem sortRun_refuses (origin : List Token) (rounds : Nat) :
    ∀ (yard : Yard) (before here : List Token), origin = before ++ here →
      Sorted origin here yard →
        Refuses last
          (sortRun inner rounds yard >>= resolve (Cursor.before last origin).current) here
          fun read => Halts last .expression origin (before ++ read) := by
  induction rounds with
  | zero => exact fun _ _ _ _ _ => .of_broken rfl
  | succ rounds ih =>
      intro yard before here same sorted
      -- where an operand is missing, the tokens before are viable, and there are some of them
      -- unless the expression begins here
      have missing (wants : yard.wantsOperand = true)
          (other : (Cursor.before last here).current.kind ≠ .identifier) :
          Halts last .expression origin (before ++ []) := by
        refine ⟨sorted.viable wants same viable_nil_operand, fun _ found empty => ?_⟩
        rw [List.append_nil] at empty
        rw [empty, List.nil_append] at same
        exact other (same ▸ found)
      refine .assoc (.look (peek_before last here) ?_)
      split
      · next starts =>
        split
        · next wants =>
            refine .assoc (inner_refuses sound careful .operand (fun _ => starts)
              (fun read halts => ?_) fun tree read rest here apart whole => ?_)
            · refine ⟨sorted.viable wants same halts.viable, fun _ found empty => ?_⟩
              obtain ⟨rfl, empty⟩ := List.append_eq_nil_iff.mp empty
              rw [List.nil_append] at same
              exact halts.taken rfl (same ▸ found) empty
            · subst here
              have next := ih (yard.operand tree) (before ++ read) rest (by simp [same])
                (sorted.operand wants (whole rest apart))
              simpa using next
        · next complete =>
            exact resolve_refuses sorted fun wants => absurd wants complete
      · split
        · next found =>
            obtain ⟨sign, rest, rfl, isOperator⟩ :=
              exists_cons_of_current closed (by decide) found
            split
            · next wants => exact .here rfl (missing wants (by rw [found]; decide))
            · next complete =>
                have complete : yard.wantsOperand = false := by simpa using complete
                split
                · exact .of_broken rfl
                · next operator known =>
                    refine .assoc (.step
                      (advance_before_cons (by rw [isOperator]; decide) last rest) ?_)
                    have next := ih (yard.operator sign operator.level) (before ++ [sign]) rest
                      (by simp [same]) (sorted.operator complete isOperator known)
                    simpa using next
        · next starts _ =>
            refine resolve_refuses sorted fun wants => missing wants fun found => ?_
            rw [found] at starts
            exact starts rfl

include closed sound careful in
theorem expression_refuses (start : List Token) :
    Refuses last (expression inner) start (Halts last .expression start) := by
  refine .look (peek_before last start) (.look (bound_before last start) ?_)
  exact sortRun_refuses closed sound careful start _ .empty [] start rfl (sorted_empty start)

include closed sound careful in
theorem operand_refuses (start : List Token) :
    Refuses last (operand inner) start (Halts last .operand start) := by
  refine .look (peek_before last start) ?_
  split
  · have looked : peekNext (.before last start) =
        .ok (Cursor.before last start).next (.before last start) := rfl
    refine .look looked ?_
    split
    · exact (careful .call start nofun).mono fun _ _ _ halts =>
        ⟨halts.viable, fun _ => halts.taken rfl⟩
    · exact .of_ok rfl
  · next found =>
      obtain ⟨opening, rest, rfl, isOpening⟩ := exists_cons_of_current closed (by decide) found
      refine .step (advance_before_cons (by rw [isOpening]; decide) last rest) ?_
      refine inner_refuses sound careful .expression nofun (fun read halts => ?_)
        fun tree read rest _ _ whole => ?_
      · exact ⟨.group isOpening halts.viable, fun _ _ => List.cons_ne_nil _ _⟩
      · refine .require closed (by decide) (fun _ => ?_) fun _ _ _ _ => .of_ok rfl
        rw [List.append_nil]
        exact ⟨.group isOpening whole.viable, fun _ _ => List.cons_ne_nil _ _⟩
  · exact .of_ok rfl

include closed sound careful in
theorem arguments_refuses (rounds : Nat) (start : List Token) :
    Refuses last (separated (inner .expression) rounds) start (Viable .arguments) := by
  have reads (start : List Token) : Parses last (inner .expression) start fun tree rest =>
      ∃ read, start = read ++ rest ∧ Whole .expression read [tree] := by
    refine (sound .expression start nofun).mono fun tree rest _ derived => ?_
    obtain ⟨read, same, -, whole⟩ := derived.exists_read
    exact ⟨read, same, whole⟩
  refine separated_refuses closed reads (fun start => ?_) ?_ rounds start
  · exact (careful .expression start nofun).mono fun _ _ _ halts => halts.viable.firstArgument
  · intro read tree comma more whole isComma viable
    exact viable.nextArgument whole isComma

include closed sound careful in
theorem call_refuses (start : List Token) :
    Refuses last (call inner) start (Halts last .call start) := by
  refine .require closed (by decide) (fun other => ?_) fun name rest _ isName => ?_
  · exact ⟨viable_nil_operand, fun _ found => absurd found other⟩
  · have halts {read : List Token} (viable : Viable .operand (name :: read)) :
        Halts last .call start (name :: read) :=
      ⟨viable, fun _ _ => List.cons_ne_nil _ _⟩
    refine .require closed (by decide) (fun _ => ?_) fun opening list _ isOpening => ?_
    · exact halts (Whole.name isName).viable
    · refine .bind ((listed_refuses (arguments_refuses closed sound careful _ list)).mono
        fun read _ _ viable => halts (.call isName isOpening viable))
        (listed_parses closed (arguments_parses closed sound) list) ?_
      rintro trees read rest rfl listed
      refine .require closed (by decide) (fun _ => ?_) fun _ _ _ _ => .of_ok rfl
      rw [List.append_nil]
      rcases listed with ⟨-, same, -⟩ | derived
      · obtain rfl : read = [] := List.append_cancel_right same.symm
        exact halts (.call isName isOpening viable_nil_expression.firstArgument)
      · exact halts (.call isName isOpening derived.whole.viable)

include closed sound careful in
/-- Every rule of the parser is careful if the parser for the constructs inside is. -/
theorem construct_careful : Careful last (construct inner) := by
  intro form start _
  cases form with
  | statement => exact statement_refuses careful start
  | conditional =>
      exact (conditional_refuses closed sound careful start).mono fun _ _ _ viable =>
        .of_viable rfl viable
  | loop =>
      exact (loop_refuses closed sound careful start).mono fun _ _ _ viable =>
        .of_viable rfl viable
  | definition =>
      exact (definition_refuses closed careful start).mono fun _ _ _ viable =>
        .of_viable rfl viable
  | assignment => exact assignment_refuses closed careful start
  | block opensScope =>
      exact (block_refuses closed sound careful opensScope start).mono fun _ _ _ viable =>
        .of_viable rfl viable
  | expression => exact expression_refuses closed sound careful start
  | operand => exact operand_refuses closed sound careful start
  | call => exact call_refuses closed sound careful start

end Rules

/-- **The parser is careful.** At every depth it refuses a token only after the beginning of a
phrase. -/
theorem nested_careful (closed : last.kind = .endOfInput) (depth : Nat) :
    Careful last (nested depth) := by
  induction depth with
  | zero =>
      intro form start _ fault token cursor failed
      cases failed
  | succ depth ih => exact construct_careful closed (nested_sound closed depth) ih

/-- A program is refused after the beginning of a program. -/
theorem program_refuses (closed : last.kind = .endOfInput) (depth : Nat) (start : List Token) :
    Refuses last (program depth) start (Viable .statements) := by
  refine .look (bound_before last start) (Refuses.map ?_ _)
  exact itemsUntil_refuses (nested_sound closed depth) (nested_careful closed depth)
    (check_looks last .endOfInput) _ start

end Grammar

end BraceLang
