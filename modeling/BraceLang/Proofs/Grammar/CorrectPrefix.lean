import BraceLang.Proofs.Grammar.Exactness
import BraceLang.Proofs.Grammar.Simulation

/-!
# The first impossible token

A token list is refused at the first token that no program has there. The tokens before it are the
beginning of a program, which is known from what the parser has read when it refuses a token. And
the tokens after it do not matter: the parser has not looked at them.

For the second part, a `Fork` is a pair of lists that agree up to a token. A parser does the same on
both of them as long as it stops before that token or at it (`Fork.Agrees`), and this is a relation
that the rules of the parser keep. The choice by the token after a name is the only place at which a
parser looks further than the token before which it stands.
-/

set_option autoImplicit false

namespace BraceLang

namespace Grammar

open BraceLang.Parser Effect

variable {α β : Type}

/-! ## Forks -/

/-- Two closed token lists that agree up to a token: what follows it in each of them, and the token
at its end. -/
structure Fork where
  token : Token
  more : List Token
  more' : List Token
  last : Token
  last' : Token
  inside : token.kind ≠ .endOfInput
  closed : last.kind = .endOfInput
  closed' : last'.kind = .endOfInput

namespace Fork

variable (fork : Fork)

/-- The position in the first list, with some common tokens left before the token of the fork. -/
def left (read : List Token) : Cursor :=
  .before fork.last (read ++ fork.token :: fork.more)

/-- The same position in the second list. -/
def right (read : List Token) : Cursor :=
  .before fork.last' (read ++ fork.token :: fork.more')

theorem left_nil : fork.left [] = .before fork.last (fork.token :: fork.more) :=
  rfl

theorem current_left (read : List Token) :
    (fork.left read).current = (fork.right read).current := by
  cases read <;> rfl

theorem next_left_cons (head : Token) (read : List Token) :
    (fork.left (head :: read)).next = (fork.right (head :: read)).next := by
  cases read <;> rfl

theorem advance_left_cons {head : Token} (inside : head.kind ≠ .endOfInput) (read : List Token) :
    (fork.left (head :: read)).advance = fork.left read ∧
      (fork.right (head :: read)).advance = fork.right read :=
  ⟨Cursor.advance_before_cons inside _ _, Cursor.advance_before_cons inside _ _⟩

/-- A position in the first list after the token of the fork. -/
def Passed (cursor : Cursor) : Prop :=
  ∃ rest, cursor = .before fork.last rest ∧ rest.length ≤ fork.more.length

theorem passed_advance {cursor : Cursor} (passed : fork.Passed cursor) :
    fork.Passed cursor.advance := by
  obtain ⟨rest, rfl, short⟩ := passed
  unfold Cursor.advance
  split
  · exact ⟨rest, rfl, short⟩
  · next inside =>
      cases rest with
      | nil => exact absurd fork.closed inside
      | cons token rest =>
          rw [List.length_cons] at short
          refine ⟨rest, ?_, Nat.le_of_succ_le short⟩
          cases rest <;> rfl

theorem not_passed_left (read : List Token) : ¬fork.Passed (fork.left read) := by
  rintro ⟨rest, same, short⟩
  have lengths := congrArg Cursor.remaining same
  rw [left, Cursor.remaining_before, Cursor.remaining_before, List.length_append,
    List.length_cons] at lengths
  omega

theorem left_injective {read rest : List Token} (same : fork.left read = fork.left rest) :
    read.length = rest.length := by
  have lengths := congrArg Cursor.remaining same
  rw [left, left, Cursor.remaining_before, Cursor.remaining_before, List.length_append,
    List.length_append] at lengths
  omega

/-! ## Outcomes on both lists -/

/-- An outcome for which the token of the fork has been taken, or one that is not about a token. -/
def Beyond : EStateM.Result Failure Cursor α → Prop
  | .ok _ cursor | .error (.rejected _ _) cursor => fork.Passed cursor
  | .error _ _ => True

/-- Outcomes on the first and the second list: they are the same, or the first one is beyond the
fork. -/
inductive Parallel (view : α → α) :
    EStateM.Result Failure Cursor α → EStateM.Result Failure Cursor α → Prop where
  | ok (result : α) (read : List Token) :
      Parallel view (.ok result (fork.left read)) (.ok (view result) (fork.right read))
  | rejected (fault : Fault) (token : Token) (read : List Token) :
      Parallel view (.error (.rejected fault token) (fork.left read))
        (.error (.rejected fault token) (fork.right read))
  | beyond {outcome : EStateM.Result Failure Cursor α} (other : EStateM.Result Failure Cursor α) :
      fork.Beyond outcome → Parallel view outcome other

/-- Parsers with the same outcomes on both lists, up to the fork. -/
structure Agrees (view : α → α) (parser parser' : Parser α) : Prop where
  stays {cursor : Cursor} : fork.Passed cursor → fork.Beyond (parser cursor)
  same (read : List Token) :
    fork.Parallel view (parser (fork.left read)) (parser' (fork.right read))

variable {fork}

theorem Agrees.value (view : α → α) (result : α) :
    fork.Agrees view (pure result) (pure (view result)) where
  stays passed := passed
  same read := .ok result read

theorem Agrees.fail (view : α → α) (failure : Failure) :
    fork.Agrees view (throw failure) (throw (failure.relocate id)) where
  stays passed := by
    match failure with
    | .rejected _ _ => exact passed
    | .tooDeep _ | .broken _ => trivial
  same read := by
    match failure with
    | .rejected fault token => exact .rejected fault token read
    | .tooDeep _ | .broken _ => exact .beyond _ trivial

theorem Agrees.giveUp (view : α → α) : fork.Agrees view giveUp giveUp where
  stays _ := trivial
  same _ := .beyond _ trivial

/-- What comes after an outcome beyond the fork is beyond the fork. -/
theorem beyond_bind {parser : Parser α} {next : α → Parser β} {cursor : Cursor}
    (first : fork.Beyond (parser cursor))
    (rest : ∀ result {middle}, fork.Passed middle → fork.Beyond (next result middle)) :
    fork.Beyond ((parser >>= next) cursor) := by
  cases ran : parser cursor with
  | ok result middle =>
      rw [ran] at first
      rw [bind_of_ok ran]
      exact rest result first
  | error failure middle =>
      rw [ran] at first
      rw [bind_of_error ran]
      cases failure <;> exact first

theorem Agrees.chain {view : α → α} {view' : β → β} {first first' : Parser α}
    {next next' : α → Parser β} (one : fork.Agrees view first first')
    (other : ∀ result, fork.Agrees view' (next result) (next' (view result))) :
    fork.Agrees view' (first >>= next) (first' >>= next') where
  stays passed := beyond_bind (one.stays passed) fun result _ => (other result).stays
  same read := by
    have parallel := one.same read
    generalize ran : first (fork.left read) = outcome at parallel
    generalize ran' : first' (fork.right read) = outcome' at parallel
    cases parallel with
    | ok result middle =>
        rw [bind_of_ok ran, bind_of_ok ran']
        exact (other result).same middle
    | rejected fault token middle =>
        rw [bind_of_error ran, bind_of_error ran']
        exact .rejected fault token middle
    | beyond _ beyond =>
        rw [← ran] at beyond
        exact .beyond _ (beyond_bind beyond fun result _ => (other result).stays)

theorem Agrees.peek : fork.Agrees (Token.relocate id) peek peek where
  stays passed := passed
  same read := by
    show fork.Parallel _ (.ok (fork.left read).current (fork.left read))
      (.ok (fork.right read).current (fork.right read))
    rw [← current_left]
    exact .ok _ read

theorem Agrees.advance : fork.Agrees (Token.relocate id) advance advance where
  stays passed := fork.passed_advance passed
  same read := by
    show fork.Parallel _ (.ok (fork.left read).current (fork.left read).advance)
      (.ok (fork.right read).current (fork.right read).advance)
    cases read with
    | nil =>
        refine .beyond _ ⟨fork.more, ?_, Nat.le_refl _⟩
        exact Cursor.advance_before_cons fork.inside fork.last fork.more
    | cons head read =>
        rw [← current_left]
        by_cases ended : head.kind = .endOfInput
        · have stays (cursor : Cursor) (found : cursor.current = head) :
              cursor.advance = cursor := by
            rw [Cursor.advance, if_pos (by rw [found]; exact ended)]
          rw [stays _ rfl, stays _ rfl]
          exact .ok _ (head :: read)
        · rw [(fork.advance_left_cons ended read).1, (fork.advance_left_cons ended read).2]
          exact .ok _ read

theorem Agrees.bounded {view : α → α} {parser parser' : Nat → Parser α} (stable : Stable parser)
    (stable' : Stable parser')
    (each : ∀ rounds, fork.Agrees view (parser rounds) (parser' rounds)) :
    fork.Agrees view (bound >>= parser) (bound >>= parser') where
  stays {cursor} passed := (each cursor.remaining).stays passed
  same read := by
    have common := (each ((read ++ fork.token :: fork.more).length +
      (read ++ fork.token :: fork.more').length + 1)).same read
    rw [left, stable fork.closed (by omega) (Nat.lt_succ_self _), right,
      stable' fork.closed' (by omega) (Nat.lt_succ_self _)] at common
    rw [left, bind_of_ok (bound_before _ _), right, bind_of_ok (bound_before _ _)]
    exact common

theorem Agrees.lookahead {view : α → α} (kind : Kind) {chosen chosen' plain plain' : Parser α}
    {other other' : Kind → Parser α} (takes : Takes chosen) (takes' : Takes plain)
    (one : fork.Agrees view chosen chosen') (two : fork.Agrees view plain plain')
    (others : ∀ found, fork.Agrees view (other found) (other' found)) :
    fork.Agrees view (lookahead kind chosen plain other)
      (lookahead kind chosen' plain' other') where
  stays passed := by
    rw [lookahead_apply]
    split
    · split
      · exact one.stays passed
      · exact two.stays passed
    · exact (others _).stays passed
  same read := by
    rw [lookahead_apply, lookahead_apply, ← current_left]
    split
    · next isName =>
        cases read with
        | nil =>
            -- the next token is not common, but whatever is chosen takes the name
            have passes {parser : Parser α} (takes : Takes parser) :
                fork.Beyond (parser (fork.left [])) := by
              have taken := @takes fork.last fork.token fork.more fork.closed isName
              rw [left_nil]
              match outcome : parser (.before fork.last (fork.token :: fork.more)) with
              | .ok _ _ | .error (.rejected _ _) _ =>
                  rw [outcome] at taken
                  obtain ⟨rest, rfl, suffix⟩ := taken
                  exact ⟨rest, rfl, suffix.length_le⟩
              | .error (.tooDeep _) _ | .error (.broken _) _ => trivial
            refine .beyond _ ?_
            split
            · exact passes takes
            · exact passes takes'
        | cons head read =>
            rw [← next_left_cons]
            split
            · exact one.same (head :: read)
            · exact two.same (head :: read)
    · exact (others _).same read

/-- **A parser looks no further than the token at which it stops.** -/
theorem agrees_simulation (fork : Fork) :
    Simulation id fun view parser parser' => fork.Agrees view parser parser' where
  value := .value
  fail view failure _ := .fail view failure
  giveUp := .giveUp
  chain := .chain
  peek := .peek
  advance := .advance
  bounded := .bounded
  lookahead := .lookahead

/-- A token list that is refused at the token of the fork is refused there whatever follows. -/
theorem program_right (fork : Fork) {depth : Nat} {fault : Fault} {token : Token}
    {read : List Token}
    (failed : program depth (fork.left read) = .error (.rejected fault token) (fork.left [])) :
    program depth (fork.right read) = .error (.rejected fault token) (fork.right []) := by
  have parallel := (fork.agrees_simulation.program rfl depth).same read
  rw [failed] at parallel
  generalize stopped : fork.left [] = cursor at parallel
  generalize program depth (fork.right read) = outcome at parallel ⊢
  cases parallel with
  | rejected _ _ rest =>
      have empty := fork.left_injective stopped
      obtain rfl := List.eq_nil_of_length_eq_zero empty.symm
      rfl
  | beyond _ passed =>
      rw [← stopped] at passed
      exact absurd passed (fork.not_passed_left [])

end Fork

/-! ## Token lists that are refused -/

/-- The tokens that a phrase takes do not end the input. -/
theorem Derives.inside {phrase : Phrase} {start rest : List Token} {trees : List Tree}
    (derived : Derives phrase start trees rest) :
    ∀ token ∈ start, token ∈ rest ∨ token.kind ≠ .endOfInput := by
  induction derived <;> grind

/-- What begins a program is the beginning of a token list that is parsed. -/
theorem Viable.exists_parsed {read : List Token} (viable : Viable .statements read) {last : Token}
    (closed : last.kind = .endOfInput) :
    ∃ more deeper root, (∀ token ∈ more, token.kind ≠ .endOfInput) ∧
      parseWithin deeper (read ++ more ++ [last]) = .ok root := by
  obtain ⟨more, trees, whole⟩ := viable
  have derived := whole [] (.of_unopened nofun)
  rw [List.append_nil] at derived
  have isProgram : Program (read ++ more) (.block trees true 0) := ⟨trees, derived, rfl⟩
  obtain ⟨needed, parsed⟩ := isProgram.parseWithin_eq closed
  refine ⟨more, needed, .block trees true 0, fun token member => ?_, ?_⟩
  · rcases derived.inside token (List.mem_append_right read member) with last | inside
    · cases last
    · exact inside
  · rcases parsed needed with found | ⟨small, -⟩
    · exact found
    · exact absurd small (Nat.lt_irrefl _)

/-- Parsing the list fails with the cursor at an index of the list. -/
def FailsAt (depth : Nat) (tokens : List Token) (failure : Failure) (index : Nat) : Prop :=
  ∃ start cursor, Cursor.ofTokens? tokens = some start ∧
    program depth start = .error failure cursor ∧ cursor.position tokens.length = index

theorem failsAt_of_program {depth : Nat} {last : Token} (closed : last.kind = .endOfInput)
    {read ahead : List Token} {failure : Failure}
    (failed : program depth (.before last (read ++ ahead)) =
      .error failure (.before last ahead)) :
    FailsAt depth (read ++ ahead ++ [last]) failure read.length := by
  refine ⟨_, _, Cursor.ofTokens?_append closed _, failed, ?_⟩
  rw [Cursor.position, Cursor.remaining_before]
  simp

/-- A closed list that begins with some tokens, the last of which does not close it, has them before
its end. -/
theorem exists_more_of_take {others read : List Token} {token last : Token}
    (agrees : (others ++ [last]).take (read.length + 1) = read ++ [token])
    (different : token ≠ last) : ∃ more, others = read ++ token :: more := by
  by_cases enough : read.length + 1 ≤ others.length
  · rw [List.take_append_of_le_length enough] at agrees
    refine ⟨others.drop (read.length + 1), ?_⟩
    calc others = others.take (read.length + 1) ++ others.drop (read.length + 1) := by simp
      _ = read ++ token :: others.drop (read.length + 1) := by rw [agrees]; simp
  · have short : (others ++ [last]).length ≤ read.length + 1 := by
      rw [List.length_append, List.length_singleton]
      omega
    rw [List.take_of_length_le short] at agrees
    have ends := congrArg List.getLast? agrees
    rw [List.getLast?_concat, List.getLast?_concat] at ends
    exact absurd (Option.some.inj ends).symm different

/-- **Errors are reported at the first impossible token.** Let a closed token list with known
operators be refused, and not for its nesting. Then the failure is a fault found at a token of the
list, the one at the index at which the parser stopped. The tokens before that index are the
beginning of a list that is parsed, within some limit on its nesting. And unless the token ends the
input, every closed list that agrees with the given one up to that token is refused at the same
index with the same failure. -/
theorem refused_at_first_impossible_token (depth : Nat) (tokens : List Token) (last : Token)
    (failure : Failure) (closed : last.kind = .endOfInput)
    (known : ∀ token ∈ tokens, token.kind = .operator → Operator.ofText? token.text ≠ none)
    (failed : parseWithin depth (tokens ++ [last]) = .error failure)
    (shallow : ∀ token, failure ≠ .tooDeep token) :
    ∃ index fault token, failure = .rejected fault token ∧
      (tokens ++ [last])[index]? = some token ∧
      FailsAt depth (tokens ++ [last]) failure index ∧
      (∃ more deeper root, (∀ token ∈ more, token.kind ≠ .endOfInput) ∧
        parseWithin deeper ((tokens ++ [last]).take index ++ more ++ [last]) = .ok root) ∧
      (token.kind ≠ .endOfInput → ∀ others last', last'.kind = .endOfInput →
        (others ++ [last']).take (index + 1) = (tokens ++ [last]).take (index + 1) →
          parseWithin depth (others ++ [last']) = .error failure ∧
            FailsAt depth (others ++ [last']) failure index) := by
  obtain ⟨fault, token, rfl⟩ : ∃ fault token, failure = .rejected fault token := by
    match failure, ordinary_of_parseWithin closed failed with
    | .rejected fault token, _ => exact ⟨fault, token, rfl⟩
    | .tooDeep token, _ => exact absurd rfl (shallow token)
    | .broken (.unknownOperator _), ⟨sign, member, isOperator, rfl, unknown⟩ =>
        exact absurd unknown (known sign member isOperator)
  rw [parseWithin_append closed] at failed
  cases ran : program depth (.before last tokens) with
  | ok root cursor =>
      rw [ran] at failed
      cases failed
  | error failure cursor =>
      rw [ran] at failed
      cases failed
      obtain ⟨read, ahead, rfl, rfl, found, viable⟩ :=
        program_refuses closed depth tokens fault token cursor ran
      refine ⟨read.length, fault, token, rfl, ?_, failsAt_of_program closed ran, ?_, ?_⟩
      · rw [found]
        cases ahead <;> simp [Cursor.before]
      · rw [List.append_assoc, List.take_left]
        exact viable.exists_parsed closed
      · intro inside others last' closed' agrees
        cases ahead with
        | nil => exact absurd (found ▸ closed) inside
        | cons head more =>
            obtain rfl : token = head := found
            have different : token ≠ last' := fun same => inside (same ▸ closed')
            have begun : (read ++ token :: more ++ [last]).take (read.length + 1) =
                read ++ [token] := by
              rw [List.append_assoc, List.take_length_add_append]
              rfl
            obtain ⟨more', rfl⟩ := exists_more_of_take (agrees.trans begun) different
            let fork : Fork := ⟨token, more, more', last, last', inside, closed, closed'⟩
            have again : program depth (.before last' (read ++ token :: more')) =
                .error (.rejected fault token) (.before last' (token :: more')) :=
              fork.program_right ran
            refine ⟨?_, failsAt_of_program closed' again⟩
            rw [parseWithin_append closed', again]

/-- In `1 + * 2` the second operator is impossible: what comes before it can be continued, and no
list that agrees with this one up to it is parsed. -/
theorem refused_at_first_impossible_token_operator :
    let tokens : List Token := [⟨.numeral, "1", 0, false⟩, ⟨.operator, "+", 2, false⟩,
      ⟨.operator, "*", 4, false⟩, ⟨.numeral, "2", 6, false⟩]
    let last : Token := ⟨.endOfInput, "", 7, false⟩
    let failure : Failure := .rejected (.unexpectedOperator "*") ⟨.operator, "*", 4, false⟩
    parseWithin 20 (tokens ++ [last]) = .error failure ∧
      ∃ index, FailsAt 20 (tokens ++ [last]) failure index ∧
        (∃ more deeper root,
          parseWithin deeper ((tokens ++ [last]).take index ++ more ++ [last]) = .ok root) ∧
        ∀ others last', last'.kind = .endOfInput →
          (others ++ [last']).take (index + 1) = (tokens ++ [last]).take (index + 1) →
            parseWithin 20 (others ++ [last']) = .error failure := by
  intro tokens last failure
  have failed : parseWithin 20 (tokens ++ [last]) = .error failure := rfl
  have known : ∀ token ∈ tokens, token.kind = .operator → Operator.ofText? token.text ≠ none := by
    decide
  obtain ⟨index, fault, token, same, -, fails, ⟨more, deeper, root, -, parsed⟩, foreseen⟩ :=
    refused_at_first_impossible_token 20 tokens last failure rfl known failed nofun
  obtain ⟨rfl, rfl⟩ := Failure.rejected.inj same
  refine ⟨failed, index, fails, ⟨more, deeper, root, parsed⟩, ?_⟩
  intro others last' closed' agrees
  exact (foreseen nofun others last' closed' agrees).1

end Grammar

end BraceLang
