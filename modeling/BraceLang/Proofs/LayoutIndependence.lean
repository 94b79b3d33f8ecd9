import BraceLang.Proofs.DocumentedFailures
import BraceLang.Proofs.Evaluation.Likeness
import BraceLang.Proofs.Grammar.Simulation
import BraceLang.Proofs.SourceText

/-!
# Offsets and layout have no meaning

Where a token stands matters to nobody but the reader of an error message. The parser commutes with
moving the tokens to other offsets (`parseWithin_relocate`), so two texts whose tokens agree in kind
and text have trees that are equal up to offsets, or they are refused with the same message.
Equality up to offsets is a likeness (`offsetless`), so evaluation cannot tell such trees apart
either, nor contexts whose functions have such bodies.
-/

set_option autoImplicit false

namespace BraceLang

open Effect

/-! ## Parsing at other offsets -/

namespace Grammar

open BraceLang.Parser

variable {α β : Type} {place : Int → Int}

/-- The outcome of a parser on the moved list. -/
def relocateOutcome (place : Int → Int) (view : α → α) :
    EStateM.Result Parser.Failure Cursor α → EStateM.Result Parser.Failure Cursor α
  | .ok result cursor => .ok (view result) (cursor.relocate place)
  | .error failure cursor => .error (failure.relocate place) (cursor.relocate place)

/-- The second parser does on the moved list what the first one does on the list. -/
def Natural (place : Int → Int) (view : α → α) (parser parser' : Parser α) : Prop :=
  ∀ cursor, parser' (cursor.relocate place) = relocateOutcome place view (parser cursor)

theorem Natural.chain {view : α → α} {view' : β → β} {first first' : Parser α}
    {next next' : α → Parser β} (one : Natural place view first first')
    (other : ∀ result, Natural place view' (next result) (next' (view result))) :
    Natural place view' (first >>= next) (first' >>= next') := by
  intro cursor
  have moved := one cursor
  cases ran : first cursor with
  | ok result middle =>
      rw [ran] at moved
      rw [bind_of_ok ran, bind_of_ok moved]
      exact other result middle
  | error failure middle =>
      rw [ran] at moved
      rw [bind_of_error ran, bind_of_error moved]
      rfl

theorem Natural.lookahead {view : α → α} (kind : Kind) {chosen chosen' plain plain' : Parser α}
    {other other' : Kind → Parser α} (_ : Takes chosen) (_ : Takes plain)
    (one : Natural place view chosen chosen') (two : Natural place view plain plain')
    (others : ∀ found, Natural place view (other found) (other' found)) :
    Natural place view (lookahead kind chosen plain other)
      (lookahead kind chosen' plain' other') := by
  intro cursor
  have current : (cursor.relocate place).current.kind = cursor.current.kind := rfl
  rw [lookahead_apply, lookahead_apply, current, Cursor.next_relocate, Token.relocate_kind]
  split
  · split
    · exact one cursor
    · exact two cursor
  · exact others _ cursor

/-- **Parsing does not depend on offsets.** -/
theorem natural_simulation (place : Int → Int) :
    Simulation place fun view parser parser' => Natural place view parser parser' where
  value _ _ _ := rfl
  fail _ _ _ _ := rfl
  giveUp _ _ := rfl
  chain := .chain
  peek _ := rfl
  advance cursor := by
    show EStateM.Result.ok (cursor.current.relocate place) (cursor.relocate place).advance = _
    rw [Cursor.advance_relocate]
    rfl
  bounded {_ _ _ parser'} _ _ each cursor := by
    show parser' (cursor.relocate place).remaining (cursor.relocate place) = _
    rw [Cursor.remaining_relocate]
    exact each cursor.remaining cursor
  lookahead kind := .lookahead kind

end Grammar

/-- The tree of a moved list is the moved tree, if the beginning of the text stays where it is. -/
theorem parseWithin_relocate {place : Int → Int} (fixed : place 0 = 0) (depth : Nat)
    (tokens : List Token) :
    parseWithin depth (tokens.map (Token.relocate place)) =
      ((parseWithin depth tokens).map (Tree.relocate place)).mapError
        (Parser.Failure.relocate place) := by
  unfold parseWithin
  rw [Cursor.ofTokens?_relocate]
  cases Cursor.ofTokens? tokens with
  | none => rfl
  | some cursor =>
      have moved := (Grammar.natural_simulation place).program fixed depth cursor
      cases ran : Parser.program depth cursor with
      | ok root last =>
          rw [ran] at moved
          simp only [Option.map_some, ran, moved]
          rfl
      | error failure last =>
          rw [ran] at moved
          simp only [Option.map_some, ran, moved]
          rfl

/-! ## Token lists that agree in kinds and texts -/

/-- The tokens of two texts that agree in kinds and texts are the same up to offsets. -/
theorem relocate_eq_of_tokenize {source source' : String} {tokens tokens' : List Token}
    (read : tokenize source = .ok tokens) (read' : tokenize source' = .ok tokens')
    (agree : tokens.map (fun token => (token.kind, token.text)) =
      tokens'.map fun token => (token.kind, token.text)) :
    tokens.map (Token.relocate fun _ => 0) = tokens'.map (Token.relocate fun _ => 0) := by
  have built {tokens : List Token} (plain : ∀ token ∈ tokens, token.opensScope = false) :
      tokens.map (Token.relocate fun _ => 0) =
        (tokens.map fun token => (token.kind, token.text)).map fun part =>
          ⟨part.1, part.2, 0, false⟩ := by
    rw [List.map_map]
    refine List.map_congr_left fun token member => ?_
    rw [Token.relocate, plain token member]
    rfl
  rw [built (opensScope_of_tokenize read), built (opensScope_of_tokenize read'), agree]

/-! ## Equality up to offsets -/

theorem Tree.forall₂_of_sameAll {firsts seconds : List Tree}
    (same : sameAll firsts seconds = true) :
    List.Forall₂ (fun first second => first.same second = true) firsts seconds := by
  induction firsts generalizing seconds with
  | nil =>
      cases seconds with
      | nil => exact .nil
      | cons second seconds => cases same
  | cons first firsts ih =>
      cases seconds with
      | nil => cases same
      | cons second seconds =>
          rw [sameAll, Bool.and_eq_true] at same
          exact .cons same.1 (ih same.2)

/-- Trees that are equal up to offsets agree in all that evaluation reads. -/
theorem Tree.of_same {first second : Tree} (same : first.same second = true) :
    first.kind = second.kind ∧ first.text = second.text ∧
      first.opensScope = second.opensScope ∧
      List.Forall₂ (fun first second => first.same second = true) first.children
        second.children := by
  obtain ⟨token, children⟩ := first
  obtain ⟨token', children'⟩ := second
  simp only [Tree.same, Bool.and_eq_true, beq_iff_eq] at same
  obtain ⟨⟨⟨kinds, texts⟩, flags⟩, below⟩ := same
  exact ⟨kinds, texts, flags, forall₂_of_sameAll below⟩

/-- Equality up to offsets, wherever the offsets are. -/
def offsetless : Likeness where
  trees first second := first.same second = true
  offsets _ _ := True
  kind_eq same := (Tree.of_same same).1
  text_eq same := (Tree.of_same same).2.1
  opensScope_eq same := (Tree.of_same same).2.2.1
  offset _ := trivial
  children same := (Tree.of_same same).2.2.2

/-- A refusal of the moved list has the same report, apart from the place. -/
theorem agrees_of_relocate {failure failure' : Parser.Failure}
    (documented : (Failure.parsing failure).isDocumented = true)
    (documented' : (Failure.parsing failure').isDocumented = true)
    (same : failure.relocate (fun _ => 0) = failure'.relocate fun _ => 0) :
    (Failure.parsing failure).diagnostic.category = .syntactic ∧
      (Failure.parsing failure).diagnostic.Agrees (Failure.parsing failure').diagnostic := by
  cases failure with
  | broken defect => cases documented
  | tooDeep token =>
      cases failure' with
      | tooDeep token' => exact ⟨rfl, rfl, rfl, rfl⟩
      | rejected fault' token' => cases same
      | broken defect' => cases documented'
  | rejected fault token =>
      cases failure' with
      | rejected fault' token' =>
          obtain ⟨rfl, -⟩ := Parser.Failure.rejected.inj same
          exact ⟨rfl, rfl, rfl, rfl⟩
      | tooDeep token' => cases same
      | broken defect' => cases documented'

/-- **Offsets and layout have no meaning.** Two texts whose tokens agree in kinds and texts have
trees that are equal up to offsets, or both are refused by the parser with the same report apart
from the place. And trees that are equal up to offsets, in contexts that are equal up to the offsets
inside the bodies of functions, have the same value or halt with the same report apart from the
place; the contexts afterwards are again equal up to such offsets, and so have the same listing. -/
theorem layout_has_no_meaning (limits : Limits) :
    (∀ source source' tokens tokens', tokenize source = .ok tokens →
      tokenize source' = .ok tokens' →
      tokens.map (fun token => (token.kind, token.text)) =
        tokens'.map (fun token => (token.kind, token.text)) →
      (∃ root root', treeWithin limits source = .ok root ∧
        treeWithin limits source' = .ok root' ∧ root.same root' = true) ∨
      ∃ failure failure', treeWithin limits source = .error failure ∧
        treeWithin limits source' = .error failure' ∧
        failure.diagnostic.category = .syntactic ∧
        failure.diagnostic.Agrees failure'.diagnostic) ∧
    ∀ root root' context context', root.same root' = true →
      offsetless.Contexts context context' →
      ∀ evaluation ∈ [Eval.tree limits.rounds limits.depth,
        Eval.whole limits.rounds limits.depth, Eval.statements limits.rounds limits.depth],
        (∃ value last last', evaluation root context = .ok value last ∧
          evaluation root' context' = .ok value last' ∧
          offsetless.Contexts last last' ∧ last.listing = last'.listing) ∨
        ∃ halt halt' last last', evaluation root context = .error halt last ∧
          evaluation root' context' = .error halt' last' ∧
          halt.diagnostic.Agrees halt'.diagnostic ∧
          offsetless.Contexts last last' ∧ last.listing = last'.listing := by
  refine ⟨?_, ?_⟩
  · intro source source' tokens tokens' read read' agree
    have moved := relocate_eq_of_tokenize read read' agree
    have parsed := congrArg (parseWithin limits.nesting) moved
    rw [parseWithin_relocate rfl, parseWithin_relocate rfl] at parsed
    have tree := treeWithin_of_tokenize read limits
    have tree' := treeWithin_of_tokenize read' limits
    cases built : parseWithin limits.nesting tokens with
    | ok root =>
        cases built' : parseWithin limits.nesting tokens' with
        | ok root' =>
            rw [built, built'] at parsed
            rw [built] at tree
            rw [built'] at tree'
            have same : root.relocate (fun _ => 0) = root'.relocate fun _ => 0 :=
              Except.ok.inj parsed
            exact .inl ⟨root, root', tree, tree', (Tree.same_iff root root').mpr same⟩
        | error failure' =>
            rw [built, built'] at parsed
            cases parsed
    | error failure =>
        cases built' : parseWithin limits.nesting tokens' with
        | ok root' =>
            rw [built, built'] at parsed
            cases parsed
        | error failure' =>
            rw [built, built'] at parsed
            rw [built] at tree
            rw [built'] at tree'
            have agrees := agrees_of_relocate (isDocumented_of_treeWithin tree)
              (isDocumented_of_treeWithin tree') (Except.error.inj parsed)
            exact .inr ⟨.parsing failure, .parsing failure', tree, tree', agrees.1, agrees.2⟩
  · intro root root' context context' same contexts evaluation member
    have alike : offsetless.trees root root' := same
    have actions : offsetless.Actions Eq (evaluation root) (evaluation root') := by
      simp only [List.mem_cons, List.not_mem_nil, or_false] at member
      rcases member with rfl | rfl | rfl
      · exact .tree alike _ _
      · exact .whole alike _ _
      · exact .statements alike _ _
    have outcome := actions contexts
    generalize ran : evaluation root context = one at outcome
    generalize ran' : evaluation root' context' = other at outcome
    cases outcome with
    | ok same contexts' =>
        subst same
        exact .inl ⟨_, _, _, rfl, rfl, contexts', contexts'.listing_eq⟩
    | error halts contexts' =>
        exact .inr ⟨_, _, _, _, rfl, rfl, halts.diagnostic_agrees, contexts',
          contexts'.listing_eq⟩

/-- Blanks between the tokens change neither the tree nor the report of the missing name. -/
theorem layout_has_no_meaning_blanks :
    let limits : Limits := ⟨20, 20, 20⟩
    ∃ root root', treeWithin limits "a=1 a+b" = .ok root ∧
      treeWithin limits " a = 1\n a  +\tb " = .ok root' ∧ root.same root' = true ∧
      ∃ halt halt' last last', Eval.whole 20 20 root Context.fresh = .error halt last ∧
        Eval.whole 20 20 root' Context.fresh = .error halt' last' ∧
        halt.diagnostic.Agrees halt'.diagnostic := by
  intro limits
  have read : tokenize "a=1 a+b" = .ok
      [⟨.identifier, "a", 0, false⟩, ⟨.assign, "=", 1, false⟩, ⟨.numeral, "1", 2, false⟩,
        ⟨.identifier, "a", 4, false⟩, ⟨.operator, "+", 5, false⟩, ⟨.identifier, "b", 6, false⟩,
        ⟨.endOfInput, "", 7, false⟩] := by
    decide +kernel
  have read' : tokenize " a = 1\n a  +\tb " = .ok
      [⟨.identifier, "a", 1, false⟩, ⟨.assign, "=", 3, false⟩, ⟨.numeral, "1", 5, false⟩,
        ⟨.identifier, "a", 8, false⟩, ⟨.operator, "+", 11, false⟩, ⟨.identifier, "b", 13, false⟩,
        ⟨.endOfInput, "", 15, false⟩] := by
    decide +kernel
  have runs : (treeWithin limits "a=1 a+b").isOk = true ∧
      (runWithin limits "a=1 a+b" Context.fresh).result.isOk = false := by
    decide +kernel
  rcases (layout_has_no_meaning limits).1 _ _ _ _ read read' rfl with
    ⟨root, root', parsed, parsed', same⟩ | ⟨failure, _, refused, -⟩
  · refine ⟨root, root', parsed, parsed', same, ?_⟩
    have fresh : offsetless.Contexts Context.fresh Context.fresh := .cons ⟨rfl, .nil⟩ .nil
    rcases (layout_has_no_meaning limits).2 root root' _ _ same fresh (Eval.whole 20 20)
      (List.mem_cons_of_mem _ List.mem_cons_self) with
      ⟨value, last, _, ran, -⟩ | ⟨halt, halt', last, last', ran, ran', agrees, -⟩
    · have evaluated := runs.2
      rw [runWithin, evaluateWithin, parsed] at evaluated
      rw [result_ofEval_of_ok ran] at evaluated
      cases evaluated
    · exact ⟨halt, halt', last, last', ran, ran', agrees⟩
  · have readable := runs.1
    rw [refused] at readable
    cases readable

end BraceLang
