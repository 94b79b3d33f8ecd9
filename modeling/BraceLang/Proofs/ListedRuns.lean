import Mathlib.Control.Monad.Basic
import BraceLang.Proofs.Evaluation.Frame
import BraceLang.Proofs.Printing.RoundTrip

/-!
# Runs that write listings

A run that writes listings goes through the stages of a program on its own and writes after each of
them what it has found: the tokens (`tokenLines`), the tree, and the final bindings. The bindings
are those of a context with one empty scope, because a program has a scope of its own, which is left
whatever the outcome (`listing_evaluated`). So what is to be written (`stagedText`) tells the last
stage that the program reached and nothing else about its evaluation.

The tree is written out by a printer that is taken from elsewhere and may give up on a tree. Where
it does not, the listings are all that such a run adds to a plain one, and where it does, the run
ends there (`listings_transparent_and_staged`). A printer that descends into the tree has to give up
on high ones, and a sum is high for each of its signs: a program that defines a function with a long
sum has a value when it is run, but none when it is run with listings (`sum_not_listed`).
-/

set_option autoImplicit false

namespace BraceLang

open Eval Effect

/-! ## What is to be written -/

/-- The names under which the tokens of a text are listed. -/
def listedNames : List (Kind × String) :=
  [(.numeral, "NUMERIC"), (.string, "STRING"), (.identifier, "IDENTIFIER"), (.ifWord, "IF"),
    (.whileWord, "WHILE"), (.forWord, "FOR"), (.elseWord, "ELSE"), (.fnWord, "FN"),
    (.operator, "BINARYOP"), (.assign, "ASSIGN"), (.openBrace, "LBRACE"), (.closeBrace, "RBRACE"),
    (.openParen, "LPAREN"), (.closeParen, "RPAREN"), (.comma, "COMMA"), (.endOfInput, "EOF")]

/-- The line for a token: the name of its kind, its text in quotes and its offset. -/
def tokenLine (token : Token) : String :=
  "Tok(" ++ ((listedNames.lookup token.kind).getD "") ++ ", " ++ Text.quote token.text ++ ", @" ++
    toString token.offset ++ ")\n"

/-- The lines for the tokens of a text. -/
def tokenLines (tokens : List Token) : String :=
  String.join (tokens.map tokenLine)

/-- What is to be written for a text: nothing if it cannot be read, the tokens if they cannot be
parsed, and otherwise the tokens, the outline of the tree and one scope without bindings. -/
def stagedText (source : String) : String :=
  match tokenize source with
  | .error _ => ""
  | .ok tokens =>
    tokenLines tokens ++
      match parse tokens with
      | .error _ => ""
      | .ok root => root.outline ++ "scope 0:\n"

/-! ## Tokens -/

/-- A kind that is listed has its own name, and it is not the one of blocks. -/
theorem lookup_listedNames {kind : Kind} (listed : (listedNames.lookup kind).isSome) :
    listedNames.lookup kind = some kind.name ∧ kind ≠ .block := by
  cases kind with
  | block | call => cases listed
  | _ => exact ⟨rfl, nofun⟩

/-- The kinds that can be spelled are listed. -/
theorem Lexer.Spelled.isListed {kind : Kind} {text : String} (spelled : Spelled kind text) :
    (listedNames.lookup kind).isSome := by
  cases spelled with
  | keyword member =>
      have all : ∀ keyword ∈ keywords, (listedNames.lookup keyword.2).isSome := by decide
      exact all _ member
  | punctuation member =>
      have all : ∀ mark ∈ marks, (listedNames.lookup mark.2).isSome := by decide
      exact all _ member
  | _ => rfl

theorem listing_append_newline {token : Token}
    (listed : (listedNames.lookup token.kind).isSome) :
    token.listing ++ "\n" = tokenLine token := by
  obtain ⟨name, notBlock⟩ := lookup_listedNames listed
  rw [tokenLine, name, Token.listing, if_neg notBlock]
  simp [String.append_assoc]

theorem listAll_append_newline {tokens : List Token} (inhabited : tokens ≠ [])
    (listed : ∀ token ∈ tokens, (listedNames.lookup token.kind).isSome) :
    Token.listAll tokens ++ "\n" = tokenLines tokens := by
  induction tokens with
  | nil => exact absurd rfl inhabited
  | cons token tokens ih =>
      rw [List.forall_mem_cons] at listed
      rw [tokenLines, List.map_cons, String.join_cons, ← listing_append_newline listed.1]
      cases tokens with
      | nil => simp [Token.listAll]
      | cons next tokens =>
          have rest := ih (List.cons_ne_nil _ _) listed.2
          rw [tokenLines] at rest
          rw [← rest]
          simp [Token.listAll, String.intercalate_cons_cons, String.append_assoc]

/-- The tokens of a text are listed line by line. -/
theorem listAll_of_tokenize {source : String} {tokens : List Token}
    (read : tokenize source = .ok tokens) :
    Token.listAll tokens ++ "\n" = tokenLines tokens := by
  obtain ⟨spelled, offset, rfl, each⟩ := Lexer.spelled_of_tokenize read
  refine listAll_append_newline (by simp) fun token member => ?_
  rcases List.mem_append.mp member with inside | last
  · exact (each token inside).isListed
  · rw [List.mem_singleton.mp last]
    rfl

/-! ## Stages -/

/-- A program is parsed to one block, and after this block has been evaluated in a fresh context
there are no bindings to be listed. -/
theorem listing_evaluated {tokens : List Token} {root : Tree} (parsed : parse tokens = .ok root) :
    (Outcome.ofEval (whole roundLimit depthLimit root) Context.fresh).context.listing =
      "scope 0:" := by
  obtain ⟨statements, rfl⟩ := root_of_parseWithin parsed
  have isBlock : (Tree.block statements true 0).kind = .block := rfl
  rw [context_ofEval, after_whole, after_block roundLimit depthLimit isBlock rfl]
  rfl

section Stages

variable {print : Tree → Option String} {source : String} {tokens : List Token} {root : Tree}

theorem tokensOf_of_tokenize (read : tokenize source = .ok tokens) :
    tokensOf source = .ok tokens := by
  rw [tokensOf, read]
  rfl

/-- A program without a tree fails as in a plain run, after what its stages write. -/
theorem runListedWith_of_refused {failure : Failure} (refused : treeOf source = .error failure) :
    runListedWith print source = ⟨.error (.program failure), stagedText source⟩ := by
  rcases of_treeWithin_eq_error refused with
    ⟨reason, read, rfl⟩ | ⟨tokens, reason, read, parsed, rfl⟩
  · rw [runListedWith, tokensOf, stagedText, read]
    rfl
  · have rejected : parse tokens = .error reason := parsed
    rw [runListedWith, tokensOf_of_tokenize read, stagedText, read]
    simp only [rejected, listAll_of_tokenize read, String.append_empty]

/-- Where the printer gives up, only the tokens have been written. -/
theorem runListedWith_of_unwritable (read : tokenize source = .ok tokens)
    (parsed : parse tokens = .ok root) (gaveUp : print root = none) :
    runListedWith print source = ⟨.error .unwritable, tokenLines tokens⟩ := by
  rw [runListedWith, tokensOf_of_tokenize read]
  simp only [parsed, gaveUp, listAll_of_tokenize read]

/-- Otherwise the program is evaluated as in a plain run. -/
theorem runListedWith_of_printed (read : tokenize source = .ok tokens)
    (parsed : parse tokens = .ok root) (printed : print root = some root.outline) :
    runListedWith print source =
      ⟨(run source Context.fresh).result.mapError .program, stagedText source⟩ := by
  have found : treeWithin {} source = .ok root := by
    rw [treeWithin_of_tokenize read, show parseWithin _ tokens = .ok root from parsed]
    rfl
  rw [runListedWith, tokensOf_of_tokenize read, stagedText, read, run, runWithin, evaluateWithin,
    found]
  simp only [parsed, printed, listAll_of_tokenize read, listing_evaluated parsed]
  rw [String.append_assoc, String.append_assoc]
  rfl

end Stages

/-! ## Transparency -/

/-- **Listings are transparent and staged where the tree can be written out.** Let a printer write
nothing but the outline of a tree, or give up on it. A run that writes listings gives the value or
the failure of the plain run in a fresh context and writes the text for the stages of the program,
exactly if the program has no tree on which the printer gives up. If it has one, the run ends after
the tokens without a result of the program. -/
theorem listings_transparent_and_staged (print : Tree → Option String)
    (prints : ∀ tree text, print tree = some text → text = tree.outline) (source : String) :
    let listed := runListedWith print source
    let plain := (run source Context.fresh).result
    (listed.result = plain.mapError .program ∧ listed.written = stagedText source ↔
      ∀ root, treeOf source = .ok root → print root ≠ none) ∧
    ∀ root, treeOf source = .ok root → print root = none →
      listed.result = .error .unwritable ∧
        ∃ tokens, tokenize source = .ok tokens ∧ listed.written = tokenLines tokens := by
  intro listed plain
  cases found : treeOf source with
  | error failure =>
      have same : listed = ⟨.error (.program failure), stagedText source⟩ :=
        runListedWith_of_refused found
      have failed : plain = .error failure := by
        show (run source Context.fresh).result = _
        rw [run, runWithin, evaluateWithin, show treeWithin {} source = _ from found]
      rw [same, failed]
      exact ⟨⟨fun _ _ => nofun, fun _ => ⟨rfl, rfl⟩⟩, fun _ => nofun⟩
  | ok root =>
      obtain ⟨tokens, read, parsed⟩ := of_treeWithin_eq_ok found
      cases printed : print root with
      | none =>
          have same : listed = ⟨.error .unwritable, tokenLines tokens⟩ :=
            runListedWith_of_unwritable read parsed printed
          have apart : plain.mapError ListedFailure.program ≠ .error .unwritable := by
            cases plain <;> exact nofun
          rw [same]
          refine ⟨⟨fun transparent => ?_, fun all => absurd printed (all root rfl)⟩, ?_⟩
          · exact absurd transparent.1.symm apart
          · exact fun _ _ _ => ⟨rfl, tokens, read, rfl⟩
      | some text =>
          obtain rfl := prints root text printed
          have same : listed = ⟨plain.mapError .program, stagedText source⟩ :=
            runListedWith_of_printed read parsed printed
          have writes (tree : Tree) (isRoot : (Except.ok root : Except Failure Tree) = .ok tree) :
              print tree ≠ none := by
            cases isRoot
            rw [printed]
            exact nofun
          rw [same]
          exact ⟨⟨fun _ => writes, fun _ => ⟨rfl, rfl⟩⟩,
            fun tree isRoot gaveUp => absurd gaveUp (writes tree isRoot)⟩

theorem eq_outline_of_outline? (tree : Tree) (text : String)
    (printed : tree.outline? = some text) : text = tree.outline := by
  unfold Tree.outline? at printed
  split at printed
  · exact (Option.some.inj printed).symm
  · cases printed

/-- A program that binds a name and fails then: its tokens and its tree are listed, and the scope
that is left has no bindings. -/
theorem listings_transparent_and_staged_failure :
    (∀ (tree : Tree) (text : String), tree.outline? = some text → text = tree.outline) ∧
    (runListed "x = 1 y").result =
      .error (.program (.evaluating (.failed ⟨.unsetVariable "y", 6⟩))) ∧
    (runListed "x = 1 y").written =
      "Tok(IDENTIFIER, 'x', @0)\nTok(ASSIGN, '=', @2)\nTok(NUMERIC, '1', @4)\n" ++
      "Tok(IDENTIFIER, 'y', @6)\nTok(EOF, '', @7)\n" ++
      "BLOCK scoped=True\n  ASSIGN '='\n    IDENTIFIER 'x'\n    NUMERIC '1'\n" ++
      "  IDENTIFIER 'y'\nscope 0:\n" := by
  have found : treeOf "x = 1 y" = .ok (.block [.node ⟨.assign, "=", 2, false⟩
      [.leaf ⟨.identifier, "x", 0, false⟩, .leaf ⟨.numeral, "1", 4, false⟩],
      .leaf ⟨.identifier, "y", 6, false⟩] true 0) := by
    decide +kernel
  have writes : ∀ root, treeOf "x = 1 y" = .ok root → root.outline? ≠ none := by
    intro root isRoot
    rw [found] at isRoot
    cases isRoot
    decide +kernel
  obtain ⟨transparent, staged⟩ := (listings_transparent_and_staged Tree.outline?
    eq_outline_of_outline? "x = 1 y").1.mpr writes
  refine ⟨eq_outline_of_outline?, transparent.trans ?_, staged.trans ?_⟩
  · decide +kernel
  · decide +kernel

/-! ## Trees that are not written out -/

section Sums

open Lexer Printing Grammar

/-- The text of a sum of ones. -/
theorem written_ones (count : Nat) :
    written (ones count) = ("1" ++ String.join (List.replicate count " + 1")).toList := by
  induction count with
  | zero => rfl
  | succ count ih =>
      rw [ones, written_append, ih, List.replicate_succ', String.toList_append,
        String.toList_append, String.toList_join, String.toList_join, List.flatMap_append,
        List.append_assoc]
      rfl

/-- A program that defines a function with a sum of ones, and does not call it. -/
def sumDefinition (count : Nat) : String :=
  "fn f() \x7b " ++ ("1" ++ String.join (List.replicate count " + 1")) ++ " \x7d 7"

/-- The lexemes of the program. -/
def sumItems (count : Nat) : List Item :=
  .lexeme .fnWord "fn" :: gap :: .lexeme .identifier "f" :: opening :: closing :: gap ::
    .lexeme .openBrace "\x7b" :: gap :: (ones count ++
      [gap, .lexeme .closeBrace "\x7d", gap, .lexeme .numeral "7"])

theorem written_sumItems (count : Nat) :
    written (sumItems count) = (sumDefinition count).toList := by
  have parts : written (sumItems count) =
      "fn f() \x7b ".toList ++ (written (ones count) ++ " \x7d 7".toList) := by
    simp only [sumItems, written_cons, written_append]
    rfl
  rw [parts, written_ones, sumDefinition]
  simp only [String.toList_append, List.append_assoc]

theorem laid_sumItems (count : Nat) : Laid (sumItems count) := by
  have word : (Item.lexeme .fnWord "fn").Valid := .keyword (by decide)
  have name : (Item.lexeme .identifier "f").Valid :=
    .identifier ⟨List.all_eq_true.mp rfl, .inr ⟨_, _, rfl, rfl⟩⟩ fun _ => by simp [keywords]
  have brace : (Item.lexeme .openBrace "\x7b").Valid := @Spelled.punctuation '\x7b' _ (by decide)
  have brace' : (Item.lexeme .closeBrace "\x7d").Valid := @Spelled.punctuation '\x7d' _ (by decide)
  have seven : (Item.lexeme .numeral "7").Valid :=
    .numeral ⟨List.all_eq_true.mp rfl, .inr ⟨_, _, rfl, rfl⟩⟩
  have ends : Laid (ones count ++ [gap, .lexeme .closeBrace "\x7d", gap, .lexeme .numeral "7"]) :=
    (laid_ones count).before rfl
      (.delimited valid_gap rfl (.delimited brace' rfl (.delimited valid_gap rfl (.single seven))))
  have parameters := Laid.delimited valid_opening rfl (.delimited valid_closing rfl
    (.delimited valid_gap rfl (.delimited brace rfl (.delimited valid_gap rfl ends))))
  exact (Laid.single word).before rfl (.delimited valid_gap rfl
    ((Laid.single name).before rfl parameters))

/-- The tree of the program, with the tree of the sum in it. -/
def sumRoot (sum : Tree) (word name brace seven : Int) : Tree :=
  .block [.node ⟨.fnWord, "fn", word, false⟩
    [.leaf ⟨.identifier, "f", name, false⟩, .block [sum] false brace],
    .leaf ⟨.numeral, "7", seven, false⟩] true 0

/-- The program is parsed to a tree with a level for each sign of the sum. -/
theorem program_sumItems (count : Nat) :
    ∃ sum word name brace seven, count < sum.height ∧
      Program (tokensFrom 0 (sumItems count)) (sumRoot sum word name brace seven) := by
  have reads := reads_tokensFrom (sumItems count) 0
  generalize tokensFrom 0 (sumItems count) = tokens at reads ⊢
  simp only [sumItems, gap, opening, closing, reads_append, reads_blank, reads_lexeme, reads_nil]
    at reads
  obtain ⟨word, _, rfl, name, _, rfl, parenthesis, _, rfl, parenthesis', _, rfl, brace, _, rfl,
    inner, _, rfl, readsSum, brace', _, rfl, seven, _, rfl, rfl⟩ := reads
  obtain ⟨sum, derived, high, -⟩ := ones_derive count readsSum
    [⟨.closeBrace, "\x7d", brace', false⟩, ⟨.numeral, "7", seven, false⟩]
  have body := @Derives.block ⟨.openBrace, "\x7b", brace, false⟩ _ false _ _ _ rfl
    (.nextStatement (.evaluation (.tighter derived)) (.noStatement _)) rfl
  have definition := @Derives.nullaryDefinition ⟨.fnWord, "fn", word, false⟩
    ⟨.identifier, "f", name, false⟩ ⟨.openParen, "(", parenthesis, false⟩
    ⟨.closeParen, ")", parenthesis', false⟩ _ _ _ rfl rfl rfl rfl body
  have value : Derives .expression [⟨.numeral, "7", seven, false⟩]
      [.leaf ⟨.numeral, "7", seven, false⟩] [] :=
    .tighter (.tighter (.tighter (.single (.literal (.inl rfl)))))
  exact ⟨sum, word, name, brace, seven, by omega, _,
    .nextStatement definition (.nextStatement (.evaluation value) (.noStatement [])), rfl⟩

/-- The brackets of the program are nested once. -/
theorem level_sumItems (count : Nat) : level (tokensFrom 0 (sumItems count)) = 1 := by
  have kinds : kinds (sumItems count) = [.fnWord, .identifier, .openParen, .closeParen,
      .openBrace] ++ (kinds (ones count) ++ [.closeBrace, .numeral]) := by
    simp [sumItems, gap, opening, closing]
  rw [level, (reads_tokensFrom _ 0).kinds_eq, kinds]
  simp only [List.cons_append, List.nil_append, peak, peak_ones]

theorem treeOf_sumDefinition (count : Nat) :
    ∃ sum word name brace seven, count < sum.height ∧
      treeOf (sumDefinition count) = .ok (sumRoot sum word name brace seven) := by
  obtain ⟨sum, word, name, brace, seven, high, isProgram⟩ := program_sumItems count
  refine ⟨sum, word, name, brace, seven, high, ?_⟩
  rcases treeWithin_of_program (laid_sumItems count) (written_sumItems count) isProgram {} with
    parsed | ⟨small, -⟩
  · exact parsed
  · rw [level_sumItems] at small
    exact absurd small (by decide)

/-- The program has the value of its last statement, whatever the sum is. -/
theorem run_of_sumRoot {source : String} {sum : Tree} {word name brace seven : Int}
    (parsed : treeOf source = .ok (sumRoot sum word name brace seven)) :
    (run source Context.fresh).result = .ok (.integer 7) := by
  have literal (context : Context) :
      tree roundLimit 999 (.leaf ⟨.numeral, "7", seven, false⟩) context =
        .ok (.integer 7) context := by
    have value : Eval.literal "7" = .ok (.integer 7) := by decide +kernel
    show located seven (Eval.literal "7") context = _
    rw [value]
    rfl
  have inside : Eval.sequence (tree roundLimit 999) .null
      (sumRoot sum word name brace seven).children Context.fresh.push = .ok (.integer 7)
        (Context.fresh.push.setRoutine ⟨"f", [], .block [sum] false brace⟩) := by
    have defined : tree roundLimit 999 (.node ⟨.fnWord, "fn", word, false⟩
        [.leaf ⟨.identifier, "f", name, false⟩, .block [sum] false brace]) Context.fresh.push =
        .ok .null (Context.fresh.push.setRoutine ⟨"f", [], .block [sum] false brace⟩) := rfl
    show Eval.sequence _ _ [_, _] _ = _
    rw [Eval.sequence, bind_of_ok defined, Eval.sequence, bind_of_ok (literal _)]
    rfl
  have ran := inScope_of_ok (sequence_framed (tree_framed _ _) _ _) inside
  rw [run, runWithin, evaluateWithin, show treeWithin {} source = _ from parsed]
  exact result_ofEval_of_ok (reporting_of_ok ran _)

/-- A printer that gives up on trees above a height ends the run of a program with such a tree. -/
theorem runListedWith_sumDefinition {print : Tree → Option String} {limit : Nat}
    (limited : ∀ tree, limit < tree.height → print tree = none) {count : Nat}
    (enough : limit ≤ count) :
    ∃ tokens, tokenize (sumDefinition count) = .ok tokens ∧
      runListedWith print (sumDefinition count) = ⟨.error .unwritable, tokenLines tokens⟩ := by
  obtain ⟨sum, word, name, brace, seven, high, found⟩ := treeOf_sumDefinition count
  obtain ⟨tokens, read, parsed⟩ := of_treeWithin_eq_ok found
  refine ⟨tokens, read, runListedWith_of_unwritable read parsed (limited _ ?_)⟩
  simp only [sumRoot, Tree.block, Tree.height, Tree.heightAll]
  omega

/-- **Not every program that runs can be listed.** A program that defines a function with a sum of
more than a thousand ones has the value of its last statement, but its tree is too high to be
written out, so a run with listings ends after the tokens. -/
theorem sum_not_listed :
    let source := sumDefinition 1200
    (run source Context.fresh).result = .ok (.integer 7) ∧
      (runListed source).result = .error .unwritable ∧
      ∃ tokens, tokenize source = .ok tokens ∧
        (runListed source).written = tokenLines tokens := by
  intro source
  obtain ⟨_, _, _, _, _, _, found⟩ := treeOf_sumDefinition 1200
  have limited (tree : Tree) (high : Tree.outlineLimit < tree.height) : tree.outline? = none :=
    if_neg (Nat.not_le_of_lt high)
  obtain ⟨tokens, read, listed⟩ := @runListedWith_sumDefinition Tree.outline? _ limited 1200
    (by decide)
  have same : runListed source = ⟨.error .unwritable, tokenLines tokens⟩ := listed
  rw [same]
  exact ⟨run_of_sumRoot found, rfl, tokens, read, rfl⟩

end Sums

end BraceLang
