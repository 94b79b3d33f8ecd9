import BraceLang.Proofs.Grammar.Exactness
import BraceLang.Proofs.Grammar.Shape
import BraceLang.Proofs.Printing.Legible
import BraceLang.Proofs.ProgramTree

/-!
# Printing and parsing

The canonical text of a tree is parsed to the tree again, up to offsets, unless it is nested too
deeply. Its brackets are nested no deeper than the tree is high, so the limit that is needed can be
given in terms of the height (`restored_or_tooDeep`). The tree of a text always has a canonical text
(`printable_of_treeWithin`), which can be put in the place of the text then.

The limit does matter for texts that were parsed within it. A long sum is a flat run of operands and
operators for the parser, but its tree leans to the left, and the canonical text opens a parenthesis
for each operator (`ones_tooDeep`).
-/

set_option autoImplicit false

namespace BraceLang

open Lexer Grammar

/-! ## Heights -/

namespace Tree

theorem height_le_heightAll {tree : Tree} {trees : List Tree} (member : tree ∈ trees) :
    tree.height ≤ heightAll trees := by
  induction trees with
  | nil => cases member
  | cons first trees ih =>
      rw [heightAll]
      rcases List.mem_cons.mp member with rfl | later
      · exact Nat.le_max_left _ _
      · exact Nat.le_trans (ih later) (Nat.le_max_right _ _)

end Tree

namespace Printing

open BraceLang.Tree (height heightAll height_le_heightAll same_node)

/-! ## Trees with a canonical text -/

/-- The tree of a program that can be printed: it has the shape of a parsed tree, and its tokens are
spelled as those of a text. -/
def Printable (root : Tree) : Prop :=
  Shaped Plain (.block true) root

/-- The text of a tree is legible where the tree stands, and its height is a bound. -/
def Printed : Role → Tree → Prop
  | .expression, tree => Legible .operand tree (items tree) tree.height
  | .statement, tree => Legible .statement tree (statement tree) (tree.height + 1)
  | .block opensScope, tree => Legible (.block opensScope) tree (items tree) (tree.height + 1)

/-- Where an expression stands as a statement, it is put in parentheses. -/
theorem statement_expression {valid : Token → Prop} {tree : Tree}
    (shaped : Shaped valid .expression tree) : statement tree = grouped (items tree) := by
  have other : tree.kind.isStatement = false := by
    cases shaped with
    | literal isLiteral _ =>
        rcases isLiteral with kind | kind <;> exact (congrArg Kind.isStatement kind).trans rfl
    | name isName _ => exact (congrArg Kind.isStatement isName).trans rfl
    | call _ _ _ => rfl
    | operation isOperator _ _ _ _ => exact (congrArg Kind.isStatement isOperator).trans rfl
  rw [statement, asStatement, other]
  rfl

theorem statement_node {token : Token} (isStatement : token.kind.isStatement = true)
    (children : List Tree) : statement (.node token children) = items (.node token children) :=
  if_pos isStatement

/-- **Canonical texts are legible.** One case for each construct. -/
theorem printed_of_shaped {role : Role} {tree : Tree} (shaped : Shaped Plain role tree) :
    Printed role tree := by
  -- An expression that stands as a statement has parentheses of its own, and so have the statements
  -- of a block: this is why their bounds exceed the height by one.
  induction shaped with
  | literal isLiteral plain =>
      rw [Printed, items_leaf (isLiteral.imp_right .inl)]
      exact (Legible.literal isLiteral plain).mono (Nat.zero_le _)
  | name isName plain =>
      rw [Printed, items_leaf (.inr (.inr isName))]
      exact (Legible.name isName plain).mono (Nat.zero_le _)
  | call isName plain _ ih =>
      rw [Printed, items_call]
      exact .call isName plain fun argument member =>
        Legible.mono (ih argument member) (height_le_heightAll member)
  | operation isOperator plain known _ _ ihLeft ihRight =>
      rw [Printed, items_operation isOperator]
      refine (Legible.operation isOperator plain known ihLeft ihRight).grouped.mono ?_
      simp only [height, heightAll]
      omega
  | evaluation shaped ih =>
      rw [Printed, statement_expression shaped]
      exact Legible.evaluation ih
  | assignment isName plainName isSign plainSign _ ih =>
      rw [Printed, statement_node (by rw [isSign]; rfl), items_assignment isSign,
        items_leaf (.inr (.inr isName))]
      refine (Legible.assignment isName plainName isSign plainSign ih).mono ?_
      simp only [height, heightAll]
      omega
  | conditional isWord plain _ _ ihCondition ihPositive =>
      rw [Printed, statement_node (by rw [isWord]; rfl), items_guarded (.inl isWord)]
      refine (Legible.branch (.inl isWord) plain ihCondition ihPositive).mono ?_
      simp only [height, heightAll]
      omega
  | alternative isWord plain _ _ _ ihCondition ihPositive ihNegative =>
      rw [Printed, statement_node (by rw [isWord]; rfl), items_alternative isWord]
      refine (Legible.alternative isWord plain ihCondition
        (Legible.mono ihPositive (Nat.le_max_left _ _))
        (Legible.mono ihNegative (Nat.le_max_right _ _))).mono ?_
      simp only [height, heightAll]
      omega
  | loop isWord plain _ _ ihCondition ihBody =>
      rw [Printed, statement_node (by rw [isWord]; rfl), items_guarded (.inr isWord)]
      refine (Legible.branch (.inr isWord) plain ihCondition ihBody).mono ?_
      simp only [height, heightAll]
      omega
  | @definition word name parameters body isWord plainWord isName plainName areNames _ ih =>
      rw [Printed, statement_node (by rw [isWord]; rfl), items_definition isWord,
        items_leaf (.inr (.inr isName)),
        map_items_leaf fun parameter member => (areNames parameter member).1]
      refine (Legible.definition isWord plainWord isName plainName areNames ih).mono ?_
      have inside := height_le_heightAll (List.mem_append_right
        (.leaf name :: parameters.map Tree.leaf) (List.mem_singleton_self body))
      simp only [height]
      omega
  | scope shaped ih =>
      cases shaped with
      | block each =>
          rw [Printed, Tree.block, statement_node rfl]
          exact Legible.scope ih
  | block _ ih =>
      rw [Printed, items_block]
      exact .block (fun tree member => Legible.mono (ih tree member)
        (Nat.succ_le_succ (height_le_heightAll member))) _ _

/-- The canonical text of a program is a program with the same tree. -/
theorem program_printed {root : Tree} (printable : Printable root) :
    Laid (program root) ∧ level (tokensFrom 0 (program root)) ≤ root.height ∧
      ∃ again, Program (tokensFrom 0 (program root)) again ∧ again.same root = true := by
  cases printable with
  | @block trees _ offset each =>
      have legible (tree : Tree) (member : tree ∈ trees) :
          Legible .statement tree (statement tree) (heightAll trees + 1) :=
        Legible.mono (printed_of_shaped (each tree member))
          (Nat.succ_le_succ (height_le_heightAll member))
      have low := separates_gap.low_joined
        (List.forall_mem_map.mpr fun tree member => (legible tree member).low) []
      have reads := reads_tokensFrom (joined [gap] (trees.map statement)) 0
      obtain ⟨again, derived, same⟩ := statements_derive legible reads []
      rw [List.append_nil] at derived
      refine ⟨?_, ?_, .block again true 0, ⟨again, derived, rfl⟩,
        same_node.mpr ⟨rfl, rfl, rfl, same⟩⟩
      · exact separates_gap.laid_joined
          (List.forall_mem_map.mpr fun tree member => (legible tree member).laid)
      · rw [program, Tree.block, Tree.children, level, reads.kinds_eq, height]
        simpa [peak] using low

/-! ## There and back -/

/-- A text whose tokens are a program has its tree, unless the limit is too low for its brackets. -/
theorem treeWithin_of_program {items : List Item} (laid : Laid items) {source : String}
    (same : written items = source.toList) {root : Tree}
    (isProgram : Program (tokensFrom 0 items) root) (limits : Limits) :
    treeWithin limits source = .ok root ∨ limits.nesting < 3 * level (tokensFrom 0 items) + 5 ∧
      ∃ token, treeWithin limits source = .error (.parsing (.tooDeep token)) := by
  have closed : (Token.endAt source.length).kind = .endOfInput := rfl
  rw [treeWithin_of_tokenize (laid.tokenize_eq same) limits]
  obtain ⟨needed, parsed⟩ := isProgram.parseWithin_eq closed
  rcases parsed limits.nesting with found | ⟨-, token, failed⟩
  · rw [found]
    exact .inl rfl
  · rw [failed]
    refine .inr ⟨Nat.lt_of_not_le fun enough => ?_, token, rfl⟩
    exact parseWithin_ne_tooDeep closed enough token failed

/-- Within limits, the canonical text of a tree has the tree again, up to offsets. -/
def Restored (limits : Limits) (root : Tree) : Prop :=
  ∃ again, treeWithin limits (text root) = .ok again ∧ again.same root = true

/-- A canonical text is parsed to its tree, unless the limit is too low for the height of the
tree. -/
theorem restored_or_tooDeep (limits : Limits) {root : Tree} (printable : Printable root) :
    Restored limits root ∨ limits.nesting < 3 * root.height + 5 ∧
      ∃ token, treeWithin limits (text root) = .error (.parsing (.tooDeep token)) := by
  obtain ⟨laid, low, again, isProgram, same⟩ := program_printed printable
  rcases treeWithin_of_program laid String.toList_ofList.symm isProgram limits with
    found | ⟨small, failed⟩
  · exact .inl ⟨again, found, same⟩
  · exact .inr ⟨by omega, failed⟩

theorem plain_tokensFrom {items : List Item} (laid : Laid items) (position : Nat) :
    ∀ token ∈ tokensFrom position items, Plain token := by
  induction laid generalizing position with
  | nil => exact fun _ => nofun
  | @cons item items valid _ _ ih =>
      cases item with
      | blank c => exact ih _
      | lexeme kind text => exact List.forall_mem_cons.mpr ⟨⟨valid, rfl⟩, ih _⟩

/-- The tree of a text can be printed. -/
theorem printable_of_treeWithin {limits : Limits} {source : String} {root : Tree}
    (parsed : treeWithin limits source = .ok root) : Printable root := by
  obtain ⟨list, read, built⟩ := of_treeWithin_eq_ok parsed
  obtain ⟨items, laid, same⟩ := exists_laid_of_tokenize read
  obtain rfl := Except.ok.inj (read.symm.trans (laid.tokenize_eq same))
  have plain := plain_tokensFrom laid 0
  have inside : ∀ token ∈ tokensFrom 0 items, token.kind ≠ .endOfInput :=
    fun token member => (plain token member).1.ne_endOfInput
  exact (program_of_parseWithin rfl inside built).shaped plain

/-- **Printing and parsing.** The canonical text of a tree that can be printed has the same tree up
to offsets, or else it is refused as nested too deeply, which happens only if the tree is high for
the limit. Every tree of a text can be printed, so its canonical text can replace the text as long
as the tree is not too high. -/
theorem treeWithin_text (limits : Limits) :
    (∀ root, Printable root → Restored limits root ∨ limits.nesting < 3 * root.height + 5 ∧
      ∃ token, treeWithin limits (text root) = .error (.parsing (.tooDeep token))) ∧
    ∀ source root, treeWithin limits source = .ok root →
      Printable root ∧ (3 * root.height + 5 ≤ limits.nesting → Restored limits root) := by
  refine ⟨fun root printable => restored_or_tooDeep limits printable, fun source root parsed => ?_⟩
  have printable := printable_of_treeWithin parsed
  refine ⟨printable, fun enough => ?_⟩
  rcases restored_or_tooDeep limits printable with restored | ⟨small, -⟩
  · exact restored
  · omega

/-- Two statements that begin in parentheses after an operand, so they do not run together. -/
theorem treeWithin_text_groups :
    let source := "x=(f)(1+\"a\")*g()"
    let root : Tree := .block
      [.node ⟨.assign, "=", 1, false⟩
        [.leaf ⟨.identifier, "x", 0, false⟩, .leaf ⟨.identifier, "f", 3, false⟩],
        .node ⟨.operator, "*", 12, false⟩
          [.node ⟨.operator, "+", 7, false⟩
            [.leaf ⟨.numeral, "1", 6, false⟩, .leaf ⟨.string, "a", 9, false⟩],
            .node ⟨.call, "g", 13, false⟩ []]] true 0
    treeWithin {} source = .ok root ∧ Printable root ∧
      text root = "x = (f) (((1 + \"a\") * g()))" ∧ Restored {} root := by
  intro source root
  have found : (treeWithin {} source).toOption = some root := by decide +kernel
  have parsed : treeWithin {} source = .ok root := by
    cases ran : treeWithin {} source with
    | error failure =>
        rw [ran] at found
        cases found
    | ok tree =>
        rw [ran] at found
        rw [Option.some.inj found]
  obtain ⟨printable, -⟩ := (treeWithin_text {}).2 source root parsed
  refine ⟨parsed, printable, by decide +kernel, ?_⟩
  rcases (treeWithin_text {}).1 root printable with restored | ⟨small, -⟩
  · exact restored
  · exact absurd small (by decide)

/-! ## Long sums -/

theorem kinds_openings (count : Nat) :
    kinds (List.replicate count opening) = List.replicate count .openParen := by
  induction count with
  | zero => rfl
  | succ count ih =>
      rw [List.replicate_succ, List.replicate_succ, ← ih]
      rfl

/-- A text that opens more parentheses than the limit allows is refused. -/
theorem treeWithin_openings {count : Nat} (inhabited : count ≠ 0) {rest : List Item}
    (laid : Laid (List.replicate count opening ++ rest)) {source : String}
    (same : written (List.replicate count opening ++ rest) = source.toList) {limits : Limits}
    (few : limits.nesting ≤ 2 * count + 1) :
    ∃ token, treeWithin limits source = .error (.parsing (.tooDeep token)) := by
  have kinds : (tokensFrom 0 (List.replicate count opening)).map Token.kind =
      List.replicate count .openParen := by
    rw [(reads_tokensFrom _ 0).kinds_eq, kinds_openings]
  obtain ⟨long, each⟩ := List.eq_replicate_iff.mp kinds
  rw [List.length_map] at long
  have nonempty : tokensFrom 0 (List.replicate count opening) ≠ [] :=
    List.ne_nil_of_length_pos (by omega)
  obtain ⟨token, refused⟩ := @parseWithin_eq_tooDeep (Token.endAt source.length) rfl _ nonempty
    (List.forall_mem_map.mp each)
    (tokensFrom (0 + (written (List.replicate count opening)).length) rest) limits.nesting
    (by rw [long]; exact few)
  refine ⟨token, ?_⟩
  rw [treeWithin_of_tokenize (laid.tokenize_eq same) limits, tokensFrom_append, refused]
  rfl

/-- A sum of ones. -/
def ones : Nat → List Item
  | 0 => [.lexeme .numeral "1"]
  | count + 1 => ones count ++ [gap, .lexeme .operator "+", gap, .lexeme .numeral "1"]

theorem laid_ones (count : Nat) : Laid (ones count) := by
  have one : (Item.lexeme .numeral "1").Valid :=
    .numeral ⟨List.all_eq_true.mp rfl, .inr ⟨_, _, rfl, rfl⟩⟩
  have plus : (Item.lexeme .operator "+").Valid := .operator (by decide)
  induction count with
  | zero => exact .single one
  | succ count ih =>
      refine ih.before rfl (.delimited valid_gap rfl ?_)
      exact (Laid.single plus).before rfl (.delimited valid_gap rfl (.single one))

theorem peak_ones (count : Nat) (rest : List Kind) :
    peak (kinds (ones count) ++ rest) = peak rest := by
  induction count generalizing rest with
  | zero => rfl
  | succ count ih =>
      rw [ones, kinds_append, List.append_assoc, ih]
      rfl

/-- The tree of a sum leans to the left, so it has a level for each sign, and its text begins with a
parenthesis for each. -/
theorem ones_derive (count : Nat) {tokens : List Token} (reads : Reads (ones count) tokens)
    (rest : List Token) :
    ∃ tree, Derives (.terms 2) (tokens ++ rest) [tree] rest ∧ tree.height = count + 1 ∧
      List.replicate count opening <+: items tree := by
  have one (offset : Int) (rest : List Token) :
      Derives (.terms 3) (⟨.numeral, "1", offset, false⟩ :: rest)
        [.leaf ⟨.numeral, "1", offset, false⟩] rest :=
    .tighter (.single (.literal (.inl rfl)))
  induction count generalizing tokens rest with
  | zero =>
      obtain ⟨offset, _, rfl, empty⟩ := reads_lexeme.mp reads
      obtain rfl := reads_nil.mp empty
      exact ⟨_, .tighter (one offset rest), rfl, List.nil_prefix⟩
  | succ count ih =>
      simp only [ones, gap, reads_append, reads_blank, reads_lexeme, reads_nil] at reads
      obtain ⟨before, _, rfl, readsLeft, offset, _, rfl, offset', _, rfl, rfl⟩ := reads
      obtain ⟨left, derived, high, opens⟩ := ih readsLeft
        (⟨.operator, "+", offset, false⟩ :: ⟨.numeral, "1", offset', false⟩ :: rest)
      have sum := derived.operation rfl (show "+" ∈ joining 2 by decide) (one offset' rest)
      rw [List.append_assoc]
      refine ⟨_, sum, by simp [height, heightAll, Tree.leaf, high], ?_⟩
      rw [items_operation rfl, grouped, List.replicate_succ, List.append_assoc]
      exact List.cons_prefix_cons.mpr ⟨rfl, opens.trans (List.prefix_append _ _)⟩

/-- A sum with many signs has a tree, but the canonical text of the tree is refused. -/
theorem ones_tooDeep {count : Nat} {limits : Limits} (enough : 5 ≤ limits.nesting)
    (few : limits.nesting ≤ 2 * count + 3) :
    ∃ root, treeWithin limits (String.ofList (written (ones count))) = .ok root ∧
      ∃ token, treeWithin limits (text root) = .error (.parsing (.tooDeep token)) := by
  have reads := reads_tokensFrom (ones count) 0
  obtain ⟨tree, derived, -, more, texts⟩ := ones_derive count reads []
  rw [List.append_nil] at derived
  have isProgram : Program (tokensFrom 0 (ones count)) (.block [tree] true 0) :=
    ⟨[tree], .nextStatement (.evaluation (.tighter derived)) (.noStatement []), rfl⟩
  have flat : level (tokensFrom 0 (ones count)) = 0 := by
    rw [level, reads.kinds_eq, ← List.append_nil (kinds (ones count)), peak_ones]
    rfl
  have parsed : treeWithin limits (String.ofList (written (ones count))) =
      .ok (.block [tree] true 0) := by
    rcases treeWithin_of_program (laid_ones count) String.toList_ofList.symm isProgram limits with
      parsed | ⟨small, -⟩
    · exact parsed
    · omega
  refine ⟨_, parsed, ?_⟩
  -- The text of the tree opens one parenthesis for each sign and one for the statement.
  have shaped : Shaped (fun _ => True) .expression tree :=
    derived.shaped (fun _ _ => trivial) tree List.mem_cons_self
  have same : program (.block [tree] true 0) =
      List.replicate (count + 1) opening ++ (more ++ [closing]) := by
    have single : program (.block [tree] true 0) = statement tree := rfl
    rw [single, statement_expression shaped, ← texts, grouped, List.replicate_succ,
      List.append_assoc, List.cons_append]
  have laid := (program_printed (printable_of_treeWithin parsed)).1
  rw [same] at laid
  refine treeWithin_openings (Nat.succ_ne_zero count) laid ?_ (by omega)
  rw [← same, text, String.toList_ofList]

/-- **Not every text can be replaced.** A sum of three thousand signs has a tree, and the canonical
text of the tree has none. -/
theorem sum_not_restored :
    ∃ root, treeOf (String.ofList (written (ones 3000))) = .ok root ∧
      (∃ token, treeOf (text root) = .error (.parsing (.tooDeep token))) ∧ ¬Restored {} root := by
  obtain ⟨root, parsed, token, refused⟩ := @ones_tooDeep 3000 {} (by decide) (by decide)
  refine ⟨root, parsed, ⟨token, refused⟩, ?_⟩
  rintro ⟨again, restored, -⟩
  rw [refused] at restored
  cases restored

end Printing

end BraceLang
