import BraceLang.Proofs.Grammar.Sorting
import BraceLang.Proofs.Printing.Canonical

/-!
# What is written can be read

A sequence of items is legible as a phrase with a tree if it is laid out properly and its tokens are
a phrase of the grammar with that tree, up to offsets; and if its brackets are not nested more
deeply than some bound (`Legible`). Here is how legible sequences are put together to longer ones,
one lemma for each construct of the language.

Operands are read as such if no parenthesis is opened after them, because a name would be a call
then. This is why a statement that is an expression stands in parentheses (`Legible.grouped`).
-/

set_option autoImplicit false

namespace BraceLang

open Lexer Grammar

/-! ## Tokens up to offsets -/

namespace Lexer

/-- The tokens are those of the items, at some offsets. -/
inductive Reads : List Item → List Token → Prop where
  | nil : Reads [] []
  | blank {c : Char} {items : List Item} {tokens : List Token} :
      Reads items tokens → Reads (.blank c :: items) tokens
  | lexeme {kind : Kind} {text : String} {offset : Int} {items : List Item}
      {tokens : List Token} :
      Reads items tokens →
        Reads (.lexeme kind text :: items) (⟨kind, text, offset, false⟩ :: tokens)

theorem reads_tokensFrom (items : List Item) (position : Nat) :
    Reads items (tokensFrom position items) := by
  induction items generalizing position with
  | nil => exact .nil
  | cons item items ih =>
      cases item with
      | blank c => exact .blank (ih _)
      | lexeme kind text => exact .lexeme (ih _)

@[simp] theorem reads_nil {tokens : List Token} : Reads [] tokens ↔ tokens = [] := by
  refine ⟨fun reads => ?_, fun empty => empty ▸ .nil⟩
  cases reads with
  | nil => rfl

@[simp] theorem reads_blank {c : Char} {items : List Item} {tokens : List Token} :
    Reads (.blank c :: items) tokens ↔ Reads items tokens := by
  refine ⟨fun reads => ?_, .blank⟩
  cases reads with
  | blank reads => exact reads

@[simp] theorem reads_lexeme {kind : Kind} {text : String} {items : List Item}
    {tokens : List Token} :
    Reads (.lexeme kind text :: items) tokens ↔
      ∃ offset rest, tokens = ⟨kind, text, offset, false⟩ :: rest ∧ Reads items rest := by
  constructor
  · intro reads
    cases reads with
    | lexeme reads => exact ⟨_, _, rfl, reads⟩
  · rintro ⟨offset, rest, rfl, reads⟩
    exact .lexeme reads

@[simp] theorem reads_append {first second : List Item} {tokens : List Token} :
    Reads (first ++ second) tokens ↔
      ∃ before later, tokens = before ++ later ∧ Reads first before ∧ Reads second later := by
  induction first generalizing tokens with
  | nil =>
      constructor
      · intro reads
        exact ⟨[], tokens, rfl, .nil, reads⟩
      · rintro ⟨before, later, rfl, empty, reads⟩
        rwa [reads_nil.mp empty]
  | cons item items ih =>
      cases item with
      | blank c => simp only [List.cons_append, reads_blank, ih]
      | lexeme kind text =>
          rw [List.cons_append, reads_lexeme]
          constructor
          · rintro ⟨offset, rest, rfl, reads⟩
            obtain ⟨before, later, rfl, one, other⟩ := ih.mp reads
            exact ⟨_ :: before, later, rfl, .lexeme one, other⟩
          · rintro ⟨before, later, rfl, one, other⟩
            obtain ⟨offset, rest, rfl, reads⟩ := reads_lexeme.mp one
            exact ⟨offset, rest ++ later, rfl, ih.mpr ⟨rest, later, rfl, reads, other⟩⟩

/-- The kind of the token of an item. -/
def Item.kind? : Item → Option Kind
  | .blank _ => none
  | .lexeme kind _ => some kind

/-- The kinds of the tokens of items. -/
def kinds (items : List Item) : List Kind :=
  items.filterMap Item.kind?

@[simp] theorem kinds_nil : kinds [] = [] :=
  rfl

@[simp] theorem kinds_blank (c : Char) (items : List Item) :
    kinds (.blank c :: items) = kinds items :=
  rfl

@[simp] theorem kinds_lexeme (kind : Kind) (text : String) (items : List Item) :
    kinds (.lexeme kind text :: items) = kind :: kinds items :=
  rfl

@[simp] theorem kinds_append (first second : List Item) :
    kinds (first ++ second) = kinds first ++ kinds second :=
  List.filterMap_append

theorem Reads.kinds_eq {items : List Item} {tokens : List Token} (reads : Reads items tokens) :
    tokens.map Token.kind = kinds items := by
  induction reads with
  | nil => rfl
  | blank _ ih => exact ih
  | lexeme _ ih => rw [List.map_cons, ih, kinds_lexeme]

end Lexer

/-- Nodes are the same up to offsets if their tokens and their children are. -/
theorem Tree.same_node {first second : Token} {firsts seconds : List Tree} :
    (node first firsts).same (node second seconds) = true ↔
      first.kind = second.kind ∧ first.text = second.text ∧
        first.opensScope = second.opensScope ∧ sameAll firsts seconds = true := by
  simp [same, and_assoc]

theorem Tree.sameAll_append {firsts seconds others more : List Tree}
    (one : sameAll firsts seconds = true) (other : sameAll others more = true) :
    sameAll (firsts ++ others) (seconds ++ more) = true := by
  induction firsts generalizing seconds with
  | nil =>
      cases seconds with
      | nil => exact other
      | cons => cases one
  | cons first firsts ih =>
      cases seconds with
      | nil => cases one
      | cons second seconds =>
          rw [sameAll, Bool.and_eq_true] at one
          rw [List.cons_append, List.cons_append, sameAll, one.1, ih one.2]
          rfl

namespace Printing

open BraceLang.Tree (same_node sameAll)

/-! ## Legible phrases -/

/-- What may follow a phrase: after an operand and an expression no parenthesis is opened. -/
def Clear : Phrase → List Token → Prop
  | .operand, rest | .terms _, rest => ∀ next ∈ rest.head?, next.kind ≠ .openParen
  | _, _ => True

/-- The brackets of items are nested within a bound, and they are closed again before what
follows. -/
def Low (items : List Item) (bound : Nat) : Prop :=
  ∀ rest, peak (kinds items ++ rest) ≤ max bound (peak rest)

/-- Items that are a phrase with a tree, in which brackets are nested within a bound. -/
structure Legible (phrase : Phrase) (tree : Tree) (items : List Item) (bound : Nat) : Prop where
  laid : Laid items
  low : Low items bound
  derives {tokens rest : List Token} : Reads items tokens → Clear phrase rest →
    ∃ again, Derives phrase (tokens ++ rest) [again] rest ∧ again.same tree = true

/-- A token as the lexer reads it, at any offset. -/
def Plain (token : Token) : Prop :=
  Spelled token.kind token.text ∧ token.opensScope = false

variable {phrase : Phrase} {tree : Tree} {items : List Item} {bound : Nat}

theorem valid_gap : gap.Valid :=
  show Text.isBlank ' ' = true by decide

theorem valid_opening : opening.Valid :=
  @Spelled.punctuation '(' _ (by decide)

theorem valid_closing : closing.Valid :=
  @Spelled.punctuation ')' _ (by decide)

theorem valid_comma : comma.Valid :=
  @Spelled.punctuation ',' _ (by decide)

/-- A token and the one that is read again in its place make the same node of the same children. -/
theorem Plain.same {token : Token} (plain : Plain token) (offset : Int) {firsts seconds : List Tree}
    (children : sameAll firsts seconds = true) :
    (Tree.node ⟨token.kind, token.text, offset, false⟩ firsts).same (.node token seconds) = true :=
  same_node.mpr ⟨rfl, rfl, plain.2.symm, children⟩

theorem Plain.same_leaf {token : Token} (plain : Plain token) (offset : Int) :
    (Tree.leaf ⟨token.kind, token.text, offset, false⟩).same (.leaf token) = true :=
  plain.same offset rfl

theorem clear_of_kind (next : Token) (notOpening : next.kind ≠ .openParen) (rest : List Token) :
    Clear phrase (next :: rest) := by
  cases phrase with
  | operand | terms =>
      rintro _ ⟨⟩
      exact notOpening
  | _ => trivial

theorem laid_grouped (laid : Laid items) : Laid (grouped items) :=
  .delimited valid_opening rfl (laid.before rfl (.single valid_closing))

theorem low_item {token : Token} (flat : isFlat token.kind = true) : Low [item token] 0 := by
  intro rest
  rw [item, kinds_lexeme, kinds_nil, List.singleton_append, peak_flat flat]
  exact Nat.le_max_right _ _

theorem low_grouped (low : Low items bound) : Low (grouped items) (bound + 1) := by
  intro rest
  have inside := low (.closeParen :: rest)
  simp only [peak] at inside
  simp only [grouped, opening, closing, kinds_append, kinds_lexeme, kinds_nil,
    List.cons_append, List.append_assoc, List.nil_append, peak]
  omega

namespace Legible

/-! ## Expressions -/

theorem literal {token : Token} (isLiteral : token.kind = .numeral ∨ token.kind = .string)
    (plain : Plain token) : Legible .operand (.leaf token) [item token] 0 where
  laid := .single plain.1
  low := low_item (by rcases isLiteral with kind | kind <;> rw [kind] <;> rfl)
  derives reads _ := by
    obtain _ | _ | reads := reads
    obtain _ | _ | _ := reads
    exact ⟨_, .literal isLiteral, plain.same _ rfl⟩

theorem name {token : Token} (isName : token.kind = .identifier) (plain : Plain token) :
    Legible .operand (.leaf token) [item token] 0 where
  laid := .single plain.1
  low := low_item (by rw [isName]; rfl)
  derives reads clear := by
    obtain _ | _ | reads := reads
    obtain _ | _ | _ := reads
    exact ⟨_, .name isName clear, plain.same _ rfl⟩

/-- An operand is an expression of any level. -/
theorem terms (legible : Legible .operand tree items bound) {level : Nat} (tight : level ≤ 4) :
    Legible (.terms level) tree items bound where
  laid := legible.laid
  low := legible.low
  derives reads clear := by
    obtain ⟨again, derived, same⟩ := legible.derives reads clear
    exact ⟨again, (Derives.single derived).loosen tight, same⟩

theorem expression (legible : Legible .operand tree items bound) :
    Legible .expression tree items bound :=
  legible.terms (by decide)

theorem mono (legible : Legible phrase tree items bound) {larger : Nat} (le : bound ≤ larger) :
    Legible phrase tree items larger where
  laid := legible.laid
  low rest := by
    have low := legible.low rest
    omega
  derives := legible.derives

/-- Two operands and an operator are an expression. -/
theorem operation {sign : Token} {operator : Operator} {left right : Tree}
    {lefts rights : List Item} {one other : Nat} (isOperator : sign.kind = .operator)
    (plain : Plain sign) (known : Operator.ofText? sign.text = some operator)
    (first : Legible .operand left lefts one) (second : Legible .operand right rights other) :
    Legible .expression (.node sign [left, right]) (lefts ++ gap :: item sign :: gap :: rights)
      (max one other) where
  laid := by
    have valid : (item sign).Valid := plain.1
    refine first.laid.before rfl (.delimited valid_gap rfl ?_)
    exact (Laid.single valid).before rfl (.delimited valid_gap rfl second.laid)
  low rest := by
    have lower := second.low rest
    have upper := first.low (.operator :: (kinds rights ++ rest))
    simp only [peak] at upper
    simp only [kinds_append, gap, item, isOperator, kinds_blank, kinds_lexeme, List.append_assoc,
      List.cons_append]
    omega
  derives {tokens rest} reads clear := by
    simp only [reads_append, gap, item, reads_blank, reads_lexeme] at reads
    obtain ⟨before, _, rfl, readsLeft, offset, later, rfl, readsRight⟩ := reads
    have tight := Operator.level_lt_four operator
    have notOpening : sign.kind ≠ .openParen := by rw [isOperator]; decide
    -- The sign follows the left operand, so only the right one depends on what comes later.
    obtain ⟨left, derivedLeft, sameLeft⟩ := (first.terms (Nat.le_of_lt tight)).derives readsLeft
      (clear_of_kind ⟨sign.kind, sign.text, offset, false⟩ notOpening (later ++ rest))
    obtain ⟨right, derivedRight, sameRight⟩ := (second.terms tight).derives readsRight clear
    refine ⟨.node ⟨sign.kind, sign.text, offset, false⟩ [left, right], ?_, plain.same _ ?_⟩
    · rw [List.append_assoc]
      have derived := Derives.operation derivedLeft isOperator (mem_joining known) derivedRight
      exact derived.loosen (Nat.le_of_not_lt (Operator.not_level_lt_one operator))
    · simp [sameAll, sameLeft, sameRight]

/-- An expression in parentheses is an operand, whatever follows. -/
theorem grouped_derives (legible : Legible .expression tree items bound) {tokens : List Token}
    (reads : Reads (Printing.grouped items) tokens) (rest : List Token) :
    ∃ again, Derives .operand (tokens ++ rest) [again] rest ∧ again.same tree = true := by
  simp only [Printing.grouped, opening, closing, reads_lexeme, reads_append, reads_nil] at reads
  obtain ⟨offset, _, rfl, before, _, rfl, readsInside, offset', _, rfl, rfl⟩ := reads
  obtain ⟨again, derived, same⟩ := legible.derives readsInside
    (clear_of_kind ⟨.closeParen, ")", offset', false⟩ nofun rest)
  refine ⟨again, ?_, same⟩
  simpa using Derives.group rfl derived rfl

theorem grouped (legible : Legible .expression tree items bound) :
    Legible .operand tree (Printing.grouped items) (bound + 1) where
  laid := laid_grouped legible.laid
  low := low_grouped legible.low
  derives reads _ := legible.grouped_derives reads _

end Legible

/-! ## Lists -/

/-- Items that can stand between any two parts, and that open and close no brackets. -/
structure Separates (separator : List Item) : Prop where
  laid {items : List Item} : Laid items → Laid (separator ++ items)
  outside (items : List Item) : ∀ c ∈ (written (separator ++ items)).head?, isRunChar c = false
  flat (rest : List Kind) : peak (kinds separator ++ rest) = peak rest

theorem separates_gap : Separates [gap] where
  laid := .delimited valid_gap rfl
  outside items := valid_gap.outside rfl (written items)
  flat _ := rfl

theorem separates_comma : Separates [comma, gap] where
  laid laid := .delimited valid_comma rfl (.delimited valid_gap rfl laid)
  outside items := valid_comma.outside rfl (written (gap :: items))
  flat _ := rfl

/-- Parts that are laid out are laid out with separators between them. -/
theorem Separates.laid_joined {separator : List Item} (separates : Separates separator)
    {parts : List (List Item)} (each : ∀ part ∈ parts, Laid part) :
    Laid (joined separator parts) := by
  induction parts with
  | nil => exact .nil
  | cons part parts ih =>
      obtain ⟨first, others⟩ := List.forall_mem_cons.mp each
      cases parts with
      | nil => exact first
      | cons next parts => exact first.append (separates.laid (ih others)) (separates.outside _)

/-- The bound of the parts is that of the whole. -/
theorem Separates.low_joined {separator : List Item} (separates : Separates separator)
    {parts : List (List Item)} (each : ∀ part ∈ parts, Low part bound) :
    Low (joined separator parts) bound := by
  intro rest
  induction parts with
  | nil => exact Nat.le_max_right _ _
  | cons part parts ih =>
      obtain ⟨first, others⟩ := List.forall_mem_cons.mp each
      cases parts with
      | nil => exact first rest
      | cons next parts =>
          have later := ih others
          have upper := first
            (kinds separator ++ (kinds (joined separator (next :: parts)) ++ rest))
          rw [separates.flat] at upper
          simp only [joined, kinds_append, List.append_assoc]
          omega

/-- Trees with commas between their texts, before a closing parenthesis. A single one and one before
others are given as rules. -/
theorem joined_derives {phrase : Phrase} {text : Tree → List Item} {trees : List Tree}
    (inhabited : trees ≠ []) {closing : Token} {rest : List Token}
    (last : ∀ tree ∈ trees, ∀ {tokens}, Reads (text tree) tokens →
      ∃ again, Derives phrase (tokens ++ closing :: rest) [again] (closing :: rest) ∧
        again.same tree = true)
    (next : ∀ tree ∈ trees, ∀ {tokens offset middle others}, Reads (text tree) tokens →
      Derives phrase middle others (closing :: rest) →
        ∃ again, Derives phrase (tokens ++ ⟨.comma, ",", offset, false⟩ :: middle)
          (again :: others) (closing :: rest) ∧ again.same tree = true)
    {tokens : List Token} (reads : Reads (joined [comma, gap] (trees.map text)) tokens) :
    ∃ again, Derives phrase (tokens ++ closing :: rest) again (closing :: rest) ∧
      sameAll again trees = true := by
  induction trees generalizing tokens with
  | nil => exact absurd rfl inhabited
  | cons tree trees ih =>
      cases trees with
      | nil =>
          obtain ⟨again, derived, same⟩ := last tree List.mem_cons_self reads
          exact ⟨[again], derived, by simp [sameAll, same]⟩
      | cons second trees =>
          simp only [List.map_cons, joined, comma, gap, List.cons_append, List.nil_append,
            reads_append, reads_lexeme, reads_blank] at reads
          obtain ⟨before, _, rfl, readsFirst, offset, later, rfl, readsLater⟩ := reads
          obtain ⟨others, derivedOthers, sameOthers⟩ := ih (List.cons_ne_nil _ _)
            (fun tree member => last tree (List.mem_cons_of_mem _ member))
            (fun tree member => next tree (List.mem_cons_of_mem _ member)) readsLater
          obtain ⟨again, derived, same⟩ := next tree List.mem_cons_self readsFirst derivedOthers
          refine ⟨again :: others, ?_, by rw [sameAll, same, sameOthers]; rfl⟩
          rw [List.append_assoc]
          exact derived

theorem arguments_derive {text : Tree → List Item} {arguments : List Tree}
    (each : ∀ argument ∈ arguments, Legible .operand argument (text argument) bound)
    (inhabited : arguments ≠ []) {tokens : List Token}
    (reads : Reads (joined [comma, gap] (arguments.map text)) tokens) (closing : Token)
    (isClosing : closing.kind = .closeParen) (rest : List Token) :
    ∃ again, Derives .arguments (tokens ++ closing :: rest) again (closing :: rest) ∧
      sameAll again arguments = true := by
  refine joined_derives inhabited ?_ ?_ reads
  · intro argument member tokens reads
    have notOpening : closing.kind ≠ .openParen := by rw [isClosing]; decide
    obtain ⟨again, derived, same⟩ := (each argument member).expression.derives reads
      (clear_of_kind closing notOpening rest)
    exact ⟨again, .lastArgument derived, same⟩
  · intro argument member tokens offset middle others reads derivedOthers
    obtain ⟨again, derived, same⟩ := (each argument member).expression.derives reads
      (clear_of_kind ⟨.comma, ",", offset, false⟩ nofun middle)
    exact ⟨again, .nextArgument derived rfl derivedOthers, same⟩

namespace Legible

/-- A name before arguments in parentheses is a call. -/
theorem call {name : Token} (isName : name.kind = .identifier) (plain : Plain name)
    {text : Tree → List Item} {arguments : List Tree}
    (each : ∀ argument ∈ arguments, Legible .operand argument (text argument) bound) :
    Legible .operand (.node ⟨.call, name.text, name.offset, false⟩ arguments)
      (.lexeme .identifier name.text :: listed (arguments.map text)) (bound + 1) where
  laid := by
    have valid : (Item.lexeme .identifier name.text).Valid := isName ▸ plain.1
    have inside := separates_comma.laid_joined
      (List.forall_mem_map.mpr fun argument member => (each argument member).laid)
    exact (Laid.single valid).before rfl (laid_grouped inside)
  low rest := by
    have inside := separates_comma.low_joined
      (List.forall_mem_map.mpr fun argument member => (each argument member).low)
    rw [kinds_lexeme, List.cons_append, peak_flat rfl]
    exact low_grouped inside rest
  derives {tokens rest} reads _ := by
    simp only [listed, Printing.grouped, opening, closing, reads_lexeme, reads_append,
      reads_nil] at reads
    obtain ⟨offset, _, rfl, offset', _, rfl, before, _, rfl, readsInside, offset'', _, rfl, rfl⟩ :=
      reads
    cases arguments with
    | nil =>
        obtain rfl := reads_nil.mp readsInside
        exact ⟨_, .nullaryCall rfl rfl rfl, same_node.mpr ⟨rfl, rfl, rfl, rfl⟩⟩
    | cons argument arguments =>
        obtain ⟨again, derived, same⟩ := arguments_derive each (List.cons_ne_nil _ _) readsInside
          ⟨.closeParen, ")", offset'', false⟩ rfl rest
        have derived := @Derives.call ⟨.identifier, name.text, offset, false⟩
          ⟨.openParen, "(", offset', false⟩ _ _ _ _ rfl rfl derived rfl
        refine ⟨.node ⟨.call, name.text, offset, false⟩ again, by simpa using derived, ?_⟩
        exact same_node.mpr ⟨rfl, rfl, rfl, same⟩

end Legible

/-- Statements one after the other. -/
theorem statements_derive {text : Tree → List Item} {trees : List Tree}
    (each : ∀ tree ∈ trees, Legible .statement tree (text tree) bound) {tokens : List Token}
    (reads : Reads (joined [gap] (trees.map text)) tokens) (rest : List Token) :
    ∃ again, Derives .statements (tokens ++ rest) again rest ∧ sameAll again trees = true := by
  induction trees generalizing tokens with
  | nil =>
      obtain rfl := reads_nil.mp reads
      exact ⟨[], .noStatement rest, rfl⟩
  | cons tree trees ih =>
      obtain ⟨first, others⟩ := List.forall_mem_cons.mp each
      cases trees with
      | nil =>
          obtain ⟨again, derived, same⟩ := first.derives reads trivial
          exact ⟨[again], .nextStatement derived (.noStatement rest), by simp [sameAll, same]⟩
      | cons second trees =>
          simp only [List.map_cons, joined, gap, List.cons_append, List.nil_append,
            reads_append, reads_blank] at reads
          obtain ⟨before, later, rfl, readsFirst, readsLater⟩ := reads
          obtain ⟨more, derivedMore, sameMore⟩ := ih others readsLater
          obtain ⟨again, derived, same⟩ := first.derives readsFirst trivial
          refine ⟨again :: more, ?_, by rw [sameAll, same, sameMore]; rfl⟩
          rw [List.append_assoc]
          exact .nextStatement derived derivedMore

/-- Names with commas between them are parameters. -/
theorem parameters_derive {parameters : List Token}
    (areNames : ∀ parameter ∈ parameters, parameter.kind = .identifier ∧ Plain parameter)
    (inhabited : parameters ≠ []) {tokens : List Token}
    (reads : Reads (joined [comma, gap] (parameters.map fun parameter => [item parameter])) tokens)
    (closing : Token) (rest : List Token) :
    ∃ again, Derives .parameters (tokens ++ closing :: rest) again (closing :: rest) ∧
      sameAll again (parameters.map Tree.leaf) = true := by
  have texts : parameters.map (fun parameter => [item parameter]) =
      (parameters.map Tree.leaf).map fun tree => [item tree.token] := by
    rw [List.map_map]
    rfl
  rw [texts] at reads
  refine joined_derives (by simpa using inhabited) ?_ ?_ reads
  · intro tree member tokens reads
    obtain ⟨parameter, listed, rfl⟩ := List.mem_map.mp member
    obtain ⟨isName, plain⟩ := areNames parameter listed
    simp only [item, reads_lexeme, reads_nil] at reads
    obtain ⟨offset, _, rfl, rfl⟩ := reads
    exact ⟨_, .lastParameter isName, plain.same_leaf offset⟩
  · intro tree member tokens offset middle others reads derived
    obtain ⟨parameter, listed, rfl⟩ := List.mem_map.mp member
    obtain ⟨isName, plain⟩ := areNames parameter listed
    simp only [item, reads_lexeme, reads_nil] at reads
    obtain ⟨offset', _, rfl, rfl⟩ := reads
    exact ⟨_, .nextParameter isName rfl derived, plain.same_leaf offset'⟩

/-! ## Statements -/

/-- Items of a condition in parentheses after a word, and of what follows it. -/
def guarded (word : Token) (condition body : List Item) : List Item :=
  item word :: gap :: (grouped condition ++ gap :: body)

theorem laid_guarded {word : Token} (plain : Plain word) {condition body : List Item}
    (one : Laid condition) (other : Laid body) : Laid (guarded word condition body) := by
  have valid : (item word).Valid := plain.1
  have later : Laid (gap :: body) := .delimited valid_gap rfl other
  refine (Laid.single valid).before rfl (.delimited valid_gap rfl ?_)
  exact (laid_grouped one).before rfl later

theorem low_guarded {word : Token} (flat : isFlat word.kind = true) {condition body : List Item}
    {one other : Nat} (first : Low condition one) (second : Low body other) :
    Low (guarded word condition body) (max (one + 1) other) := by
  intro rest
  have lower := second rest
  have upper := low_grouped first (kinds body ++ rest)
  simp only [guarded, item, gap, kinds_lexeme, kinds_blank, kinds_append, List.cons_append,
    List.append_assoc, peak_flat flat]
  omega

/-- A condition is read up to the parenthesis that closes it. -/
theorem reads_guarded {condition : Tree} {conditions : List Item}
    (legible : Legible .operand condition conditions bound) {word : Token} {body : List Item}
    {tokens : List Token} (reads : Reads (guarded word conditions body) tokens) :
    ∃ offset offset' offset'' before later,
      tokens = ⟨word.kind, word.text, offset, false⟩ :: ⟨.openParen, "(", offset', false⟩ ::
        (before ++ ⟨.closeParen, ")", offset'', false⟩ :: later) ∧
      Reads body later ∧
      ∀ rest, ∃ again, Derives .expression
        (before ++ ⟨.closeParen, ")", offset'', false⟩ :: rest) [again]
        (⟨.closeParen, ")", offset'', false⟩ :: rest) ∧ again.same condition = true := by
  simp only [guarded, item, gap, grouped, opening, closing, reads_lexeme, reads_blank,
    List.cons_append, List.append_assoc, List.nil_append, reads_append] at reads
  obtain ⟨offset, _, rfl, offset', _, rfl, before, _, rfl, readsCondition, offset'', later, rfl,
    readsBody⟩ := reads
  refine ⟨offset, offset', offset'', before, later, rfl, readsBody, fun rest => ?_⟩
  exact legible.expression.derives readsCondition
    (clear_of_kind ⟨.closeParen, ")", offset'', false⟩ nofun rest)

namespace Legible

/-- An expression in parentheses is a statement. -/
theorem evaluation (legible : Legible .operand tree items bound) :
    Legible .statement tree (Printing.grouped items) (bound + 1) where
  laid := laid_grouped legible.laid
  low := low_grouped legible.low
  derives reads _ := by
    obtain ⟨again, derived, same⟩ := legible.expression.grouped_derives reads _
    exact ⟨again, .evaluation ((Derives.single derived).loosen (by decide)), same⟩

theorem assignment {name sign : Token} {value : Tree} {values : List Item}
    (isName : name.kind = .identifier) (plainName : Plain name) (isSign : sign.kind = .assign)
    (plainSign : Plain sign) (legible : Legible .operand value values bound) :
    Legible .statement (.node sign [.leaf name, value])
      ([item name] ++ gap :: item sign :: gap :: Printing.grouped values) (bound + 1) where
  laid := by
    have validName : (item name).Valid := plainName.1
    have validSign : (item sign).Valid := plainSign.1
    refine (Laid.single validName).before rfl (.delimited valid_gap rfl ?_)
    refine (Laid.single validSign).before rfl (.delimited valid_gap rfl ?_)
    exact laid_grouped legible.laid
  low rest := by
    simp only [item, gap, kinds_lexeme, kinds_blank, List.cons_append, List.nil_append, isName,
      isSign, peak]
    exact low_grouped legible.low rest
  derives {tokens rest} reads _ := by
    simp only [item, gap, List.cons_append, List.nil_append, reads_lexeme, reads_blank] at reads
    obtain ⟨offset, _, rfl, offset', later, rfl, readsValue⟩ := reads
    obtain ⟨again, derived, same⟩ := legible.expression.grouped_derives readsValue rest
    have derivedValue : Derives .expression (later ++ rest) [again] rest :=
      (Derives.single derived).loosen (by decide)
    refine ⟨_, .assignment isName isSign derivedValue, plainSign.same offset' ?_⟩
    simp [sameAll, same, plainName.same_leaf offset]

/-- A condition in parentheses and branches after a word. The rule of the word is given. -/
theorem guard {word : Token} (flat : isFlat word.kind = true) (plain : Plain word)
    {condition : Tree} {branches : List Tree} {conditions bodies : List Item} {one other : Nat}
    (first : Legible .operand condition conditions one) (laid : Laid bodies)
    (low : Low bodies other)
    (rule : ∀ {opening closing : Token} {offset : Int} {start later rest : List Token}
      {condition : Tree}, opening.kind = .openParen → closing.kind = .closeParen →
        Derives .expression start [condition] (closing :: (later ++ rest)) → Reads bodies later →
          ∃ again, Derives .statement (⟨word.kind, word.text, offset, false⟩ :: opening :: start)
            [.node ⟨word.kind, word.text, offset, false⟩ (condition :: again)] rest ∧
              sameAll again branches = true) :
    Legible .statement (.node word (condition :: branches)) (guarded word conditions bodies)
      (max (one + 1) other) where
  laid := laid_guarded plain first.laid laid
  low := low_guarded flat first.low low
  derives {tokens rest} reads _ := by
    obtain ⟨offset, offset', offset'', before, later, rfl, readsBodies, question⟩ :=
      reads_guarded first reads
    obtain ⟨again, derived, same⟩ := question (later ++ rest)
    obtain ⟨others, derivedAll, sameOthers⟩ :=
      @rule ⟨.openParen, "(", offset', false⟩ _ offset _ _ _ _ rfl rfl derived readsBodies
    refine ⟨_, by simpa using derivedAll, plain.same offset ?_⟩
    rw [sameAll, same, sameOthers]
    rfl

/-- A condition with one branch, or a loop. -/
theorem branch {word : Token} (isWord : word.kind = .ifWord ∨ word.kind = .whileWord)
    (plain : Plain word) {condition body : Tree} {conditions bodies : List Item} {one other : Nat}
    (first : Legible .operand condition conditions one)
    (second : Legible (.block true) body bodies other) :
    Legible .statement (.node word [condition, body]) (guarded word conditions bodies)
      (max (one + 1) other) := by
  have flat : isFlat word.kind = true := by rcases isWord with isIf | isWhile <;> simp [*, isFlat]
  refine guard flat plain first second.laid second.low ?_
  intro _ _ _ _ _ _ _ isOpening isClosing derived reads
  obtain ⟨again, derivedAgain, same⟩ := second.derives reads trivial
  exact ⟨[again], .guarded isWord isOpening derived isClosing derivedAgain,
    by simp [sameAll, same]⟩

theorem alternative {word : Token} (isWord : word.kind = .ifWord) (plain : Plain word)
    {condition positive negative : Tree} {conditions positives negatives : List Item}
    {one other : Nat} (first : Legible .operand condition conditions one)
    (second : Legible (.block true) positive positives other)
    (third : Legible (.block true) negative negatives other) :
    Legible .statement (.node word [condition, positive, negative])
      (guarded word conditions
        (positives ++ gap :: .lexeme .elseWord "else" :: gap :: negatives))
      (max (one + 1) other) := by
  refine guard (by rw [isWord]; rfl) plain first ?_ (fun rest => ?_) ?_
  · have valid : (Item.lexeme .elseWord "else").Valid := .keyword (by decide)
    refine second.laid.before rfl (.delimited valid_gap rfl ?_)
    exact (Laid.single valid).before rfl (.delimited valid_gap rfl third.laid)
  · have lower := third.low rest
    have upper := second.low (.elseWord :: (kinds negatives ++ rest))
    rw [peak_flat rfl] at upper
    simp only [gap, kinds_append, kinds_blank, kinds_lexeme, List.append_assoc, List.cons_append]
    omega
  · intro _ _ _ _ _ _ _ isOpening isClosing derived reads
    simp only [gap, reads_append, reads_blank, reads_lexeme] at reads
    obtain ⟨before, _, rfl, readsPositive, offset, later, rfl, readsNegative⟩ := reads
    obtain ⟨negative, derivedNegative, sameNegative⟩ := third.derives readsNegative trivial
    obtain ⟨positive, derivedPositive, samePositive⟩ := second.derives readsPositive trivial
    rw [List.append_assoc] at derived
    exact ⟨[positive, negative], .alternative isWord isOpening derived isClosing derivedPositive
      rfl derivedNegative, by simp [sameAll, samePositive, sameNegative]⟩

theorem definition {word name : Token} {parameters : List Token} (isWord : word.kind = .fnWord)
    (plainWord : Plain word) (isName : name.kind = .identifier) (plainName : Plain name)
    (areNames : ∀ parameter ∈ parameters, parameter.kind = .identifier ∧ Plain parameter)
    {body : Tree} {bodies : List Item} (legible : Legible (.block false) body bodies bound) :
    Legible .statement (.node word (.leaf name :: parameters.map Tree.leaf ++ [body]))
      (item word :: gap :: ([item name] ++
        (listed (parameters.map fun parameter => [item parameter]) ++ gap :: bodies)))
      (max 1 bound) where
  laid := by
    have validWord : (item word).Valid := plainWord.1
    have validName : (item name).Valid := plainName.1
    have names : Laid (joined [comma, gap] (parameters.map fun parameter => [item parameter])) :=
      separates_comma.laid_joined
        (List.forall_mem_map.mpr fun parameter member => .single (areNames parameter member).2.1)
    have later : Laid (gap :: bodies) := .delimited valid_gap rfl legible.laid
    refine (Laid.single validWord).before rfl (.delimited valid_gap rfl ?_)
    exact (Laid.single validName).before rfl ((laid_grouped names).before rfl later)
  low rest := by
    have each (parameter : Token) (member : parameter ∈ parameters) : Low [item parameter] 0 :=
      low_item (by rw [(areNames parameter member).1]; rfl)
    have names := separates_comma.low_joined (List.forall_mem_map.mpr each)
    have upper := low_grouped names (kinds bodies ++ rest)
    have lower := legible.low rest
    simp only [item, gap, listed, kinds_lexeme, kinds_blank, kinds_append, isWord, isName,
      List.cons_append, List.nil_append, List.append_assoc, peak] at upper ⊢
    omega
  derives {tokens rest} reads _ := by
    simp only [item, gap, listed, Printing.grouped, opening, closing, List.cons_append,
      List.nil_append, List.append_assoc, reads_lexeme, reads_blank, reads_append] at reads
    obtain ⟨offset, _, rfl, offset', _, rfl, opened, _, rfl, before, _, rfl, readsNames, closed,
      later, rfl, readsBody⟩ := reads
    obtain ⟨again, derivedBody, sameBody⟩ := legible.derives readsBody trivial
    have sameName := plainName.same_leaf offset'
    cases parameters with
    | nil =>
        obtain rfl := reads_nil.mp readsNames
        refine ⟨_, .nullaryDefinition isWord isName rfl rfl derivedBody, plainWord.same offset ?_⟩
        simp [sameAll, sameName, sameBody]
    | cons parameter parameters =>
        obtain ⟨names, derivedNames, sameNames⟩ := parameters_derive areNames
          (List.cons_ne_nil _ _) readsNames ⟨.closeParen, ")", closed, false⟩ (later ++ rest)
        have derived := @Derives.definition ⟨word.kind, word.text, offset, false⟩
          ⟨name.kind, name.text, offset', false⟩ ⟨.openParen, "(", opened, false⟩ _ _ _ _ _ _
          isWord isName rfl derivedNames rfl derivedBody
        refine ⟨_, by simpa using derived, plainWord.same offset ?_⟩
        rw [List.cons_append, sameAll, sameName]
        exact Tree.sameAll_append sameNames (by simp [sameAll, sameBody])

/-- Statements in braces are a block. -/
theorem block {text : Tree → List Item} {trees : List Tree}
    (each : ∀ tree ∈ trees, Legible .statement tree (text tree) bound) (opensScope : Bool)
    (offset : Int) :
    Legible (.block opensScope) (.block trees opensScope offset) (braced (trees.map text))
      (bound + 1) where
  laid := by
    have inside := separates_gap.laid_joined
      (List.forall_mem_map.mpr fun tree member => (each tree member).laid)
    refine .delimited (@Spelled.punctuation '\x7b' _ (by decide)) rfl (.delimited valid_gap rfl ?_)
    have later : Laid [gap, .lexeme .closeBrace "\x7d"] :=
      .delimited valid_gap rfl (.single (@Spelled.punctuation '\x7d' _ (by decide)))
    exact inside.before rfl later
  low rest := by
    have inside := separates_gap.low_joined
      (List.forall_mem_map.mpr fun tree member => (each tree member).low) (.closeBrace :: rest)
    simp only [braced, gap, kinds_lexeme, kinds_blank, kinds_append, kinds_nil, List.cons_append,
      List.nil_append, List.append_assoc, peak] at inside ⊢
    omega
  derives {tokens rest} reads _ := by
    simp only [braced, gap, reads_lexeme, reads_blank, reads_append, reads_nil] at reads
    obtain ⟨offset', _, rfl, before, _, rfl, readsInside, offset'', _, rfl, rfl⟩ := reads
    obtain ⟨again, derived, same⟩ := statements_derive each readsInside
      (⟨.closeBrace, "\x7d", offset'', false⟩ :: rest)
    have derivedBlock := @Derives.block ⟨.openBrace, "\x7b", offset', false⟩ _ opensScope _ _ _ rfl
      derived rfl
    refine ⟨.block again opensScope offset', by simpa using derivedBlock, ?_⟩
    exact same_node.mpr ⟨rfl, rfl, rfl, same⟩

theorem scope (legible : Legible (.block true) tree items bound) :
    Legible .statement tree items bound where
  laid := legible.laid
  low := legible.low
  derives reads _ := by
    obtain ⟨again, derived, same⟩ := legible.derives reads trivial
    exact ⟨again, .scope derived, same⟩

end Legible

end Printing

end BraceLang
