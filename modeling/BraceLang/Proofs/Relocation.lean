import BraceLang.Parser.Cursor
import BraceLang.Parser.Postfix
import BraceLang.Proofs.Grammar.Derivation

/-!
# Moving tokens and trees to other offsets

A function on offsets moves a token to another place, and with it the trees, cursors, states of the
sorting and failures that hold tokens (`relocate`). Nothing but offsets changes.

Derivations, the release of waiting operators and the folding of a postfix sequence do not depend on
offsets, so all of them commute with moving. Two trees are equal up to offsets if and only if they
are equal after all offsets are moved to zero (`Tree.same_iff`).
-/

set_option autoImplicit false

namespace BraceLang

variable (place : Int → Int)

/-! ## Tokens and trees -/

/-- The token at another place. -/
def Token.relocate (token : Token) : Token :=
  { token with offset := place token.offset }

@[simp] theorem Token.relocate_kind (token : Token) : (token.relocate place).kind = token.kind :=
  rfl

@[simp] theorem Token.relocate_text (token : Token) : (token.relocate place).text = token.text :=
  rfl

namespace Tree

mutual

/-- The tree with every token at another place. -/
def relocate : Tree → Tree
  | node token children => node (token.relocate place) (relocateAll children)

/-- The trees with every token at another place. -/
def relocateAll : List Tree → List Tree
  | [] => []
  | tree :: trees => relocate tree :: relocateAll trees

end

theorem relocateAll_eq_map (trees : List Tree) :
    relocateAll place trees = trees.map (relocate place) := by
  induction trees with
  | nil => rfl
  | cons tree trees ih => rw [relocateAll, ih, List.map_cons]

@[simp] theorem relocate_node (token : Token) (children : List Tree) :
    relocate place (node token children) =
      node (token.relocate place) (children.map (relocate place)) := by
  rw [relocate, relocateAll_eq_map]

theorem relocate_leaf (token : Token) :
    relocate place (leaf token) = leaf (token.relocate place) := by
  rw [leaf, relocate_node, List.map_nil, leaf]

theorem relocate_block (statements : List Tree) (opensScope : Bool) (offset : Int) :
    relocate place (block statements opensScope offset) =
      block (statements.map (relocate place)) opensScope (place offset) := by
  rw [block, relocate_node, block]
  rfl

theorem kind_relocate (tree : Tree) : (tree.relocate place).kind = tree.kind := by
  cases tree
  rfl

theorem text_relocate (tree : Tree) : (tree.relocate place).text = tree.text := by
  cases tree
  rfl

theorem opensScope_relocate (tree : Tree) :
    (tree.relocate place).opensScope = tree.opensScope := by
  cases tree
  rfl

theorem offset_relocate (tree : Tree) : (tree.relocate place).offset = place tree.offset := by
  cases tree
  rfl

theorem children_relocate (tree : Tree) :
    (tree.relocate place).children = tree.children.map (relocate place) := by
  cases tree
  rw [relocate_node]
  rfl

mutual

/-- A tree whose tokens stay where they are is the same tree. -/
theorem relocate_id : (tree : Tree) → relocate id tree = tree
  | node token children => by rw [relocate, relocateAll_id children]; rfl

theorem relocateAll_id : (trees : List Tree) → relocateAll id trees = trees
  | [] => rfl
  | tree :: trees => by rw [relocateAll, relocate_id tree, relocateAll_id trees]

end

/-! ## Equality up to offsets -/

mutual

/-- **Equality up to offsets.** Two trees agree if they are equal once all offsets are zero. -/
theorem same_iff : (first second : Tree) →
    (same first second = true ↔ relocate (fun _ => 0) first = relocate (fun _ => 0) second)
  | node ⟨kind, text, offset, opensScope⟩ children,
    node ⟨kind', text', offset', opensScope'⟩ children' => by
    have below := sameAll_iff children children'
    simp only [same, relocate, Token.relocate, Bool.and_eq_true, beq_iff_eq, below,
      node.injEq, Token.mk.injEq, true_and, and_assoc]

theorem sameAll_iff : (firsts seconds : List Tree) →
    (sameAll firsts seconds = true ↔
      relocateAll (fun _ => 0) firsts = relocateAll (fun _ => 0) seconds)
  | [], [] => by simp [sameAll]
  | [], _ :: _ => by simp [sameAll, relocateAll]
  | _ :: _, [] => by simp [sameAll, relocateAll]
  | first :: firsts, second :: seconds => by
    rw [sameAll, Bool.and_eq_true, same_iff first second, sameAll_iff firsts seconds,
      relocateAll, relocateAll, List.cons.injEq]

end

end Tree

/-! ## Derivations -/

/-- A phrase is a phrase at any other place. -/
theorem Grammar.Derives.relocate {phrase : Phrase} {start rest : List Token} {trees : List Tree}
    (derived : Derives phrase start trees rest) :
    Derives phrase (start.map (Token.relocate place)) (trees.map (Tree.relocate place))
      (rest.map (Token.relocate place)) := by
  induction derived with
  | noStatement rest => exact .noStatement _
  | nextStatement _ _ ih ihs => exact .nextStatement ih ihs
  | conditional isWord isOpening _ isClosing _ ih ihPositive =>
      simp only [List.map_cons, List.map_nil, Tree.relocate_node]
      exact .conditional isWord isOpening ih isClosing ihPositive
  | alternative isWord isOpening _ isClosing _ isElse _ ih ihPositive ihNegative =>
      simp only [List.map_cons, List.map_nil, Tree.relocate_node]
      exact .alternative isWord isOpening ih isClosing ihPositive isElse ihNegative
  | loop isWord isOpening _ isClosing _ ih ihBody =>
      simp only [List.map_cons, List.map_nil, Tree.relocate_node]
      exact .loop isWord isOpening ih isClosing ihBody
  | nullaryDefinition isWord isName isOpening isClosing _ ih =>
      simp only [List.map_cons, List.map_nil, Tree.relocate_node, Tree.relocate_leaf]
      exact .nullaryDefinition isWord isName isOpening isClosing ih
  | definition isWord isName isOpening _ isClosing _ ihParameters ih =>
      simp only [List.map_cons, List.map_nil, List.map_append, Tree.relocate_node,
        Tree.relocate_leaf]
      exact .definition isWord isName isOpening ihParameters isClosing ih
  | scope _ ih => exact .scope ih
  | assignment isName isSign _ ih =>
      simp only [List.map_cons, List.map_nil, Tree.relocate_node, Tree.relocate_leaf]
      exact .assignment isName isSign ih
  | evaluation _ ih => exact .evaluation ih
  | block isOpening _ isClosing ih =>
      simp only [List.map_cons, List.map_nil, Tree.relocate_block]
      exact .block isOpening ih isClosing
  | tighter _ ih => exact .tighter ih
  | operation _ isOperator joins _ ih ihRight =>
      simp only [List.map_cons, List.map_nil, Tree.relocate_node]
      exact .operation ih isOperator joins ihRight
  | single _ ih => exact .single ih
  | literal isLiteral =>
      simp only [List.map_cons, List.map_nil, Tree.relocate_leaf]
      exact .literal isLiteral
  | @name token rest isName alone =>
      simp only [List.map_cons, List.map_nil, Tree.relocate_leaf]
      refine .name isName fun next member => ?_
      rw [List.head?_map, Option.mem_def, Option.map_eq_some_iff] at member
      obtain ⟨following, member, rfl⟩ := member
      exact alone following member
  | nullaryCall isName isOpening isClosing =>
      simp only [List.map_cons, List.map_nil, Tree.relocate_node]
      exact .nullaryCall isName isOpening isClosing
  | call isName isOpening _ isClosing ih =>
      simp only [List.map_cons, List.map_nil, Tree.relocate_node]
      exact .call isName isOpening ih isClosing
  | group isOpening _ isClosing ih => exact .group isOpening ih isClosing
  | lastArgument _ ih => exact .lastArgument ih
  | nextArgument _ isComma _ ih ihs => exact .nextArgument ih isComma ihs
  | lastParameter isName =>
      simp only [List.map_cons, List.map_nil, Tree.relocate_leaf]
      exact .lastParameter isName
  | nextParameter isName isComma _ ih =>
      simp only [List.map_cons, Tree.relocate_leaf]
      exact .nextParameter isName isComma ih

/-! ## The state of a parser -/

/-- The position in the moved list. -/
def Cursor.relocate (cursor : Cursor) : Cursor :=
  ⟨cursor.current.relocate place, cursor.following.map (Token.relocate place)⟩

theorem Cursor.next_relocate (cursor : Cursor) :
    (cursor.relocate place).next = cursor.next.relocate place := by
  obtain ⟨current, following⟩ := cursor
  cases following <;> rfl

theorem Cursor.advance_relocate (cursor : Cursor) :
    (cursor.relocate place).advance = cursor.advance.relocate place := by
  have kind : (cursor.relocate place).current.kind = cursor.current.kind := rfl
  unfold advance
  rw [kind]
  split
  · rfl
  · obtain ⟨current, following⟩ := cursor
    cases following <;> rfl

theorem Cursor.remaining_relocate (cursor : Cursor) :
    (cursor.relocate place).remaining = cursor.remaining := by
  simp [remaining, toList, relocate]

theorem Cursor.ofTokens?_relocate (tokens : List Token) :
    ofTokens? (tokens.map (Token.relocate place)) = (ofTokens? tokens).map (relocate place) := by
  cases tokens with
  | nil => rfl
  | cons first rest =>
      have last : (rest.map (Token.relocate place)).getLastD (first.relocate place) =
          (rest.getLastD first).relocate place := by
        simp only [List.getLastD_eq_getLast?, List.getLast?_map]
        cases rest.getLast? <;> rfl
      simp only [List.map_cons, ofTokens?, last, Token.relocate_kind]
      split <;> rfl

namespace Parser

def Defect.relocate : Defect → Defect
  | .underflow operator => .underflow (operator.relocate place)
  | defect => defect

/-- The failure of the moved list. -/
def Failure.relocate : Failure → Failure
  | .rejected fault token => .rejected fault (token.relocate place)
  | .tooDeep token => .tooDeep (token.relocate place)
  | .broken defect => .broken (defect.relocate place)

theorem Failure.relocate_id (failure : Failure) : failure.relocate id = failure := by
  match failure with
  | .rejected _ _ | .tooDeep _ | .broken .missingEnd | .broken (.unknownOperator _)
  | .broken (.underflow _) | .broken .stalled => rfl

def PostfixItem.relocate : PostfixItem → PostfixItem
  | .operand tree => .operand (tree.relocate place)
  | .operator token => .operator (token.relocate place)

def Waiting.relocate (top : Waiting) : Waiting :=
  ⟨top.token.relocate place, top.level⟩

/-- The state of the sorting of the moved list. -/
def Yard.relocate (yard : Yard) : Yard :=
  ⟨yard.output.map (PostfixItem.relocate place), yard.waiting.map (Waiting.relocate place),
    yard.wantsOperand⟩

theorem Yard.release_relocate (level : Nat) (output : List PostfixItem) (waiting : List Waiting) :
    release level (output.map (PostfixItem.relocate place))
        (waiting.map (Waiting.relocate place)) =
      ((release level output waiting).1.map (PostfixItem.relocate place),
        (release level output waiting).2.map (Waiting.relocate place)) := by
  induction waiting generalizing output with
  | nil => rfl
  | cons top waiting ih =>
      rw [List.map_cons, release, release]
      by_cases tight : level ≤ top.level
      · rw [if_pos tight, if_pos (show level ≤ (top.relocate place).level from tight)]
        exact ih (.operator top.token :: output)
      · rw [if_neg tight, if_neg (show ¬level ≤ (top.relocate place).level from tight)]
        rfl

theorem Yard.operator_relocate (yard : Yard) (token : Token) (level : Nat) :
    (yard.relocate place).operator (token.relocate place) level =
      (yard.operator token level).relocate place := by
  simp only [operator, relocate, release_relocate]
  rfl

theorem Yard.postfixItems_relocate (yard : Yard) :
    (yard.relocate place).postfixItems =
      yard.postfixItems.map (PostfixItem.relocate place) := by
  simp [postfixItems, relocate, Function.comp_def, PostfixItem.relocate, Waiting.relocate]

theorem foldOnto_relocate (stack : List Tree) (items : List PostfixItem) :
    foldOnto (stack.map (Tree.relocate place)) (items.map (PostfixItem.relocate place)) =
      ((foldOnto stack items).map (List.map (Tree.relocate place))).mapError
        (Defect.relocate place) := by
  induction items generalizing stack with
  | nil => rfl
  | cons item items ih =>
      cases item with
      | operand tree => exact ih (tree :: stack)
      | operator token =>
          match stack with
          | [] => rfl
          | [_] => rfl
          | right :: left :: stack =>
              have folded := ih (.node token [left, right] :: stack)
              rw [List.map_cons, Tree.relocate_node] at folded
              exact folded

/-- Folding does not depend on offsets. -/
theorem foldPostfix_relocate (items : List PostfixItem) (start : Token) :
    foldPostfix (items.map (PostfixItem.relocate place)) (start.relocate place) =
      ((foldPostfix items start).map (Tree.relocate place)).mapError
        (Failure.relocate place) := by
  have folded := foldOnto_relocate place [] items
  rw [List.map_nil] at folded
  unfold foldPostfix
  rw [folded]
  match foldOnto [] items with
  | .error defect => rfl
  | .ok [] => rfl
  | .ok [tree] => rfl
  | .ok (_ :: _ :: _) => rfl

end Parser

end BraceLang
