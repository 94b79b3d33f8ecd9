import BraceLang.Proofs.Grammar.Nesting
import BraceLang.Proofs.Lexing.Layout
import BraceLang.Tree

/-!
# The canonical text of a tree

Every tree that the parser can build has a canonical text, in which nothing is left to the binding
strength of operators. An operation stands in parentheses, and where a statement is an expression or
assigns one, so does the whole expression. All else is written as usual, with one blank between
statements and around operators.

The text is given as a sequence of items (`items`, `program`), so it is clear what its lexemes are.
They do not run into each other, because two runs always have a blank or a bracket between them: a
sequence is laid out properly if it is put together from such sequences at delimiters
(`Laid.delimited`, `Laid.before`).
-/

set_option autoImplicit false

namespace BraceLang

open Lexer Grammar

/-! ## Delimiters -/

namespace Lexer

/-- Whether an item can stand next to any other: a blank, a string or punctuation. -/
def Item.isDelimiter : Item → Bool
  | .blank _ => true
  | .lexeme kind _ => (Form.ofKind? kind).isNone

theorem Item.not_continued {item : Item} (delimiter : item.isDelimiter = true) (c : Char) :
    item.continuedBy c = false := by
  cases item with
  | blank => rfl
  | lexeme kind text =>
      have none : Form.ofKind? kind = none := Option.isNone_iff_eq_none.mp delimiter
      rw [continuedBy, none]
      rfl

/-- A delimiter does not begin with a character of a run. -/
theorem Item.Valid.outside {item : Item} (valid : item.Valid)
    (delimiter : item.isDelimiter = true) (rest : List Char) :
    ∀ c ∈ (item.written ++ rest).head?, isRunChar c = false := by
  intro c first
  cases item with
  | blank d =>
      cases first
      exact isRunChar_of_isBlank valid
  | lexeme kind text =>
      rcases Spelled.mark valid (Option.isNone_iff_eq_none.mp delimiter) with
        ⟨rfl, -⟩ | ⟨notString, d, found, rfl⟩
      · cases first
        decide
      · rw [written, if_neg notString, Char.toString, String.toList_singleton] at first
        cases first
        exact (isRunChar_of_ofPunctuation? found).1

namespace Laid

theorem single {item : Item} (valid : item.Valid) : Laid [item] :=
  .cons valid nofun .nil

/-- Anything can follow a delimiter. -/
theorem delimited {item : Item} {items : List Item} (valid : item.Valid)
    (delimiter : item.isDelimiter = true) (laid : Laid items) : Laid (item :: items) :=
  .cons valid (fun c _ => Item.not_continued delimiter c) laid

/-- A sequence can be followed by one that does not begin with a character of a run. -/
theorem append {first second : List Item} (laid : Laid first) (also : Laid second)
    (outside : ∀ c ∈ (written second).head?, isRunChar c = false) : Laid (first ++ second) := by
  induction laid with
  | nil => exact also
  | @cons item items valid apart _ ih =>
      rw [List.cons_append]
      refine .cons valid (fun c next => ?_) ih
      rw [written_append, List.head?_append] at next
      cases head : (written items).head? with
      | some d =>
          rw [head] at next
          cases next
          exact apart c head
      | none =>
          rw [head] at next
          exact valid.not_continued (outside c next)

/-- A sequence can be followed by a delimiter. -/
theorem before {first rest : List Item} {item : Item} (laid : Laid first)
    (delimiter : item.isDelimiter = true) (also : Laid (item :: rest)) :
    Laid (first ++ item :: rest) := by
  cases also with
  | cons valid apart later =>
      exact laid.append (.cons valid apart later) (valid.outside delimiter _)

end Laid

end Lexer

namespace Printing

/-! ## Items of the text -/

/-- The item that is read as a token. -/
def item (token : Token) : Item :=
  .lexeme token.kind token.text

/-- One blank. -/
def gap : Item :=
  .blank ' '

def opening : Item :=
  .lexeme .openParen "("

def closing : Item :=
  .lexeme .closeParen ")"

def comma : Item :=
  .lexeme .comma ","

/-- Items in parentheses. -/
def grouped (items : List Item) : List Item :=
  opening :: (items ++ [closing])

/-- Parts with a separator between them. -/
def joined (separator : List Item) : List (List Item) → List Item
  | [] => []
  | [part] => part
  | part :: parts => part ++ (separator ++ joined separator parts)

/-- Parts with commas between them, in parentheses. -/
def listed (parts : List (List Item)) : List Item :=
  grouped (joined [comma, gap] parts)

/-- Statements in braces. -/
def braced (statements : List (List Item)) : List Item :=
  .lexeme .openBrace "\x7b" :: gap ::
    (joined [gap] statements ++ [gap, .lexeme .closeBrace "\x7d"])

/-- The text of a tree where a statement stands: an expression is put in parentheses. -/
def asStatement (tree : Tree) (items : List Item) : List Item :=
  if tree.kind.isStatement then items else grouped items

/-- The text of a node, given those of its children. -/
def arrange (token : Token) (children : List Tree) (parts : List (List Item)) : List Item :=
  match token.kind, parts with
  | .operator, [left, right] => grouped (left ++ gap :: item token :: gap :: right)
  | .call, arguments => .lexeme .identifier token.text :: listed arguments
  | .assign, [name, value] => name ++ gap :: item token :: gap :: grouped value
  | .ifWord, [condition, positive] =>
    item token :: gap :: (grouped condition ++ gap :: positive)
  | .ifWord, [condition, positive, negative] =>
    item token :: gap :: (grouped condition ++
      gap :: (positive ++ gap :: .lexeme .elseWord "else" :: gap :: negative))
  | .whileWord, [condition, body] =>
    item token :: gap :: (grouped condition ++ gap :: body)
  | .fnWord, name :: rest =>
    item token :: gap :: (name ++ (listed rest.dropLast ++ gap :: rest.getLastD []))
  | .block, statements => braced (List.zipWith asStatement children statements)
  | _, _ => [item token]

mutual

/-- The canonical text of a tree, as items. -/
def items : Tree → List Item
  | .node token children => arrange token children (itemsAll children)

/-- The canonical texts of trees. -/
def itemsAll : List Tree → List (List Item)
  | [] => []
  | tree :: trees => items tree :: itemsAll trees

end

/-- The canonical text of a tree where a statement stands. -/
def statement (tree : Tree) : List Item :=
  asStatement tree (items tree)

/-- The canonical text of a program: its statements with a blank between them. -/
def program (root : Tree) : List Item :=
  joined [gap] (root.children.map statement)

/-- The canonical text of a program, as a text. -/
def text (root : Tree) : String :=
  String.ofList (written (program root))

theorem itemsAll_eq (trees : List Tree) : itemsAll trees = trees.map items := by
  induction trees with
  | nil => rfl
  | cons tree trees ih => rw [itemsAll, ih, List.map_cons]

theorem items_node (token : Token) (children : List Tree) :
    items (.node token children) = arrange token children (children.map items) := by
  rw [items, itemsAll_eq]

theorem zipWith_asStatement (trees : List Tree) :
    List.zipWith asStatement trees (trees.map items) = trees.map statement := by
  induction trees with
  | nil => rfl
  | cons tree trees ih => rw [List.map_cons, List.zipWith_cons_cons, ih, List.map_cons, statement]

/-! ## Nodes of each kind -/

theorem items_leaf {token : Token}
    (isLeaf : token.kind = .numeral ∨ token.kind = .string ∨ token.kind = .identifier) :
    items (.leaf token) = [item token] := by
  rw [Tree.leaf, items_node]
  rcases isLeaf with kind | kind | kind <;> simp only [arrange, kind]

theorem map_items_leaf {names : List Token} (areNames : ∀ name ∈ names, name.kind = .identifier) :
    (names.map Tree.leaf).map items = names.map fun name => [item name] := by
  rw [List.map_map]
  exact List.map_congr_left fun name member => items_leaf (.inr (.inr (areNames name member)))

theorem items_call (name : String) (offset : Int) (arguments : List Tree) :
    items (.node ⟨.call, name, offset, false⟩ arguments) =
      .lexeme .identifier name :: listed (arguments.map items) := by
  rw [items_node]
  rfl

theorem items_operation {sign : Token} (isOperator : sign.kind = .operator) (left right : Tree) :
    items (.node sign [left, right]) =
      grouped (items left ++ gap :: item sign :: gap :: items right) := by
  simp only [items_node, List.map_cons, List.map_nil, arrange, isOperator]

theorem items_assignment {sign : Token} (isSign : sign.kind = .assign) (name value : Tree) :
    items (.node sign [name, value]) =
      items name ++ gap :: item sign :: gap :: grouped (items value) := by
  simp only [items_node, List.map_cons, List.map_nil, arrange, isSign]

theorem items_guarded {word : Token} (isWord : word.kind = .ifWord ∨ word.kind = .whileWord)
    (condition body : Tree) :
    items (.node word [condition, body]) =
      item word :: gap :: (grouped (items condition) ++ gap :: items body) := by
  rcases isWord with kind | kind <;>
    simp only [items_node, List.map_cons, List.map_nil, arrange, kind]

theorem items_alternative {word : Token} (isWord : word.kind = .ifWord)
    (condition positive negative : Tree) :
    items (.node word [condition, positive, negative]) =
      item word :: gap :: (grouped (items condition) ++
        gap :: (items positive ++ gap :: .lexeme .elseWord "else" :: gap :: items negative)) := by
  simp only [items_node, List.map_cons, List.map_nil, arrange, isWord]

theorem items_definition {word : Token} (isWord : word.kind = .fnWord) (name body : Tree)
    (parameters : List Tree) :
    items (.node word (name :: parameters ++ [body])) =
      item word :: gap :: (items name ++ (listed (parameters.map items) ++ gap :: items body)) := by
  simp [items_node, arrange, isWord]

theorem items_block (statements : List Tree) (opensScope : Bool) (offset : Int) :
    items (.block statements opensScope offset) = braced (statements.map statement) := by
  rw [Tree.block, items_node, ← zipWith_asStatement]
  rfl

end Printing

end BraceLang
