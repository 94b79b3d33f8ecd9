import BraceLang.Tree

/-!
# Outlines

Two written forms of a tree. The outline has one line per node, indented by two spaces per level,
and shows the label of the node but not its offset. The nested form is one line and shows every
token in full.
-/

set_option autoImplicit false

namespace BraceLang

namespace Tree

/-- How a node is named in an outline: a block by its scope flag, any other node by its kind and,
unless it is empty, its text. -/
def label (token : Token) : String :=
  if token.kind = .block then "BLOCK scoped=" ++ flagWord token.opensScope
  else if token.text = "" then token.kind.name
  else token.kind.name ++ " " ++ Text.quote token.text

/-- The indentation of a line of the outline. -/
def indent (level : Nat) : String :=
  String.ofList (List.replicate (2 * level) ' ')

mutual

/-- The lines of the outline of a tree that stands at a level. -/
def outlineLines (level : Nat) : Tree → List String
  | node token children => (indent level ++ label token) :: outlineLinesAll (level + 1) children

/-- The lines of the outlines of the trees of a list. -/
def outlineLinesAll (level : Nat) : List Tree → List String
  | [] => []
  | tree :: trees => outlineLines level tree ++ outlineLinesAll level trees

end

/-- The outline of a tree; every line is closed by a line feed. -/
def outline (tree : Tree) : String :=
  String.join ((tree.outlineLines 0).map (· ++ "\n"))

/-- How many levels a tree may have to be written out as an outline. -/
def outlineLimit : Nat := 1000

/-- The outline of a tree that has no more levels than the limit; others are not written out. -/
def outline? (tree : Tree) : Option String :=
  if tree.height ≤ outlineLimit then some tree.outline else none

mutual

/-- The nested one-line form of a tree. -/
def nested : Tree → String
  | node token children =>
    "Node(" ++ token.listing ++ ", [" ++ ", ".intercalate (nestedAll children) ++ "])"

/-- The nested forms of the trees of a list. -/
def nestedAll : List Tree → List String
  | [] => []
  | tree :: trees => nested tree :: nestedAll trees

end

end Tree

end BraceLang
