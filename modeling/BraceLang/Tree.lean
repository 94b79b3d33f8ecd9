import BraceLang.Token

/-!
# Syntax trees

A tree is a token with an ordered list of children. Nothing ties the number of children to the kind
of the token: the parser only builds trees of the right shape, and the evaluator has an answer for
all others.

`Tree.same` compares two trees up to offsets. Functions over trees come in pairs, one for a tree
and one for a list of children.
-/

set_option autoImplicit false

namespace BraceLang

/-- A token with its children. -/
inductive Tree where
  | node (token : Token) (children : List Tree)
  deriving Repr, Inhabited

namespace Tree

/-! ## Decidable equality -/

mutual

/-- Decides whether two trees are equal, offsets included. -/
def decideEq : (first second : Tree) → Decidable (first = second)
  | node token children, node token' children' =>
    match decEq token token', decideEqAll children children' with
    | isTrue tokens, isTrue trees => isTrue (by rw [tokens, trees])
    | isFalse different, _ => isFalse fun same => different (by cases same; rfl)
    | isTrue _, isFalse different => isFalse fun same => different (by cases same; rfl)

/-- Decides whether two lists of trees are equal. -/
def decideEqAll : (firsts seconds : List Tree) → Decidable (firsts = seconds)
  | [], [] => isTrue rfl
  | [], _ :: _ => isFalse nofun
  | _ :: _, [] => isFalse nofun
  | first :: firsts, second :: seconds =>
    match decideEq first second, decideEqAll firsts seconds with
    | isTrue heads, isTrue tails => isTrue (by rw [heads, tails])
    | isFalse different, _ => isFalse fun same => different (by cases same; rfl)
    | isTrue _, isFalse different => isFalse fun same => different (by cases same; rfl)

end

instance : DecidableEq Tree :=
  decideEq

/-! ## Parts -/

/-- The token at the root. -/
def token : Tree → Token
  | node token _ => token

/-- The children of the root, in order. -/
def children : Tree → List Tree
  | node _ children => children

/-- The kind of the root. -/
def kind (tree : Tree) : Kind :=
  tree.token.kind

/-- The text of the root. -/
def text (tree : Tree) : String :=
  tree.token.text

/-- The offset of the root. -/
def offset (tree : Tree) : Int :=
  tree.token.offset

/-- Whether the root opens a scope of its own when it is a block. -/
def opensScope (tree : Tree) : Bool :=
  tree.token.opensScope

/-! ## Building -/

/-- A tree without children. -/
def leaf (token : Token) : Tree :=
  node token []

/-- A block of statements. -/
def block (statements : List Tree) (opensScope : Bool) (offset : Int) : Tree :=
  node ⟨.block, "", offset, opensScope⟩ statements

/-! ## Equality up to offsets -/

mutual

/-- Whether two trees agree in kinds, texts, scope flags and children. -/
def same : Tree → Tree → Bool
  | node first firsts, node second seconds =>
    first.kind == second.kind && first.text == second.text
      && first.opensScope == second.opensScope && sameAll firsts seconds

/-- Whether two lists of trees agree one by one. -/
def sameAll : List Tree → List Tree → Bool
  | [], [] => true
  | first :: firsts, second :: seconds => same first second && sameAll firsts seconds
  | _, _ => false

end

/-! ## Walking -/

mutual

/-- The tree and all trees below it, each before its children. -/
def preorder : Tree → List Tree
  | node token children => node token children :: preorderAll children

/-- All trees of a list and below them, in order. -/
def preorderAll : List Tree → List Tree
  | [] => []
  | tree :: trees => preorder tree ++ preorderAll trees

end

theorem mem_preorderAll {tree : Tree} {trees : List Tree} :
    tree ∈ preorderAll trees ↔ ∃ root ∈ trees, tree ∈ root.preorder := by
  induction trees with
  | nil => simp [preorderAll]
  | cons first trees ih => simp [preorderAll, ih]

theorem mem_preorder_self (tree : Tree) : tree ∈ tree.preorder := by
  cases tree
  exact List.mem_cons_self

/-- The trees of a list are among those that a walk through it meets. -/
theorem mem_preorderAll_of_mem {tree : Tree} {trees : List Tree} (member : tree ∈ trees) :
    tree ∈ preorderAll trees :=
  mem_preorderAll.mpr ⟨tree, member, mem_preorder_self tree⟩

mutual

/-- A walk that meets a tree meets its children. -/
theorem mem_preorder_of_child {tree child : Tree} (isChild : child ∈ tree.children) :
    (root : Tree) → tree ∈ root.preorder → child ∈ root.preorder
  | node _ children, member => by
    refine List.mem_cons_of_mem _ ?_
    rcases List.mem_cons.mp member with rfl | below
    · exact mem_preorderAll_of_mem isChild
    · exact mem_preorderAll_of_child isChild children below

theorem mem_preorderAll_of_child {tree child : Tree} (isChild : child ∈ tree.children) :
    (roots : List Tree) → tree ∈ preorderAll roots → child ∈ preorderAll roots
  | root :: roots, member => by
    rcases List.mem_append.mp member with here | later
    · exact List.mem_append_left _ (mem_preorder_of_child isChild root here)
    · exact List.mem_append_right _ (mem_preorderAll_of_child isChild roots later)

end

mutual

/-- The number of nodes on the longest way down a tree. -/
def height : Tree → Nat
  | node _ children => heightAll children + 1

/-- The height of the highest tree of a list. -/
def heightAll : List Tree → Nat
  | [] => 0
  | tree :: trees => max (height tree) (heightAll trees)

end

/-- How many nodes of a kind a tree has. -/
def count (kind : Kind) (tree : Tree) : Nat :=
  (tree.preorder.filter fun below => below.kind == kind).length

/-- The kinds that occur in a tree with their numbers, in the order of `Kind.all`. -/
def census (tree : Tree) : List (Kind × Nat) :=
  (Kind.all.map fun kind => (kind, tree.count kind)).filter fun entry => entry.2 != 0

end Tree

end BraceLang
