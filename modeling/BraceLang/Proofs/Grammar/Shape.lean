import BraceLang.Proofs.Grammar.Derivation

/-!
# The shape of parsed trees

The trees of the grammar have as many children as their kinds ask for, each of them in its place:
expressions below expressions, blocks as branches and bodies, names as parameters. `Shaped` is this
property of a tree. It says nothing of texts, apart from operators being operators; what else is to
hold of the tokens that a tree is made of is a parameter.

Trees of a phrase are shaped (`Derives.shaped`), and so is the tree of a program
(`Program.shaped`). What holds of valid tokens, and of the labels of calls and blocks, holds all
over a shaped tree (`Shaped.everywhere`).
-/

set_option autoImplicit false

namespace BraceLang

/-- A tree all of whose tokens have a property. -/
inductive Tree.Everywhere (property : Token → Prop) : Tree → Prop where
  | node {token : Token} {children : List Tree} :
      property token → (∀ child ∈ children, Everywhere property child) →
        Everywhere property (.node token children)

theorem Tree.everywhere_leaf {property : Token → Prop} {token : Token} (here : property token) :
    (leaf token).Everywhere property :=
  .node here fun _ => nofun

namespace Grammar

open List (forall_mem_cons forall_mem_singleton)

/-- The places at which trees stand. -/
inductive Role where
  | expression
  | statement
  | block (opensScope : Bool)
  deriving DecidableEq, Repr

/-- A tree of the grammar for a place, made of tokens with a property. -/
inductive Shaped (valid : Token → Prop) : Role → Tree → Prop where
  | literal {token : Token} :
      token.kind = .numeral ∨ token.kind = .string → valid token →
        Shaped valid .expression (.leaf token)
  | name {token : Token} :
      token.kind = .identifier → valid token → Shaped valid .expression (.leaf token)
  | call {name : Token} {arguments : List Tree} :
      name.kind = .identifier → valid name →
        (∀ argument ∈ arguments, Shaped valid .expression argument) →
          Shaped valid .expression (.node ⟨.call, name.text, name.offset, false⟩ arguments)
  | operation {sign : Token} {operator : Operator} {left right : Tree} :
      sign.kind = .operator → valid sign → Operator.ofText? sign.text = some operator →
        Shaped valid .expression left → Shaped valid .expression right →
          Shaped valid .expression (.node sign [left, right])
  | evaluation {tree : Tree} : Shaped valid .expression tree → Shaped valid .statement tree
  | assignment {name sign : Token} {value : Tree} :
      name.kind = .identifier → valid name → sign.kind = .assign → valid sign →
        Shaped valid .expression value → Shaped valid .statement (.node sign [.leaf name, value])
  | conditional {word : Token} {condition positive : Tree} :
      word.kind = .ifWord → valid word → Shaped valid .expression condition →
        Shaped valid (.block true) positive →
          Shaped valid .statement (.node word [condition, positive])
  | alternative {word : Token} {condition positive negative : Tree} :
      word.kind = .ifWord → valid word → Shaped valid .expression condition →
        Shaped valid (.block true) positive → Shaped valid (.block true) negative →
          Shaped valid .statement (.node word [condition, positive, negative])
  | loop {word : Token} {condition body : Tree} :
      word.kind = .whileWord → valid word → Shaped valid .expression condition →
        Shaped valid (.block true) body → Shaped valid .statement (.node word [condition, body])
  | definition {word name : Token} {parameters : List Token} {body : Tree} :
      word.kind = .fnWord → valid word → name.kind = .identifier → valid name →
        (∀ parameter ∈ parameters, parameter.kind = .identifier ∧ valid parameter) →
          Shaped valid (.block false) body →
            Shaped valid .statement
              (.node word (.leaf name :: parameters.map Tree.leaf ++ [body]))
  | scope {tree : Tree} : Shaped valid (.block true) tree → Shaped valid .statement tree
  | block {statements : List Tree} {opensScope : Bool} {offset : Int} :
      (∀ statement ∈ statements, Shaped valid .statement statement) →
        Shaped valid (.block opensScope) (.block statements opensScope offset)

/-- A property of all tokens that a tree is made of holds in the whole tree, if the labels of calls
and blocks have it too. -/
theorem Shaped.everywhere {valid property : Token → Prop} {role : Role} {root : Tree}
    (shaped : Shaped valid role root)
    (read : ∀ token, valid token → token.kind ≠ .block → property token)
    (called : ∀ name, valid name → property ⟨.call, name.text, name.offset, false⟩)
    (grouped : ∀ offset opensScope, property ⟨.block, "", offset, opensScope⟩) :
    root.Everywhere property := by
  have ofKind {token : Token} {kind : Kind} (isKind : token.kind = kind) (other : kind ≠ .block)
      (isValid : valid token) : property token :=
    read token isValid fun isBlock => other (isKind.symm.trans isBlock)
  induction shaped with
  | literal isLiteral isValid =>
      refine Tree.everywhere_leaf (read _ isValid fun isBlock => ?_)
      rw [isBlock] at isLiteral
      exact isLiteral.elim nofun nofun
  | name isName isValid => exact Tree.everywhere_leaf (ofKind isName nofun isValid)
  | call _ isValid _ ih => exact .node (called _ isValid) ih
  | operation isSign isValid _ _ _ left right =>
      exact .node (ofKind isSign nofun isValid) (by simp [left, right])
  | evaluation _ ih | scope _ ih => exact ih
  | assignment isName validName isSign isValid _ value =>
      have name := Tree.everywhere_leaf (ofKind isName nofun validName)
      exact .node (ofKind isSign nofun isValid) (by simp [name, value])
  | conditional isWord isValid _ _ condition positive =>
      exact .node (ofKind isWord nofun isValid) (by simp [condition, positive])
  | alternative isWord isValid _ _ _ condition positive negative =>
      exact .node (ofKind isWord nofun isValid) (by simp [condition, positive, negative])
  | loop isWord isValid _ _ condition body =>
      exact .node (ofKind isWord nofun isValid) (by simp [condition, body])
  | definition isWord isValid isName validName areNames _ body =>
      have name := Tree.everywhere_leaf (ofKind isName nofun validName)
      have parameters : ∀ tree ∈ List.map Tree.leaf _, tree.Everywhere property :=
        List.forall_mem_map.mpr fun parameter member =>
          Tree.everywhere_leaf
            (ofKind (areNames parameter member).1 nofun (areNames parameter member).2)
      refine .node (ofKind isWord nofun isValid) ?_
      rw [List.forall_mem_append, forall_mem_cons, forall_mem_singleton]
      exact ⟨⟨name, parameters⟩, body⟩
  | block _ ih => exact .node (grouped _ _) ih

/-- The trees of a phrase have the shape of the phrase. -/
def Fits (valid : Token → Prop) : Phrase → List Tree → Prop
  | .statements, trees | .statement, trees => ∀ tree ∈ trees, Shaped valid .statement tree
  | .block opensScope, trees => ∀ tree ∈ trees, Shaped valid (.block opensScope) tree
  | .terms _, trees | .operand, trees | .arguments, trees =>
    ∀ tree ∈ trees, Shaped valid .expression tree
  | .parameters, trees =>
    ∃ names : List Token, trees = names.map Tree.leaf ∧
      ∀ name ∈ names, name.kind = .identifier ∧ valid name

/-- What holds of all tokens holds of those after a phrase. -/
theorem Derives.forall_rest {valid : Token → Prop} {phrase : Phrase} {start rest : List Token}
    {trees : List Tree} (derived : Derives phrase start trees rest)
    (all : ∀ token ∈ start, valid token) : ∀ token ∈ rest, valid token := by
  induction derived <;> simp_all

/-- **Trees of the grammar are shaped.** -/
theorem Derives.shaped {valid : Token → Prop} {phrase : Phrase} {start rest : List Token}
    {trees : List Tree} (derived : Derives phrase start trees rest)
    (all : ∀ token ∈ start, valid token) : Fits valid phrase trees := by
  induction derived with
  | noStatement rest => exact fun _ => nofun
  | nextStatement first _ ih ihs =>
      have statement := forall_mem_singleton.mp (ih all)
      exact forall_mem_cons.mpr ⟨statement, ihs (first.forall_rest all)⟩
  | conditional isWord _ condition _ _ ih ihPositive =>
      obtain ⟨validWord, all⟩ := forall_mem_cons.mp all
      have later := condition.forall_rest (forall_mem_cons.mp all).2
      have question := forall_mem_singleton.mp (ih (forall_mem_cons.mp all).2)
      have positive := forall_mem_singleton.mp (ihPositive (forall_mem_cons.mp later).2)
      exact forall_mem_singleton.mpr (.conditional isWord validWord question positive)
  | alternative isWord _ condition _ branch _ _ ih ihPositive ihNegative =>
      obtain ⟨validWord, all⟩ := forall_mem_cons.mp all
      have later := condition.forall_rest (forall_mem_cons.mp all).2
      have latest := branch.forall_rest (forall_mem_cons.mp later).2
      have question := forall_mem_singleton.mp (ih (forall_mem_cons.mp all).2)
      have positive := forall_mem_singleton.mp (ihPositive (forall_mem_cons.mp later).2)
      have negative := forall_mem_singleton.mp (ihNegative (forall_mem_cons.mp latest).2)
      exact forall_mem_singleton.mpr
        (.alternative isWord validWord question positive negative)
  | loop isWord _ condition _ _ ih ihBody =>
      obtain ⟨validWord, all⟩ := forall_mem_cons.mp all
      have later := condition.forall_rest (forall_mem_cons.mp all).2
      have question := forall_mem_singleton.mp (ih (forall_mem_cons.mp all).2)
      have body := forall_mem_singleton.mp (ihBody (forall_mem_cons.mp later).2)
      exact forall_mem_singleton.mpr (.loop isWord validWord question body)
  | nullaryDefinition isWord isName _ _ _ ih =>
      simp only [forall_mem_cons] at all
      obtain ⟨validWord, validName, -, -, all⟩ := all
      have body := forall_mem_singleton.mp (ih all)
      exact forall_mem_singleton.mpr
        (@Shaped.definition _ _ _ [] _ isWord validWord isName validName (fun _ => nofun) body)
  | definition isWord isName _ parameters _ _ ihParameters ih =>
      simp only [forall_mem_cons] at all
      obtain ⟨validWord, validName, -, all⟩ := all
      obtain ⟨names, rfl, areNames⟩ := ihParameters all
      have later := parameters.forall_rest all
      have body := forall_mem_singleton.mp (ih (forall_mem_cons.mp later).2)
      exact forall_mem_singleton.mpr
        (.definition isWord validWord isName validName areNames body)
  | scope _ ih => exact forall_mem_singleton.mpr (.scope (forall_mem_singleton.mp (ih all)))
  | assignment isName isSign _ ih =>
      simp only [forall_mem_cons] at all
      obtain ⟨validName, validSign, all⟩ := all
      have value := forall_mem_singleton.mp (ih all)
      exact forall_mem_singleton.mpr (.assignment isName validName isSign validSign value)
  | evaluation _ ih =>
      exact forall_mem_singleton.mpr (.evaluation (forall_mem_singleton.mp (ih all)))
  | block _ _ _ ih =>
      exact forall_mem_singleton.mpr (.block (ih (forall_mem_cons.mp all).2))
  | tighter _ ih => exact ih all
  | operation left isOperator joins _ ihLeft ihRight =>
      obtain ⟨operator, known, -⟩ := mem_joining_iff.mp joins
      obtain ⟨validSign, later⟩ := forall_mem_cons.mp (left.forall_rest all)
      have first := forall_mem_singleton.mp (ihLeft all)
      have second := forall_mem_singleton.mp (ihRight later)
      exact forall_mem_singleton.mpr (.operation isOperator validSign known first second)
  | single _ ih => exact ih all
  | literal isLiteral =>
      exact forall_mem_singleton.mpr (.literal isLiteral (all _ List.mem_cons_self))
  | name isName _ =>
      exact forall_mem_singleton.mpr (.name isName (all _ List.mem_cons_self))
  | nullaryCall isName _ _ =>
      exact forall_mem_singleton.mpr
        (.call isName (all _ List.mem_cons_self) (fun _ => nofun))
  | call isName _ _ _ ih =>
      simp only [forall_mem_cons] at all
      obtain ⟨validName, -, all⟩ := all
      exact forall_mem_singleton.mpr (.call isName validName (ih all))
  | group _ _ _ ih => exact ih (forall_mem_cons.mp all).2
  | lastArgument _ ih => exact ih all
  | nextArgument first _ _ ih ihs =>
      have argument := forall_mem_singleton.mp (ih all)
      have later := first.forall_rest all
      exact forall_mem_cons.mpr ⟨argument, ihs (forall_mem_cons.mp later).2⟩
  | @lastParameter token _ isName =>
      exact ⟨[token], rfl, forall_mem_singleton.mpr ⟨isName, all _ List.mem_cons_self⟩⟩
  | @nextParameter token _ _ _ _ isName _ _ ih =>
      simp only [forall_mem_cons] at all
      obtain ⟨validName, -, all⟩ := all
      obtain ⟨names, rfl, areNames⟩ := ih all
      exact ⟨token :: names, rfl, forall_mem_cons.mpr ⟨⟨isName, validName⟩, areNames⟩⟩

/-- The tree of a program is a block of statements. -/
theorem Program.shaped {valid : Token → Prop} {tokens : List Token} {root : Tree}
    (isProgram : Program tokens root) (all : ∀ token ∈ tokens, valid token) :
    Shaped valid (.block true) root := by
  obtain ⟨trees, derived, rfl⟩ := isProgram
  exact .block (derived.shaped all)

end Grammar

end BraceLang
