import BraceLang.Tree

/-!
# The grammar as a relation

`Derives phrase start trees rest` says that the tokens of `start` before `rest` are a phrase of the
language and what trees the phrase has, in the situation that `rest` follows it. A phrase has one
tree, apart from lists of statements, of arguments and of parameters.

Expressions have three levels, each of them grouping to the left. Level three joins operands by `*`
and `/`, level two joins terms of level three by `+` and `-`, and level one, the expressions, joins
terms of level two by comparisons and connectives; level four stands for single operands. What
follows a phrase matters in one place: a name is an operand only if no parenthesis opens directly
after it.

A program is a list of statements, and its tree is one block that opens a scope (`Program`).
`Derives.kept_eq` says that the trees of a phrase hold all its literals, names, operators and
words, with their offsets and in their order.
-/

set_option autoImplicit false

namespace BraceLang

namespace Grammar

/-! ## Phrases -/

/-- The phrases of the language. -/
inductive Phrase where
  /-- Any number of statements, one after the other. -/
  | statements
  | statement
  /-- Statements in braces. -/
  | block (opensScope : Bool)
  /-- Operands joined by operators of a level and tighter ones. -/
  | terms (level : Nat)
  | operand
  /-- One or more expressions with commas between them. -/
  | arguments
  /-- One or more names with commas between them. -/
  | parameters
  deriving DecidableEq, Repr

/-- Terms of the loosest level. -/
abbrev Phrase.expression : Phrase :=
  .terms 1

/-- The operators that join terms, by the level of what they join. -/
def joining : Nat → List String
  | 1 => ["==", "!=", "&&", "||"]
  | 2 => ["+", "-"]
  | 3 => ["*", "/"]
  | _ => []

/-- The tokens of `start` before `rest` are a phrase with the given trees, if `rest` follows. -/
inductive Derives : Phrase → List Token → List Tree → List Token → Prop where
  | noStatement (rest : List Token) : Derives .statements rest [] rest
  | nextStatement {start middle rest : List Token} {tree : Tree} {trees : List Tree} :
      Derives .statement start [tree] middle → Derives .statements middle trees rest →
        Derives .statements start (tree :: trees) rest
  | conditional {word opening closing : Token} {start middle rest : List Token}
      {condition positive : Tree} :
      word.kind = .ifWord → opening.kind = .openParen →
        Derives .expression start [condition] (closing :: middle) → closing.kind = .closeParen →
          Derives (.block true) middle [positive] rest →
            Derives .statement (word :: opening :: start) [.node word [condition, positive]] rest
  | alternative {word opening closing otherwise : Token} {start middle later rest : List Token}
      {condition positive negative : Tree} :
      word.kind = .ifWord → opening.kind = .openParen →
        Derives .expression start [condition] (closing :: middle) → closing.kind = .closeParen →
          Derives (.block true) middle [positive] (otherwise :: later) →
            otherwise.kind = .elseWord → Derives (.block true) later [negative] rest →
              Derives .statement (word :: opening :: start)
                [.node word [condition, positive, negative]] rest
  | loop {word opening closing : Token} {start middle rest : List Token} {condition body : Tree} :
      word.kind = .whileWord → opening.kind = .openParen →
        Derives .expression start [condition] (closing :: middle) → closing.kind = .closeParen →
          Derives (.block true) middle [body] rest →
            Derives .statement (word :: opening :: start) [.node word [condition, body]] rest
  | nullaryDefinition {word name opening closing : Token} {start rest : List Token} {body : Tree} :
      word.kind = .fnWord → name.kind = .identifier → opening.kind = .openParen →
        closing.kind = .closeParen → Derives (.block false) start [body] rest →
          Derives .statement (word :: name :: opening :: closing :: start)
            [.node word [.leaf name, body]] rest
  | definition {word name opening closing : Token} {start middle rest : List Token}
      {parameters : List Tree} {body : Tree} :
      word.kind = .fnWord → name.kind = .identifier → opening.kind = .openParen →
        Derives .parameters start parameters (closing :: middle) → closing.kind = .closeParen →
          Derives (.block false) middle [body] rest →
            Derives .statement (word :: name :: opening :: start)
              [.node word (.leaf name :: parameters ++ [body])] rest
  | scope {start rest : List Token} {tree : Tree} :
      Derives (.block true) start [tree] rest → Derives .statement start [tree] rest
  | assignment {name sign : Token} {start rest : List Token} {value : Tree} :
      name.kind = .identifier → sign.kind = .assign → Derives .expression start [value] rest →
        Derives .statement (name :: sign :: start) [.node sign [.leaf name, value]] rest
  | evaluation {start rest : List Token} {tree : Tree} :
      Derives .expression start [tree] rest → Derives .statement start [tree] rest
  | block {opening closing : Token} {opensScope : Bool} {start rest : List Token}
      {trees : List Tree} :
      opening.kind = .openBrace → Derives .statements start trees (closing :: rest) →
        closing.kind = .closeBrace →
          Derives (.block opensScope) (opening :: start)
            [.block trees opensScope opening.offset] rest
  | tighter {level : Nat} {start rest : List Token} {tree : Tree} :
      Derives (.terms (level + 1)) start [tree] rest → Derives (.terms level) start [tree] rest
  | operation {level : Nat} {sign : Token} {start middle rest : List Token} {left right : Tree} :
      Derives (.terms level) start [left] (sign :: middle) → sign.kind = .operator →
        sign.text ∈ joining level → Derives (.terms (level + 1)) middle [right] rest →
          Derives (.terms level) start [.node sign [left, right]] rest
  | single {start rest : List Token} {tree : Tree} :
      Derives .operand start [tree] rest → Derives (.terms 4) start [tree] rest
  | literal {token : Token} {rest : List Token} :
      token.kind = .numeral ∨ token.kind = .string →
        Derives .operand (token :: rest) [.leaf token] rest
  | name {token : Token} {rest : List Token} :
      token.kind = .identifier → (∀ next ∈ rest.head?, next.kind ≠ .openParen) →
        Derives .operand (token :: rest) [.leaf token] rest
  | nullaryCall {name opening closing : Token} {rest : List Token} :
      name.kind = .identifier → opening.kind = .openParen → closing.kind = .closeParen →
        Derives .operand (name :: opening :: closing :: rest)
          [.node ⟨.call, name.text, name.offset, false⟩ []] rest
  | call {name opening closing : Token} {start rest : List Token} {trees : List Tree} :
      name.kind = .identifier → opening.kind = .openParen →
        Derives .arguments start trees (closing :: rest) → closing.kind = .closeParen →
          Derives .operand (name :: opening :: start)
            [.node ⟨.call, name.text, name.offset, false⟩ trees] rest
  | group {opening closing : Token} {start rest : List Token} {tree : Tree} :
      opening.kind = .openParen → Derives .expression start [tree] (closing :: rest) →
        closing.kind = .closeParen → Derives .operand (opening :: start) [tree] rest
  | lastArgument {start rest : List Token} {tree : Tree} :
      Derives .expression start [tree] rest → Derives .arguments start [tree] rest
  | nextArgument {comma : Token} {start middle rest : List Token} {tree : Tree}
      {trees : List Tree} :
      Derives .expression start [tree] (comma :: middle) → comma.kind = .comma →
        Derives .arguments middle trees rest → Derives .arguments start (tree :: trees) rest
  | lastParameter {token : Token} {rest : List Token} :
      token.kind = .identifier → Derives .parameters (token :: rest) [.leaf token] rest
  | nextParameter {token comma : Token} {start rest : List Token} {trees : List Tree} :
      token.kind = .identifier → comma.kind = .comma → Derives .parameters start trees rest →
        Derives .parameters (token :: comma :: start) (.leaf token :: trees) rest

/-- The token list is a program with the given tree. -/
def Program (tokens : List Token) (root : Tree) : Prop :=
  ∃ trees, Derives .statements tokens trees [] ∧ root = .block trees true 0

/-- A condition with one branch, or a loop. -/
theorem Derives.guarded {word opening closing : Token} {start middle rest : List Token}
    {condition body : Tree} (isWord : word.kind = .ifWord ∨ word.kind = .whileWord)
    (isOpening : opening.kind = .openParen)
    (asks : Derives .expression start [condition] (closing :: middle))
    (isClosing : closing.kind = .closeParen) (runs : Derives (.block true) middle [body] rest) :
    Derives .statement (word :: opening :: start) [.node word [condition, body]] rest :=
  isWord.elim (.conditional · isOpening asks isClosing runs)
    (.loop · isOpening asks isClosing runs)

/-! ## Levels of operators -/

/-- The levels of the operators are those by which the parser sorts them. -/
theorem mem_joining_iff {level : Nat} {text : String} :
    text ∈ joining level ↔
      ∃ operator, Operator.ofText? text = some operator ∧ operator.level = level := by
  refine ⟨fun member => ?_, ?_⟩
  · have all : ∀ level ∈ [1, 2, 3], ∀ text ∈ joining level,
        (Operator.ofText? text).map Operator.level = some level := by decide
    have listed : level ∈ [1, 2, 3] := by
      unfold joining at member
      split at member
      · decide
      · decide
      · decide
      · cases member
    exact Option.map_eq_some_iff.mp (all level listed text member)
  · rintro ⟨operator, known, rfl⟩
    unfold Operator.ofText? at known
    split at known <;> cases known <;> decide

theorem mem_joining {text : String} {operator : Operator}
    (known : Operator.ofText? text = some operator) : text ∈ joining operator.level :=
  mem_joining_iff.mpr ⟨operator, known, rfl⟩

/-- An operator has one level. -/
theorem eq_of_mem_joining {level other : Nat} {text : String} (joins : text ∈ joining level)
    (joins' : text ∈ joining other) : level = other := by
  obtain ⟨operator, known, rfl⟩ := mem_joining_iff.mp joins
  obtain ⟨operator', known', rfl⟩ := mem_joining_iff.mp joins'
  rw [Option.some.inj (known.symm.trans known')]

/-! ## First tokens -/

/-- Whether a token of a kind can begin a phrase that is not empty. -/
def Phrase.startsWith : Phrase → Kind → Bool
  | .statements, kind | .statement, kind =>
    kind.startsOperand || kind == .ifWord || kind == .whileWord || kind == .fnWord
      || kind == .openBrace
  | .block _, kind => kind == .openBrace
  | .terms _, kind | .operand, kind | .arguments, kind => kind.startsOperand
  | .parameters, kind => kind == .identifier

/-- A phrase other than an empty list of statements begins with one of its first tokens. -/
theorem Derives.first {phrase : Phrase} {start rest : List Token} {trees : List Tree}
    (derived : Derives phrase start trees rest) (inhabited : trees ≠ []) :
    ∃ token more, start = token :: more ∧ phrase.startsWith token.kind = true := by
  induction derived with
  | noStatement rest => exact absurd rfl inhabited
  | nextStatement _ _ ih _ => exact ih (List.cons_ne_nil _ _)
  | scope _ ih =>
      obtain ⟨token, more, rfl, starts⟩ := ih (List.cons_ne_nil _ _)
      refine ⟨token, more, rfl, ?_⟩
      simp only [Phrase.startsWith] at starts ⊢
      simp [starts]
  | evaluation _ ih =>
      obtain ⟨token, more, rfl, starts⟩ := ih (List.cons_ne_nil _ _)
      refine ⟨token, more, rfl, ?_⟩
      simp only [Phrase.startsWith] at starts ⊢
      simp [starts]
  | tighter _ ih => exact ih (List.cons_ne_nil _ _)
  | operation _ _ _ _ ih _ => exact ih (List.cons_ne_nil _ _)
  | single _ ih => exact ih (List.cons_ne_nil _ _)
  | lastArgument _ ih => exact ih (List.cons_ne_nil _ _)
  | nextArgument _ _ _ ih _ => exact ih (List.cons_ne_nil _ _)
  | literal isLiteral =>
      refine ⟨_, _, rfl, ?_⟩
      rcases isLiteral with numeral | string
      · simp [Phrase.startsWith, Kind.startsOperand, numeral]
      · simp [Phrase.startsWith, Kind.startsOperand, string]
  | _ => exact ⟨_, _, rfl, by simp [Phrase.startsWith, Kind.startsOperand, *]⟩

/-! ## What a tree keeps of its tokens -/

/-- A token as a tree keeps it: its kind, its text and its offset. -/
def lexeme (token : Token) : Kind × String × Int :=
  (token.kind, token.text, token.offset)

/-- The kinds of tokens that trees keep. Punctuation and `else` leave no node behind. -/
def isKept : Kind → Bool
  | .numeral | .string | .identifier | .operator | .assign | .ifWord | .whileWord | .fnWord => true
  | _ => false

/-- The tokens of a list that trees keep, in order. -/
def kept (tokens : List Token) : List (Kind × String × Int) :=
  (tokens.filter fun token => isKept token.kind).map lexeme

/-- The parts of a node in reading order: an operator and an equals sign stand after their first
part, a call counts as the name of its function, and a block only has its parts. -/
def arrange (token : Token) (parts : List (List (Kind × String × Int))) :
    List (Kind × String × Int) :=
  match token.kind, parts with
  | .block, _ => parts.flatten
  | .call, _ => (.identifier, token.text, token.offset) :: parts.flatten
  | .operator, first :: others => first ++ lexeme token :: others.flatten
  | .assign, first :: others => first ++ lexeme token :: others.flatten
  | _, _ => lexeme token :: parts.flatten

mutual

/-- What a tree holds, in reading order. -/
def reading : Tree → List (Kind × String × Int)
  | .node token children => arrange token (readings children)

/-- What each tree of a list holds. -/
def readings : List Tree → List (List (Kind × String × Int))
  | [] => []
  | tree :: trees => reading tree :: readings trees

end

theorem kept_cons (token : Token) (tokens : List Token) :
    kept (token :: tokens) =
      if isKept token.kind then lexeme token :: kept tokens else kept tokens := by
  simp only [kept, List.filter_cons]
  split <;> rfl

theorem readings_append (first second : List Tree) :
    readings (first ++ second) = readings first ++ readings second := by
  induction first with
  | nil => rfl
  | cons tree trees ih => simp only [List.cons_append, readings, ih]

/-- **Trees keep their tokens.** The trees of a phrase hold every literal, name, operator and word of
it, with its text and its offset and in the order in which they stand. -/
theorem Derives.kept_eq {phrase : Phrase} {start rest : List Token} {trees : List Tree}
    (derived : Derives phrase start trees rest) :
    kept start = (readings trees).flatten ++ kept rest := by
  induction derived with
  | literal isLiteral =>
      rcases isLiteral with numeral | string
      · simp [kept_cons, isKept, readings, reading, arrange, Tree.leaf, numeral]
      · simp [kept_cons, isKept, readings, reading, arrange, Tree.leaf, string]
  | _ =>
      simp_all [kept_cons, isKept, readings, readings_append, reading, arrange, lexeme, Tree.leaf,
        Tree.block]

/-- A phrase takes at least one token for each of its trees. -/
theorem Derives.length_le {phrase : Phrase} {start rest : List Token} {trees : List Tree}
    (derived : Derives phrase start trees rest) :
    rest.length + trees.length ≤ start.length := by
  induction derived with
  | noStatement rest => exact Nat.le_refl _
  | _ =>
      simp only [List.length_cons, List.length_nil] at *
      omega

end Grammar

end BraceLang
