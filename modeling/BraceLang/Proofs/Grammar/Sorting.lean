import BraceLang.Parser.Postfix
import BraceLang.Proofs.Grammar.Derivation

/-!
# Sorting operators by level

The parser reads an expression with a stack of operators that wait for their right operand, and it
builds the tree from the postfix sequence afterwards. Both directions of the comparison with the
levels of the grammar are prepared here.

Towards the grammar, `Suspended` says what the stack of waiting operators stands for: each one has a
left operand that is a term of its level, and the levels grow towards the top. Releasing operators
then builds terms (`release_derives`), so the state of the sorting always describes what has been
read (`Sorted`) and its tree is an expression (`Sorted.foldPostfix_eq`).

From the grammar, a term of a level adds to the sequence a part that folds to its tree (`Denotes`),
once the operators of its level and tighter ones are released. Releasing in two rounds is releasing
in one (`release_release`).
-/

set_option autoImplicit false

namespace BraceLang

namespace Grammar

open BraceLang.Parser

/-! ## Folding -/

/-- Folding a sequence in two parts. -/
theorem foldOnto_append (stack : List Tree) (first second : List PostfixItem) :
    foldOnto stack (first ++ second) =
      (foldOnto stack first).bind fun middle => foldOnto middle second := by
  induction first generalizing stack with
  | nil => rfl
  | cons item first ih =>
      cases item with
      | operand tree => exact ih (tree :: stack)
      | operator token =>
          match stack with
          | [] => rfl
          | [_] => rfl
          | right :: left :: stack => exact ih (.node token [left, right] :: stack)

/-- Folding nests nothing. -/
theorem foldPostfix_ne_tooDeep (items : List PostfixItem) (start token : Token) :
    foldPostfix items start ≠ .error (.tooDeep token) := by
  unfold foldPostfix
  split <;> simp

/-- The sequence so far, newest item first, folds to a stack of trees. -/
def Folds (output : List PostfixItem) (stack : List Tree) : Prop :=
  foldOnto [] output.reverse = .ok stack

theorem Folds.operand {output : List PostfixItem} {stack : List Tree} (folds : Folds output stack)
    (tree : Tree) : Folds (.operand tree :: output) (tree :: stack) := by
  unfold Folds at folds ⊢
  rw [List.reverse_cons, foldOnto_append, folds]
  rfl

theorem Folds.operator {output : List PostfixItem} {left right : Tree} {stack : List Tree}
    (folds : Folds output (right :: left :: stack)) (token : Token) :
    Folds (.operator token :: output) (.node token [left, right] :: stack) := by
  unfold Folds at folds ⊢
  rw [List.reverse_cons, foldOnto_append, folds]
  rfl

/-! ## Releasing -/

/-- An operator of the level or a tighter one moves to the sequence. -/
theorem release_cons {level : Nat} {top : Waiting} (tight : level ≤ top.level)
    (output : List PostfixItem) (waiting : List Waiting) :
    Yard.release level output (top :: waiting) =
      Yard.release level (.operator top.token :: output) waiting := by
  rw [Yard.release, if_pos tight]

/-- If the newest operator is looser than the level, all keep waiting. -/
theorem release_of_looser {level : Nat} {waiting : List Waiting}
    (looser : ∀ top ∈ waiting.head?, top.level < level) (output : List PostfixItem) :
    Yard.release level output waiting = (output, waiting) := by
  cases waiting with
  | nil => rfl
  | cons top waiting =>
      have below : ¬level ≤ top.level := Nat.not_le.mpr (looser top rfl)
      rw [Yard.release, if_neg below]

/-- What is released at a level is looser than the level. -/
theorem release_looser (level : Nat) (output : List PostfixItem) (waiting : List Waiting) :
    ∀ top ∈ (Yard.release level output waiting).2.head?, top.level < level := by
  induction waiting generalizing output with
  | nil => exact fun _ => nofun
  | cons top waiting ih =>
      by_cases tight : level ≤ top.level
      · rw [release_cons tight]
        exact ih _
      · rw [Yard.release, if_neg tight]
        intro other member
        cases member
        exact Nat.not_le.mp tight

/-- Releasing the tighter operators first changes nothing. -/
theorem release_release {low high : Nat} (order : low ≤ high) (output : List PostfixItem)
    (waiting : List Waiting) :
    Yard.release low (Yard.release high output waiting).1 (Yard.release high output waiting).2 =
      Yard.release low output waiting := by
  induction waiting generalizing output with
  | nil => rfl
  | cons top waiting ih =>
      by_cases tight : high ≤ top.level
      · rw [release_cons tight, release_cons (Nat.le_trans order tight), ih]
      · have kept : Yard.release high output (top :: waiting) = (output, top :: waiting) := by
          rw [Yard.release, if_neg tight]
        rw [kept]

/-- The whole sequence, if no operator waits after those of a level are released. -/
theorem postfixItems_eq {yard : Yard} {level : Nat} {output : List PostfixItem}
    (released : Yard.release level yard.output yard.waiting = (output, [])) :
    yard.postfixItems = output.reverse := by
  have whole (output : List PostfixItem) (waiting : List Waiting) :
      Yard.release 0 output waiting =
        ((waiting.map fun top => .operator top.token).reverse ++ output, []) := by
    induction waiting generalizing output with
    | nil => rfl
    | cons top waiting ih =>
        rw [release_cons (Nat.zero_le _), ih]
        simp
  have same := release_release (Nat.zero_le level) yard.output yard.waiting
  rw [released, whole, whole] at same
  have outputs : output = (yard.waiting.map fun top => .operator top.token).reverse ++ yard.output :=
    congrArg Prod.fst same
  rw [outputs]
  simp [Yard.postfixItems]

/-! ## From the sorting to the grammar -/

/-- A term is also a term of the looser levels. -/
theorem Derives.loosen {low high : Nat} {start rest : List Token} {tree : Tree}
    (derived : Derives (.terms high) start [tree] rest) (order : low ≤ high) :
    Derives (.terms low) start [tree] rest := by
  induction order with
  | refl => exact derived
  | step _ ih => exact ih (.tighter derived)

theorem Operator.level_lt_four (operator : Operator) : operator.level < 4 := by
  cases operator <;> decide

theorem Operator.not_level_lt_one (operator : Operator) : ¬operator.level < 1 := by
  cases operator <;> decide

/-- What the waiting operators stand for, newest first, with their left operands: from `origin` to
the place where the right operand of the newest one has to come. -/
inductive Suspended (origin : List Token) : List Waiting → List Tree → List Token → Prop where
  | none : Suspended origin [] [] origin
  | wait {waiting : List Waiting} {stack : List Tree} {left : Tree} {sign : Token}
      {operator : Operator} {middle here : List Token} :
      Suspended origin waiting stack middle →
        Derives (.terms operator.level) middle [left] (sign :: here) → sign.kind = .operator →
          Operator.ofText? sign.text = some operator →
            (∀ top ∈ waiting.head?, top.level < operator.level) →
              Suspended origin (⟨sign, operator.level⟩ :: waiting) (left :: stack) here

/-- All levels are below that of a single operand. -/
theorem Suspended.level_lt_four {origin here : List Token} {waiting : List Waiting}
    {stack : List Tree} (suspended : Suspended origin waiting stack here) :
    ∀ top ∈ waiting.head?, top.level < 4 := by
  intro top member
  cases suspended with
  | none => cases member
  | wait _ _ _ _ _ =>
      cases member
      exact Operator.level_lt_four _

/-- **Releasing operators builds terms.** If the newest tree is a term that is tighter than all
waiting operators, it grows to a term of the level at which operators are released. -/
theorem release_derives {origin : List Token} {level : Nat} {waiting : List Waiting} :
    ∀ {output : List PostfixItem} {tree : Tree} {stack : List Tree} {middle here : List Token}
      {high : Nat}, Suspended origin waiting stack middle → Folds output (tree :: stack) →
      Derives (.terms high) middle [tree] here → (∀ top ∈ waiting.head?, top.level < high) →
      level ≤ high →
      ∃ tree' stack' middle',
        Folds (Yard.release level output waiting).1 (tree' :: stack') ∧
        Suspended origin (Yard.release level output waiting).2 stack' middle' ∧
        Derives (.terms level) middle' [tree'] here := by
  induction waiting with
  | nil =>
      intro output tree stack middle here high suspended folds derived _ order
      exact ⟨tree, stack, middle, folds, suspended, derived.loosen order⟩
  | cons top waiting ih =>
      intro output tree stack middle here high suspended folds derived tighter order
      by_cases tight : level ≤ top.level
      · cases suspended with
        | wait before left isOperator known increasing =>
            rw [release_cons tight]
            -- the released operator takes the newest tree as its right operand
            have right := derived.loosen (tighter _ rfl)
            exact ih before (folds.operator _) (.operation left isOperator (mem_joining known) right)
              increasing tight
      · rw [Yard.release, if_neg tight]
        exact ⟨tree, stack, middle, folds, suspended, derived.loosen order⟩

/-- What the state of the sorting stands for, between `origin` and the tokens that are left. -/
def Sorted (origin here : List Token) (yard : Yard) : Prop :=
  if yard.wantsOperand then
    ∃ stack, Folds yard.output stack ∧ Suspended origin yard.waiting stack here
  else
    ∃ tree stack middle, Folds yard.output (tree :: stack) ∧
      Suspended origin yard.waiting stack middle ∧ Derives .operand middle [tree] here

theorem sorted_empty (origin : List Token) : Sorted origin origin .empty :=
  ⟨[], rfl, .none⟩

theorem Sorted.operand {origin here rest : List Token} {yard : Yard}
    (sorted : Sorted origin here yard) (wants : yard.wantsOperand = true) {tree : Tree}
    (derived : Derives .operand here [tree] rest) : Sorted origin rest (yard.operand tree) := by
  rw [Sorted, if_pos wants] at sorted
  obtain ⟨stack, folds, suspended⟩ := sorted
  exact ⟨tree, stack, here, folds.operand tree, suspended, derived⟩

/-- The operators of a level and tighter ones can be released once there is an operand. -/
theorem Sorted.release {origin here : List Token} {yard : Yard}
    (sorted : Sorted origin here yard) (complete : yard.wantsOperand = false) {level : Nat}
    (order : level ≤ 4) :
    ∃ tree stack middle,
      Folds (Yard.release level yard.output yard.waiting).1 (tree :: stack) ∧
      Suspended origin (Yard.release level yard.output yard.waiting).2 stack middle ∧
      Derives (.terms level) middle [tree] here := by
  rw [Sorted, if_neg (by simp [complete])] at sorted
  obtain ⟨tree, stack, middle, folds, suspended, derived⟩ := sorted
  exact release_derives suspended folds (.single derived) suspended.level_lt_four order

theorem Sorted.operator {origin rest : List Token} {sign : Token} {yard : Yard}
    (sorted : Sorted origin (sign :: rest) yard) (complete : yard.wantsOperand = false)
    (isOperator : sign.kind = .operator) {operator : Operator}
    (known : Operator.ofText? sign.text = some operator) :
    Sorted origin rest (yard.operator sign operator.level) := by
  obtain ⟨tree, stack, middle, folds, suspended, derived⟩ :=
    sorted.release complete (Nat.le_of_lt (Operator.level_lt_four operator))
  exact ⟨tree :: stack, folds,
    .wait suspended derived isOperator known (release_looser _ _ _)⟩

/-- The tree of a finished sorting is an expression. -/
theorem Sorted.foldPostfix_eq {origin here : List Token} {yard : Yard}
    (sorted : Sorted origin here yard) (complete : yard.wantsOperand = false) (start : Token) :
    ∃ tree, foldPostfix yard.postfixItems start = .ok tree ∧
      Derives .expression origin [tree] here := by
  obtain ⟨tree, stack, middle, folds, suspended, derived⟩ :=
    sorted.release complete (show 1 ≤ 4 by decide)
  have looser := release_looser 1 yard.output yard.waiting
  cases released : Yard.release 1 yard.output yard.waiting with
  | mk output waiting =>
      rw [released] at folds suspended looser
      cases suspended with
      | wait _ _ _ _ _ =>
          -- every operator is at least as tight as level one
          have bound := looser _ rfl
          exact absurd bound (Operator.not_level_lt_one _)
      | none =>
          refine ⟨tree, ?_, derived⟩
          rw [postfixItems_eq released, foldPostfix, folds]

/-- Without any operand there is no expression. -/
theorem Sorted.foldPostfix_eq_error {origin here : List Token} {yard : Yard}
    (sorted : Sorted origin here yard) (wants : yard.wantsOperand = true)
    (idle : yard.waiting = []) (start : Token) :
    foldPostfix yard.postfixItems start =
      .error (.rejected (.missingExpression start.kind) start) := by
  rw [Sorted, if_pos wants] at sorted
  obtain ⟨stack, folds, suspended⟩ := sorted
  rw [idle] at suspended
  cases suspended with
  | none =>
      have items : yard.postfixItems = yard.output.reverse := by simp [Yard.postfixItems, idle]
      rw [items, foldPostfix, folds]

/-! ## From the grammar to the sorting -/

/-- The items, newest first, push one tree when they are folded. -/
def Denotes (items : List PostfixItem) (tree : Tree) : Prop :=
  ∀ (stack : List Tree) (more : List PostfixItem),
    foldOnto stack (items.reverse ++ more) = foldOnto (tree :: stack) more

theorem denotes_operand (tree : Tree) : Denotes [.operand tree] tree :=
  fun _ _ => rfl

theorem Denotes.operation {lefts rights : List PostfixItem} {left right : Tree}
    (first : Denotes lefts left) (second : Denotes rights right) (sign : Token) :
    Denotes (.operator sign :: rights ++ lefts) (.node sign [left, right]) := by
  intro stack more
  have arranged : (PostfixItem.operator sign :: rights ++ lefts).reverse ++ more =
      lefts.reverse ++ (rights.reverse ++ .operator sign :: more) := by simp
  rw [arranged, first, second]
  rfl

/-- A finished sequence that pushes one tree is that tree. -/
theorem Denotes.foldPostfix_eq {items : List PostfixItem} {tree : Tree}
    (denotes : Denotes items tree) (start : Token) :
    foldPostfix items.reverse start = .ok tree := by
  have folded := denotes [] []
  rw [List.append_nil] at folded
  rw [foldPostfix, folded]
  rfl

end Grammar

end BraceLang
