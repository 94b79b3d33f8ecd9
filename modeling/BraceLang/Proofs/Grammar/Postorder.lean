import BraceLang.Proofs.Grammar.Sorting

/-!
# Folding undoes the post-order

The postfix sequence of a tree of operators is its post-order: both operands before their operator.
Folding such a sequence gives the tree back (`denotes_postorder`), and no other sequence folds to one
tree, because the stack always holds the trees of formulas whose post-orders, from the bottom to the
top, are the items so far (`spell_foldOnto`).

The stack has one tree for each operand and one less for each operator (`length_foldOnto`). So an
operator underflows if there are not two more operands than operators before it, and counting alone
tells which sequences fail, and how (`foldPostfix_exact`).
-/

set_option autoImplicit false

namespace BraceLang

namespace Grammar

open BraceLang.Parser

/-! ## Formulas -/

/-- A binary tree of operator tokens over arbitrary operands. -/
inductive Formula where
  | operand (tree : Tree)
  | operation (sign : Token) (left right : Formula)

namespace Formula

/-- The tree that a formula stands for. -/
def tree : Formula → Tree
  | operand tree => tree
  | operation sign left right => .node sign [left.tree, right.tree]

/-- The items of a formula, each operator after its two operands. -/
def postorder : Formula → List PostfixItem
  | operand tree => [.operand tree]
  | operation sign left right => left.postorder ++ right.postorder ++ [.operator sign]

end Formula

/-- The post-order of a formula pushes its tree. -/
theorem denotes_postorder (formula : Formula) : Denotes formula.postorder.reverse formula.tree := by
  induction formula with
  | operand tree => exact denotes_operand tree
  | operation sign left right ihLeft ihRight =>
      have denotes := ihLeft.operation ihRight sign
      simpa [Formula.postorder, Formula.tree] using denotes

/-- The post-orders of the formulas of a stack, whose top comes first. -/
def spell : List Formula → List PostfixItem
  | [] => []
  | top :: below => spell below ++ top.postorder

/-- **A stack is what has been read.** From a stack of formulas, folding comes to another one, and
what that one spells is what the first one spells and the items. -/
theorem spell_foldOnto {items : List PostfixItem} {formulas : List Formula} {stack : List Tree}
    (folded : foldOnto (formulas.map Formula.tree) items = .ok stack) :
    ∃ formulas', stack = formulas'.map Formula.tree ∧ spell formulas' = spell formulas ++ items := by
  induction items generalizing formulas with
  | nil =>
      cases folded
      exact ⟨formulas, rfl, (List.append_nil _).symm⟩
  | cons item items ih =>
      cases item with
      | operand tree =>
          obtain ⟨formulas', same, spelled⟩ := @ih (.operand tree :: formulas) folded
          exact ⟨formulas', same, by rw [spelled, spell, Formula.postorder, List.append_assoc,
            List.singleton_append]⟩
      | operator sign =>
          match formulas, folded with
          | right :: left :: below, folded =>
              obtain ⟨formulas', same, spelled⟩ := @ih (.operation sign left right :: below) folded
              exact ⟨formulas', same, by rw [spelled]; simp [spell, Formula.postorder]⟩

/-! ## Counting -/

/-- How many more operands than operators a sequence has. -/
def surplus : List PostfixItem → Int
  | [] => 0
  | .operand _ :: items => surplus items + 1
  | .operator _ :: items => surplus items - 1

/-- **The height of the stack.** -/
theorem length_foldOnto {items : List PostfixItem} {stack stack' : List Tree}
    (folded : foldOnto stack items = .ok stack') :
    (stack'.length : Int) = stack.length + surplus items := by
  induction items generalizing stack with
  | nil =>
      cases folded
      exact (Int.add_zero _).symm
  | cons item items ih =>
      cases item with
      | operand tree =>
          have length := ih folded
          rw [List.length_cons] at length
          rw [surplus]
          omega
      | operator sign =>
          match stack, folded with
          | right :: left :: below, folded =>
              have length := ih folded
              rw [surplus]
              simp only [List.length_cons] at length ⊢
              omega

/-- An operator of the sequence has fewer than two operands left to it. -/
def Starved (items : List PostfixItem) (sign : Token) : Prop :=
  ∃ before after, items = before ++ .operator sign :: after ∧ surplus before < 2

/-- The operator is the first one that has fewer than two operands left to it. -/
def FirstStarved (items : List PostfixItem) (sign : Token) : Prop :=
  ∃ before after, items = before ++ .operator sign :: after ∧ surplus before < 2 ∧
    ∀ earlier, ¬Starved before earlier

/-- On a stack with fewer than two trees an operator underflows. -/
theorem foldOnto_underflow {stack : List Tree} (short : stack.length < 2) (sign : Token)
    (after : List PostfixItem) :
    foldOnto stack (.operator sign :: after) = .error (.underflow sign) := by
  match stack, short with
  | [], _ => rfl
  | [_], _ => rfl

/-- Folding fails at an operator that finds fewer than two trees. -/
theorem exists_of_foldOnto_eq_error {items : List PostfixItem} {stack : List Tree} {defect : Defect}
    (failed : foldOnto stack items = .error defect) :
    ∃ before sign after stack', items = before ++ .operator sign :: after ∧
      foldOnto stack before = .ok stack' ∧ stack'.length < 2 ∧ defect = .underflow sign := by
  induction items generalizing stack with
  | nil => cases failed
  | cons item items ih =>
      cases item with
      | operand tree =>
          obtain ⟨before, sign, after, stack', rfl, folded, short, rfl⟩ := ih failed
          exact ⟨.operand tree :: before, sign, after, stack', rfl, folded, short, rfl⟩
      | operator sign =>
          match stack, failed with
          | [], failed => exact ⟨[], sign, items, [], rfl, rfl, by decide, by cases failed; rfl⟩
          | [single], failed =>
              exact ⟨[], sign, items, [single], rfl, rfl, Nat.lt_succ_self 1,
                by cases failed; rfl⟩
          | right :: left :: below, failed =>
              obtain ⟨before, sign', after, stack', rfl, folded, short, rfl⟩ :=
                @ih (.node sign [left, right] :: below) failed
              exact ⟨.operator sign :: before, sign', after, stack', rfl, folded, short, rfl⟩

/-- **A sequence folds if none of its operators starves.** -/
theorem exists_foldOnto_iff {items : List PostfixItem} :
    (∃ stack, foldOnto [] items = .ok stack) ↔ ∀ sign, ¬Starved items sign := by
  constructor
  · rintro ⟨stack, folded⟩ sign ⟨before, after, rfl, short⟩
    rw [foldOnto_append] at folded
    cases ran : foldOnto [] before with
    | error defect =>
        rw [ran] at folded
        cases folded
    | ok middle =>
        have length := length_foldOnto ran
        rw [List.length_nil] at length
        have folded : foldOnto middle (.operator sign :: after) = .ok stack := by rwa [ran] at folded
        rw [foldOnto_underflow (by omega)] at folded
        cases folded
  · intro fed
    cases ran : foldOnto [] items with
    | ok stack => exact ⟨stack, rfl⟩
    | error defect =>
        obtain ⟨before, sign, after, stack, same, folded, short, -⟩ :=
          exists_of_foldOnto_eq_error ran
        have length := length_foldOnto folded
        rw [List.length_nil] at length
        exact absurd ⟨before, after, same, by omega⟩ (fed sign)

/-- **Folding fails at the first operator that starves.** -/
theorem foldOnto_eq_error_iff {items : List PostfixItem} {defect : Defect} :
    foldOnto [] items = .error defect ↔
      ∃ sign, FirstStarved items sign ∧ defect = .underflow sign := by
  constructor
  · intro failed
    obtain ⟨before, sign, after, stack, same, folded, short, named⟩ :=
      exists_of_foldOnto_eq_error failed
    have length := length_foldOnto folded
    rw [List.length_nil] at length
    exact ⟨sign, ⟨before, after, same, by omega, exists_foldOnto_iff.mp ⟨stack, folded⟩⟩, named⟩
  · rintro ⟨sign, ⟨before, after, rfl, few, fed⟩, rfl⟩
    obtain ⟨stack, folded⟩ := exists_foldOnto_iff.mpr fed
    have length := length_foldOnto folded
    rw [List.length_nil] at length
    rw [foldOnto_append, folded]
    exact foldOnto_underflow (by omega) sign after

/-- If an operator starves, one is the first. -/
theorem exists_firstStarved_iff {items : List PostfixItem} :
    (∃ sign, FirstStarved items sign) ↔ ∃ sign, Starved items sign := by
  constructor
  · rintro ⟨sign, before, after, same, few, -⟩
    exact ⟨sign, before, after, same, few⟩
  · rintro ⟨sign, starved⟩
    cases ran : foldOnto [] items with
    | ok stack => exact absurd starved (exists_foldOnto_iff.mp ⟨stack, ran⟩ sign)
    | error defect =>
        obtain ⟨first, isFirst, -⟩ := foldOnto_eq_error_iff.mp ran
        exact ⟨first, isFirst⟩

/-! ## Outcomes -/

section Outcomes

variable {items : List PostfixItem} {start : Token}

/-- A sequence denotes a tree if it leaves that tree on the stack and nothing else. -/
theorem foldPostfix_eq_ok_iff {tree : Tree} :
    foldPostfix items start = .ok tree ↔ foldOnto [] items = .ok [tree] := by
  unfold foldPostfix
  split <;> simp [*]

/-- The defects of a sequence are those of its folding. -/
theorem foldPostfix_eq_broken_iff {defect : Defect} :
    foldPostfix items start = .error (.broken defect) ↔ foldOnto [] items = .error defect := by
  unfold foldPostfix
  split <;> simp [*]

/-- A sequence is refused if it leaves no tree on the stack, or more than one. -/
theorem foldPostfix_eq_rejected_iff {fault : Fault} {token : Token} :
    foldPostfix items start = .error (.rejected fault token) ↔
      ∃ stack, foldOnto [] items = .ok stack ∧ token = start ∧
        (stack = [] ∧ fault = .missingExpression start.kind ∨
          1 < stack.length ∧ fault = .unresolvedExpression) := by
  unfold foldPostfix
  split <;> simp [*, and_comm, eq_comm]

/-- Only the post-order of a formula leaves a single tree. -/
theorem exists_formula_of_foldOnto {tree : Tree} (folded : foldOnto [] items = .ok [tree]) :
    ∃ formula : Formula, items = formula.postorder ∧ tree = formula.tree := by
  obtain ⟨formulas, same, spelled⟩ := @spell_foldOnto items [] [tree] folded
  obtain ⟨formula, rfl, rfl⟩ := List.map_eq_singleton_iff.mp same.symm
  exact ⟨formula, spelled.symm, rfl⟩

/-- Only the empty sequence leaves nothing. -/
theorem eq_nil_of_foldOnto (folded : foldOnto [] items = .ok []) : items = [] := by
  obtain ⟨formulas, same, spelled⟩ := @spell_foldOnto items [] [] folded
  obtain rfl := List.map_eq_nil_iff.mp same.symm
  exact spelled.symm

end Outcomes

/-- **Folding undoes the post-order**, and fails on all other sequences. A sequence folds to a tree
exactly if it is the post-order of a formula and the tree is the formula's. It underflows exactly if
one of its operators has not two more operands than operators before it, and the first of these is
named. Otherwise it is refused, at the token with which the expression begins: as no expression
exactly if it is empty, and as unresolved exactly if it has at least two more operands than
operators. -/
theorem foldPostfix_exact (items : List PostfixItem) (start : Token) :
    (∀ tree, foldPostfix items start = .ok tree ↔
      ∃ formula : Formula, items = formula.postorder ∧ tree = formula.tree) ∧
    (∀ defect, foldPostfix items start = .error (.broken defect) ↔
      ∃ sign, FirstStarved items sign ∧ defect = .underflow sign) ∧
    ((∃ sign, FirstStarved items sign) ↔ ∃ sign, Starved items sign) ∧
    (∀ fault token, foldPostfix items start = .error (.rejected fault token) ↔
      (∀ sign, ¬Starved items sign) ∧ token = start ∧
        (items = [] ∧ fault = .missingExpression start.kind ∨
          1 < surplus items ∧ fault = .unresolvedExpression)) ∧
    ∀ token, foldPostfix items start ≠ .error (.tooDeep token) := by
  refine ⟨fun tree => ⟨fun folded => ?_, ?_⟩, fun defect => ?_, exists_firstStarved_iff,
    fun fault token => ⟨fun refused => ?_, ?_⟩, foldPostfix_ne_tooDeep items start⟩
  · exact exists_formula_of_foldOnto (foldPostfix_eq_ok_iff.mp folded)
  · rintro ⟨formula, rfl, rfl⟩
    have folded := (denotes_postorder formula).foldPostfix_eq start
    rwa [List.reverse_reverse] at folded
  · exact foldPostfix_eq_broken_iff.trans foldOnto_eq_error_iff
  · obtain ⟨stack, folded, rfl, kind⟩ := foldPostfix_eq_rejected_iff.mp refused
    have length := length_foldOnto folded
    rw [List.length_nil] at length
    refine ⟨exists_foldOnto_iff.mp ⟨stack, folded⟩, rfl, ?_⟩
    rcases kind with ⟨rfl, rfl⟩ | ⟨several, rfl⟩
    · exact .inl ⟨eq_nil_of_foldOnto folded, rfl⟩
    · exact .inr ⟨by omega, rfl⟩
  · rintro ⟨fed, rfl, kind⟩
    obtain ⟨stack, folded⟩ := exists_foldOnto_iff.mpr fed
    have length := length_foldOnto folded
    rw [List.length_nil] at length
    refine foldPostfix_eq_rejected_iff.mpr ⟨stack, folded, rfl, ?_⟩
    rcases kind with ⟨rfl, rfl⟩ | ⟨several, rfl⟩
    · cases folded
      exact .inl ⟨rfl, rfl⟩
    · exact .inr ⟨by omega, rfl⟩

end Grammar

end BraceLang
