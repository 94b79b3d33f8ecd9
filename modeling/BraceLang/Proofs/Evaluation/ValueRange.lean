import BraceLang.Proofs.DocumentedFailures
import BraceLang.Proofs.Evaluation.Domain

/-!
# The range of values

The integers that evaluation gives and stores fit in 32 bits, and its strings have no double quotes
if the strings of the trees have none. Both are domains in the sense of `Domain`: neither literals
nor operators lead out of them. Trees of texts have no strings with double quotes
(`quoteless_of_treeWithin`).

Arithmetic is exact otherwise. An operator gives the exact result (`Operator.arithmetic?`) if this
is in range and fails with an overflow if it is not (`tree_operation`), and a literal is the number
that it denotes or fails (`tree_literal`).
-/

set_option autoImplicit false

namespace BraceLang

open Lexer Grammar

/-! ## Integers -/

/-- An integer that fits in 32 bits, or a value of another type. -/
def Value.InRange : Value → Prop
  | .integer number => -2147483648 ≤ number ∧ number ≤ 2147483647
  | .null | .string _ | .bool _ => True

instance (value : Value) : Decidable value.InRange :=
  match value with
  | .integer _ => inferInstanceAs (Decidable (_ ∧ _))
  | .null | .string _ | .bool _ => isTrue trivial

theorem Value.fits_iff (number : Int) : fits number = true ↔ (integer number).InRange := by
  rw [fits, Bool.and_eq_true, decide_eq_true_eq, decide_eq_true_eq]
  simp only [leastInteger, greatestInteger, InRange]

/-- The exact result of an arithmetic operator, where division rounds toward zero. -/
def Operator.arithmetic? : Operator → Int → Int → Option Int
  | .plus, left, right => some (left + right)
  | .minus, left, right => some (left - right)
  | .times, left, right => some (left * right)
  | .divide, left, right => if right = 0 then none else some (left.tdiv right)
  | .equal, _, _ | .unequal, _, _ | .both, _, _ | .either, _, _ => none

namespace Eval

open Effect

theorem truncatedQuotient_eq (dividend divisor : Int) :
    truncatedQuotient dividend divisor = dividend.tdiv divisor := by
  have magnitude : (dividend.tdiv divisor).natAbs = dividend.natAbs / divisor.natAbs :=
    Int.natAbs_tdiv dividend divisor
  simp only [truncatedQuotient, decide_eq_decide, ← magnitude]
  rcases Int.lt_or_le dividend 0 with below | above <;>
    rcases Int.lt_or_le divisor 0 with negative | nonneg
  · have sign := Int.tdiv_nonneg_of_nonpos_of_nonpos (Int.le_of_lt below) (Int.le_of_lt negative)
    rw [if_pos (by omega)]
    omega
  · have sign := Int.tdiv_nonneg (Int.neg_nonneg_of_nonpos (Int.le_of_lt below)) nonneg
    rw [Int.neg_tdiv] at sign
    rw [if_neg (by omega)]
    omega
  · have sign := Int.tdiv_nonpos_of_nonneg_of_nonpos above (Int.le_of_lt negative)
    rw [if_neg (by omega)]
    omega
  · have sign := Int.tdiv_nonneg above nonneg
    rw [if_pos (by omega)]
    omega

/-- An operator on integers is its exact result, if this is in range. -/
theorem combine_integers {text : String} {operator : Operator}
    (known : Operator.ofText? text = some operator) {left right number : Int}
    (result : operator.arithmetic? left right = some number) :
    combine text (.integer left) (.integer right) = checked text number := by
  cases operator with
  | plus | minus | times =>
      simp only [Operator.arithmetic?, Option.some.injEq] at result
      simp only [combine, known, result]
  | divide =>
      simp only [Operator.arithmetic?, Option.ite_none_left_eq_some, Option.some.injEq] at result
      simp only [combine, known, if_neg result.1, truncatedQuotient_eq, result.2]
  | equal | unequal | both | either => cases result

theorem of_checked_eq_ok {text : String} {number : Int} {result : Value}
    (computed : checked text number = .ok result) :
    result = .integer number ∧ (Value.integer number).InRange := by
  unfold checked at computed
  split at computed
  · next fits =>
      cases computed
      exact ⟨rfl, (Value.fits_iff number).mp fits⟩
  · cases computed

theorem of_literal_eq_ok {text : String} {result : Value} (computed : literal text = .ok result) :
    ∃ number, result = .integer number ∧ (Value.integer number).InRange := by
  unfold literal at computed
  split at computed
  · cases computed
  · next number _ =>
      split at computed
      · next fits =>
          cases computed
          exact ⟨number, rfl, (Value.fits_iff number).mp fits⟩
      · cases computed

/-- What an operator can give: an integer in range, a truth value, or two strings joined. -/
theorem of_combine_eq_ok {text : String} {left right result : Value}
    (computed : combine text left right = .ok result) :
    (∃ number, result = .integer number ∧ (Value.integer number).InRange) ∨
      (∃ truth, result = .bool truth) ∨
      ∃ first second, left = .string first ∧ right = .string second ∧
        result = .string (first ++ second) := by
  unfold combine at computed
  split at computed
  case h_1 | h_2 | h_3 => exact .inl ⟨_, of_checked_eq_ok computed⟩
  case h_4 =>
      split at computed
      · cases computed
      · exact .inl ⟨_, of_checked_eq_ok computed⟩
  case h_11 first second _ =>
      cases computed
      exact .inr (.inr ⟨first, second, rfl, rfl, rfl⟩)
  case h_14 => cases computed
  all_goals
    cases computed
    exact .inr (.inl ⟨_, rfl⟩)

/-- Integers in range, with no condition on trees. -/
theorem domain_inRange : Domain Value.InRange fun _ => True where
  null := trivial
  literal computed := by
    obtain ⟨number, rfl, inRange⟩ := of_literal_eq_ok computed
    exact inRange
  combine _ _ computed := by
    rcases of_combine_eq_ok computed with ⟨number, rfl, inRange⟩ | ⟨truth, rfl⟩ |
      ⟨first, second, rfl, rfl, rfl⟩
    · exact inRange
    · trivial
    · trivial
  string _ _ := trivial
  child _ _ := trivial

end Eval

/-! ## Strings -/

/-- A string without a double quote, or a value of another type. -/
def Value.Quoteless : Value → Prop
  | .string text => '"' ∉ text.toList
  | .null | .integer _ | .bool _ => True

instance (value : Value) : Decidable value.Quoteless :=
  match value with
  | .string _ => inferInstanceAs (Decidable (¬ _))
  | .null | .integer _ | .bool _ => isTrue trivial

namespace Tree

/-- No string in a tree has a double quote. -/
def Quoteless (root : Tree) : Prop :=
  ∀ tree ∈ root.preorder, tree.kind = .string → '"' ∉ tree.text.toList

instance (root : Tree) : Decidable root.Quoteless :=
  inferInstanceAs (Decidable (∀ tree ∈ root.preorder, _))

/-- The strings of a tree are that at its root and those of its children. -/
theorem quoteless_node {token : Token} {children : List Tree} :
    (node token children).Quoteless ↔
      (token.kind = .string → '"' ∉ token.text.toList) ∧
        ∀ child ∈ children, child.Quoteless := by
  simp only [Quoteless, preorder, List.forall_mem_cons, mem_preorderAll]
  refine and_congr_right fun _ => ⟨?_, ?_⟩
  · exact fun all child member tree below => all tree ⟨child, member, below⟩
  · rintro each tree ⟨child, member, below⟩
    exact each child member tree below

theorem quoteless_of_everywhere {root : Tree}
    (strings : root.Everywhere fun token => token.kind = .string → '"' ∉ token.text.toList) :
    root.Quoteless := by
  induction strings with
  | node unquoted _ ih => exact quoteless_node.mpr ⟨unquoted, ih⟩

end Tree

/-- Trees that come from texts have no strings with double quotes. -/
theorem quoteless_of_written {role : Role} {root : Tree} (written : Written role root) :
    root.Quoteless :=
  Tree.quoteless_of_everywhere
    (written.everywhere (fun _ spelled _ => spelled.unquoted) (fun _ _ => nofun) fun _ _ => nofun)

theorem quoteless_of_treeWithin {limits : Limits} {source : String} {root : Tree}
    (parsed : treeWithin limits source = .ok root) : root.Quoteless :=
  quoteless_of_written (written_of_treeWithin parsed)

namespace Eval

open Effect

/-- Strings without double quotes, if the trees have no others. -/
theorem domain_quoteless : Domain Value.Quoteless Tree.Quoteless where
  null := trivial
  literal computed := by
    obtain ⟨number, rfl, -⟩ := of_literal_eq_ok computed
    trivial
  combine left right computed := by
    rcases of_combine_eq_ok computed with ⟨number, rfl, -⟩ | ⟨truth, rfl⟩ |
      ⟨first, second, rfl, rfl, rfl⟩
    · trivial
    · trivial
    · simp only [Value.Quoteless, String.toList_append, List.mem_append, not_or]
      exact ⟨left, right⟩
  string {root} quoteless isString := by
    obtain ⟨token, children⟩ := root
    exact (Tree.quoteless_node.mp quoteless).1 isString
  child {root child} quoteless member := by
    obtain ⟨token, children⟩ := root
    exact (Tree.quoteless_node.mp quoteless).2 child member

/-! ## Results out of range -/

/-- The outcome is a number if it is in range, and a failure of a category if it is not. -/
def Gives (number : Int) (category : Category) (last : Context)
    (outcome : EStateM.Result Halt Context Value) : Prop :=
  if (Value.integer number).InRange then outcome = .ok (.integer number) last
  else ∃ halt, outcome = .error halt last ∧ halt.diagnostic.category = category

theorem gives_checked (number : Int) (text : String) (offset : Int) (last : Context) :
    Gives number .overflow last (located offset (checked text number) last) := by
  unfold Gives checked
  by_cases inRange : (Value.integer number).InRange
  · rw [if_pos inRange, if_pos ((Value.fits_iff number).mpr inRange)]
    rfl
  · rw [if_neg inRange, if_neg (mt (Value.fits_iff number).mp inRange)]
    exact ⟨_, rfl, rfl⟩

/-- An operation on two trees combines their values. -/
theorem node_operation {inner : Tree → Eval Value} (bound : Nat) {root first second : Tree}
    (isOperator : root.kind = .operator) (operands : root.children = [first, second])
    {context middle last : Context} {left right : Value}
    (ranFirst : inner first context = .ok left middle)
    (ranSecond : inner second middle = .ok right last) :
    node inner bound root context = located root.offset (combine root.text left right) last := by
  have rule : node inner bound root = inner first >>= fun left => inner second >>= fun right =>
      located root.offset (combine root.text left right) := by
    simp only [node, isOperator, operation, operands]
  rw [rule, bind_of_ok ranFirst, bind_of_ok ranSecond]

/-- An operation on integers gives the exact result or an overflow. -/
theorem tree_operation (bound depth : Nat) {root first second : Tree} {operator : Operator}
    (isOperator : root.kind = .operator) (operands : root.children = [first, second])
    (known : Operator.ofText? root.text = some operator) {left right number : Int}
    (result : operator.arithmetic? left right = some number) {context middle last : Context}
    (ranFirst : tree bound depth first context = .ok (.integer left) middle)
    (ranSecond : tree bound depth second middle = .ok (.integer right) last) :
    Gives number .overflow last (tree bound (depth + 1) root context) := by
  have evaluated : tree bound (depth + 1) root context =
      located root.offset (checked root.text number) last := by
    rw [tree, node_operation bound isOperator operands ranFirst ranSecond,
      combine_integers known result]
  rw [evaluated]
  exact gives_checked number root.text root.offset last

/-- A literal gives the number that it denotes, or is refused. -/
theorem tree_literal (bound depth : Nat) {root : Tree} (isNumeral : root.kind = .numeral)
    {number : Int} (denoted : Text.integer? root.text = some number) (context : Context) :
    Gives number .value context (tree bound (depth + 1) root context) := by
  have evaluated : tree bound (depth + 1) root context =
      located root.offset (literal root.text) context := by
    rw [tree, node, isNumeral]
  rw [evaluated]
  unfold Gives literal
  by_cases inRange : (Value.integer number).InRange
  · simp only [denoted, if_pos inRange, if_pos ((Value.fits_iff number).mpr inRange)]
    rfl
  · simp only [denoted, if_neg inRange, if_neg (mt (Value.fits_iff number).mp inRange)]
    exact ⟨_, rfl, rfl⟩

/-- **The range of values.** If the integers of a context fit in 32 bits, then so do all integers
that evaluation of any tree gives or stores, whatever its outcome; a result that does not fit is an
overflow, and a literal that does not fit is refused. If the strings of a context, of the bodies of
its functions and of the tree have no double quotes, then neither has a string that evaluation gives
or stores; trees of texts have no such strings. -/
theorem value_domain (bound depth : Nat) (root : Tree) (context : Context) :
    (∀ evaluation ∈ [tree bound depth root, whole bound depth root, statements bound depth root],
      (context.Stores Value.InRange (fun _ => True) →
        (after evaluation context).Stores Value.InRange (fun _ => True) ∧
          ∀ value last, evaluation context = .ok value last → value.InRange) ∧
      (context.Stores Value.Quoteless Tree.Quoteless → root.Quoteless →
        (after evaluation context).Stores Value.Quoteless Tree.Quoteless ∧
          ∀ value last, evaluation context = .ok value last → value.Quoteless)) ∧
    (∀ first second operator left right number middle last,
      root.kind = .operator → root.children = [first, second] →
      Operator.ofText? root.text = some operator →
      tree bound depth first context = .ok (.integer left) middle →
      tree bound depth second middle = .ok (.integer right) last →
      operator.arithmetic? left right = some number →
      Gives number .overflow last (tree bound (depth + 1) root context)) ∧
    (∀ number, root.kind = .numeral → Text.integer? root.text = some number →
      Gives number .value context (tree bound (depth + 1) root context)) ∧
    ∀ limits source, treeWithin limits source = .ok root → root.Quoteless := by
  refine ⟨fun evaluation listed => ⟨?_, ?_⟩, ?_, ?_, ?_⟩
  · intro stores
    exact domain_inRange.evaluation bound depth trivial evaluation listed context stores
  · intro stores quoteless
    exact domain_quoteless.evaluation bound depth quoteless evaluation listed context stores
  · intro first second operator left right number middle last isOperator operands known
      ranFirst ranSecond result
    exact tree_operation bound depth isOperator operands known result ranFirst ranSecond
  · intro number isNumeral denoted
    exact tree_literal bound depth isNumeral denoted context
  · intro limits source parsed
    exact quoteless_of_treeWithin parsed

/-- The greatest integer and one more is an overflow, and as a literal it is refused; strings of a
text that are joined to what a function gives stay without double quotes. -/
theorem value_domain_greatest :
    let limits : Limits := ⟨20, 20, 20⟩
    let body := Tree.block [.leaf ⟨.string, "b", 8, false⟩] false 7
    let context := (Context.fresh.setVariable "x" (.integer 2147483647)).setRoutine ⟨"f", [], body⟩
    let sum := Tree.node ⟨.operator, "+", 2, false⟩
      [.leaf ⟨.identifier, "x", 0, false⟩, .leaf ⟨.numeral, "1", 4, false⟩]
    let literal := Tree.leaf ⟨.numeral, "2147483648", 0, false⟩
    context.Stores Value.InRange (fun _ => True) ∧
      context.Stores Value.Quoteless Tree.Quoteless ∧
      (after (tree 1 2 sum) context).Stores Value.InRange (fun _ => True) ∧
      (∃ halt, tree 1 2 sum context = .error halt context ∧
        halt.diagnostic.category = .overflow) ∧
      (∃ halt, tree 1 1 literal context = .error halt context ∧
        halt.diagnostic.category = .value) ∧
      ∃ root value last, treeWithin limits "y = \"a\" + f() y" = .ok root ∧
        statements 20 20 root context = .ok value last ∧ value = .string "ab" ∧
        value.Quoteless ∧ last.Stores Value.Quoteless Tree.Quoteless := by
  intro limits body context sum literal
  have inRange : context.Stores Value.InRange (fun _ => True) := by decide
  have quoteless : context.Stores Value.Quoteless Tree.Quoteless := by decide
  refine ⟨inRange, quoteless, ?_, ?_, ?_, ?_⟩
  · exact (((value_domain 1 2 sum context).1 _ List.mem_cons_self).1 inRange).1
  · have gives := (value_domain 1 1 sum context).2.1 _ _ .plus 2147483647 1 2147483648 context
      context rfl rfl rfl rfl rfl rfl
    rwa [Gives, if_neg (by decide)] at gives
  · have gives := (value_domain 1 0 literal context).2.2.1 2147483648 rfl (by decide +kernel)
    rwa [Gives, if_neg (by decide)] at gives
  · have joined : (enterWithin limits "y = \"a\" + f() y" context).result.toOption =
        some (.string "ab") := by
      decide +kernel
    cases parsed : treeWithin limits "y = \"a\" + f() y" with
    | error failure =>
        rw [enterWithin, evaluateWithin, parsed] at joined
        cases joined
    | ok root =>
        have entered : enterWithin limits "y = \"a\" + f() y" context =
            .ofEval (statements 20 20 root) context := by
          rw [enterWithin, evaluateWithin, parsed]
        rw [entered] at joined
        have strings := (value_domain 20 20 root context).2.2.2 limits _ parsed
        have kept := ((value_domain 20 20 root context).1 (statements 20 20 root) (by simp)).2
          quoteless strings
        cases ran : statements 20 20 root context with
        | error halt last =>
            rw [result_ofEval_of_error ran] at joined
            cases joined
        | ok value last =>
            rw [result_ofEval_of_ok ran] at joined
            cases joined
            rw [after_of_ok ran] at kept
            exact ⟨root, _, last, rfl, ran, rfl, kept.2 _ last ran, kept.1⟩

end Eval

end BraceLang
