import BraceLang.Proofs.Grammar.Simulation

/-!
# Expressions by levels

The parser sorts the operators of an expression with a stack and folds the postfix sequence
afterwards. The textbook alternative is one loop for each level of operators, inside the loop for
the next looser level: operands are joined to products, products to sums, and sums to comparisons,
always to the left (`stratified`). Here both are shown to be the same parser: they give the same
tree, stop at the same token and refuse the same token for the same reason.

The stack of waiting operators is what the loops have yet to do. An operator waits in the loop of
its level, with the tree that the loop has built so far as its left operand (`Pending`), and `climb`
is the rest of the work once an operand is read: in the loop of every level, from the tightest one
to the loosest one, the waiting operator gets its right operand, and the loop goes on. Where the
expression ends, this only builds the tree (`climb_of_stop`). At an operator, the loops of the
tighter levels end and the one of its level goes on, which is what releasing the waiting operators
does (`climb_of_operator`).
-/

set_option autoImplicit false

namespace BraceLang

namespace Grammar

open BraceLang.Parser Effect

/-! ## One loop for each level -/

/-- Whether a token is an operator of a level. -/
def Joins (level : Nat) (token : Token) : Prop :=
  token.kind = .operator ∧ token.text ∈ joining level

instance (level : Nat) (token : Token) : Decidable (Joins level token) :=
  inferInstanceAs (Decidable (_ ∧ _))

/-- Joins a tree with the operands that follow operators of a level, to the left. The parser for the
operands is told the operator before them. -/
def joinOnto (level : Nat) (next : Option Token → Parser Tree) : Nat → Tree → Parser Tree
  | 0, _ => throw (.broken .stalled)
  | rounds + 1, left => do
    let token ← peek
    if Joins level token then
      let sign ← advance
      let right ← next (some sign)
      joinOnto level next rounds (.node sign [left, right])
    else
      return left

/-- Joins a tree with all operands that follow operators of a level. -/
def joinAll (level : Nat) (next : Option Token → Parser Tree) (left : Tree) : Parser Tree := do
  joinOnto level next (← bound) left

section Rules

variable (inner : Construct → Parser Tree)

/-- An operand where one has to come: after an operator, or where an expression begins. -/
def operandAfter (sign : Option Token) : Parser Tree := do
  let token ← peek
  if token.kind.startsOperand then
    inner .operand
  else if token.kind = .operator then
    reject (.unexpectedOperator token.text)
  else
    match sign with
    | some sign => reject (.missingOperand sign.text)
    | none => reject (.missingExpression token.kind)

/-- Operands joined by operators of some levels, the loosest level first. -/
def levelled : List Nat → Option Token → Parser Tree
  | [], sign => operandAfter inner sign
  | level :: tighter, sign => do
    let first ← levelled tighter sign
    joinAll level (levelled tighter) first

/-- An expression: comparisons and connectives of sums of products. -/
def stratified : Parser Tree :=
  levelled inner [1, 2, 3] none

end Rules

/-! ## Progress of the loops -/

section Progress

variable {level : Nat} {next : Option Token → Parser Tree} {last : Token} {start : List Token}

/-- A token that joins is left before the end of the input. -/
theorem Joins.exists_cons (closed : last.kind = .endOfInput)
    (joins : Joins level (Cursor.before last start).current) :
    ∃ sign rest, start = sign :: rest ∧ Joins level sign ∧ sign.kind ≠ .endOfInput := by
  obtain ⟨sign, rest, rfl, isOperator⟩ := exists_cons_of_current closed (by decide) joins.1
  exact ⟨sign, rest, rfl, joins, by rw [isOperator]; decide⟩

theorem joinOnto_stable (progresses : ∀ sign, Progresses (next sign)) (left : Tree) :
    Stable fun rounds => joinOnto level next rounds left := by
  intro last start rounds rounds' closed enough enough'
  induction rounds generalizing start rounds' left with
  | zero => exact absurd enough (Nat.not_lt_zero _)
  | succ rounds ih =>
      obtain ⟨rounds', rfl⟩ := Nat.exists_eq_add_one_of_ne_zero (Nat.ne_zero_of_lt enough')
      refine bind_eq_bind rfl fun token cursor looked => ?_
      cases looked
      split
      · next joins =>
          obtain ⟨sign, rest, rfl, -, inside⟩ := joins.exists_cons closed
          rw [List.length_cons] at enough enough'
          rw [bind_of_ok (advance_before_cons inside last rest),
            bind_of_ok (advance_before_cons inside last rest)]
          refine bind_eq_bind rfl fun right cursor ran => ?_
          obtain ⟨final, rfl, shorter⟩ := progresses _ closed ran
          exact ih _ (by omega) (by omega)
      · rfl

/-- A loop with enough rounds is the loop with as many rounds as there are tokens. -/
theorem joinOnto_eq_joinAll (closed : last.kind = .endOfInput)
    (progresses : ∀ sign, Progresses (next sign)) {rounds : Nat} (enough : start.length < rounds)
    (left : Tree) :
    joinOnto level next rounds left (.before last start) =
      joinAll level next left (.before last start) := by
  rw [joinAll, bind_of_ok (bound_before last start)]
  exact joinOnto_stable progresses left closed enough (Nat.lt_succ_self _)

/-- Where no operator of its level comes next, the loop ends. -/
theorem joinAll_of_stop (stop : ¬Joins level (Cursor.before last start).current) (left : Tree) :
    joinAll level next left (.before last start) = .ok left (.before last start) := by
  rw [joinAll, bind_of_ok (bound_before last start), joinOnto, bind_of_ok (peek_before last start),
    if_neg stop]
  rfl

/-- At an operator of its level, the loop takes it with its right operand and goes on. -/
theorem joinAll_of_joins (closed : last.kind = .endOfInput)
    (progresses : ∀ sign, Progresses (next sign)) {sign : Token} (joins : Joins level sign)
    (left : Tree) :
    joinAll level next left (.before last (sign :: start)) =
      (next (some sign) >>= fun right => joinAll level next (.node sign [left, right]))
        (.before last start) := by
  have inside : sign.kind ≠ .endOfInput := by rw [joins.1]; decide
  have here : Joins level (Cursor.before last (sign :: start)).current := joins
  rw [joinAll, bind_of_ok (bound_before last (sign :: start)), joinOnto,
    bind_of_ok (peek_before last (sign :: start)), if_pos here,
    bind_of_ok (advance_before_cons inside last start)]
  refine bind_eq_bind rfl fun right cursor ran => ?_
  obtain ⟨rest, rfl, shorter⟩ := progresses _ closed ran
  exact joinOnto_eq_joinAll closed progresses (by rw [List.length_cons]; omega) _

/-- The loop stops where not more is left. -/
theorem joinAll_stays (closed : last.kind = .endOfInput)
    (progresses : ∀ sign, Progresses (next sign)) {left tree : Tree} {cursor : Cursor}
    (ran : joinAll level next left (.before last start) = .ok tree cursor) :
    ∃ rest, cursor = .before last rest ∧ rest.length ≤ start.length := by
  induction size : start.length using Nat.strongRecOn generalizing start left with
  | ind count ih =>
      by_cases joins : Joins level (Cursor.before last start).current
      · obtain ⟨sign, later, rfl, joins, -⟩ := joins.exists_cons closed
        rw [joinAll_of_joins closed progresses joins] at ran
        obtain ⟨right, middle, read, ran⟩ := of_bind_eq_ok ran
        obtain ⟨rest, rfl, shorter⟩ := progresses _ closed read
        rw [List.length_cons] at size
        obtain ⟨final, place, order⟩ := ih rest.length (by omega) ran rfl
        exact ⟨final, place, by omega⟩
      · rw [joinAll_of_stop joins] at ran
        cases ran
        exact ⟨start, rfl, Nat.le_of_eq size⟩

variable {inner : Construct → Parser Tree} (reliable : Reliable inner)
include reliable

theorem operandAfter_progresses (sign : Option Token) : Progresses (operandAfter inner sign) := by
  intro last start tree cursor closed ran
  rw [operandAfter, bind_of_ok (peek_before last start)] at ran
  split at ran
  · next starts =>
      have parses := (reliable last closed).1 .operand start fun _ => starts
      rw [Parses, ran] at parses
      obtain ⟨rest, place, -, derived⟩ := parses
      exact ⟨rest, place, derived.length_le⟩
  · split at ran
    · cases ran
    · cases sign <;> cases ran

theorem levelled_progresses (levels : List Nat) (sign : Option Token) :
    Progresses (levelled inner levels sign) := by
  induction levels generalizing sign with
  | nil => exact operandAfter_progresses reliable sign
  | cons level tighter ih =>
      intro last start tree cursor closed ran
      obtain ⟨first, middle, read, ran⟩ := of_bind_eq_ok ran
      obtain ⟨rest, rfl, shorter⟩ := ih sign closed read
      obtain ⟨final, place, order⟩ := joinAll_stays closed ih ran
      exact ⟨final, place, Nat.lt_of_le_of_lt order shorter⟩

end Progress

/-! ## Waiting operators -/

/-- An operator that waits for its right operand, with its left one. -/
structure Pending where
  sign : Token
  level : Nat
  left : Tree

/-- The operator as it waits in the sorting. -/
def Pending.waiting (pending : Pending) : Waiting :=
  ⟨pending.sign, pending.level⟩

/-- The tree becomes the right operand of the newest waiting operator that binds at least as
strongly as a level, and the result that of the next one; gives the last tree and the operators that
keep waiting. -/
def settle (level : Nat) : Tree → List Pending → Tree × List Pending
  | tree, [] => (tree, [])
  | tree, top :: pending =>
    if level ≤ top.level then settle level (.node top.sign [top.left, tree]) pending
    else (tree, top :: pending)

section Settling

variable {level : Nat}

theorem settle_of_looser {pending : List Pending}
    (looser : ∀ top ∈ pending.head?, top.level < level) (tree : Tree) :
    settle level tree pending = (tree, pending) := by
  cases pending with
  | nil => rfl
  | cons top pending => rw [settle, if_neg (Nat.not_le.mpr (looser top rfl))]

theorem settle_looser (level : Nat) (tree : Tree) (pending : List Pending) :
    ∀ top ∈ (settle level tree pending).2.head?, top.level < level := by
  fun_induction settle level tree pending with
  | case1 => rintro _ ⟨⟩
  | case2 tree top pending tight ih => exact ih
  | case3 tree top pending loose =>
      intro other member
      cases member
      exact Nat.not_le.mp loose

theorem settle_suffix (level : Nat) (tree : Tree) (pending : List Pending) :
    (settle level tree pending).2 <:+ pending := by
  fun_induction settle level tree pending with
  | case1 => exact List.suffix_rfl
  | case2 tree top pending tight ih => exact ih.trans (List.suffix_cons top pending)
  | case3 => exact List.suffix_rfl

/-- Settling the tighter operators first changes nothing. -/
theorem settle_settle {low high : Nat} (order : low ≤ high) (tree : Tree)
    (pending : List Pending) :
    settle low (settle high tree pending).1 (settle high tree pending).2 =
      settle low tree pending := by
  fun_induction settle high tree pending with
  | case1 => rfl
  | case2 tree top pending tight ih =>
      rw [ih]
      conv => rhs; rw [settle, if_pos (Nat.le_trans order tight)]
  | case3 => rfl

/-- If all waiting operators bind as strongly as the level, none keeps waiting. -/
theorem settle_snd_eq_nil {pending : List Pending} (tight : ∀ top ∈ pending, level ≤ top.level)
    (tree : Tree) : (settle level tree pending).2 = [] := by
  induction pending generalizing tree with
  | nil => rfl
  | cons top pending ih =>
      rw [List.forall_mem_cons] at tight
      rw [settle, if_pos tight.1]
      exact ih tight.2 _

/-- **Releasing is settling.** -/
theorem release_settle {output : List PostfixItem} {tree : Tree} {pending : List Pending}
    (folds : Folds output (tree :: pending.map Pending.left)) (level : Nat) :
    ∃ output', Yard.release level output (pending.map Pending.waiting) =
        (output', (settle level tree pending).2.map Pending.waiting) ∧
      Folds output' ((settle level tree pending).1 ::
        (settle level tree pending).2.map Pending.left) := by
  induction pending generalizing output tree with
  | nil => exact ⟨output, rfl, folds⟩
  | cons top pending ih =>
      by_cases tight : level ≤ top.level
      · rw [List.map_cons, release_cons tight, settle, if_pos tight]
        exact ih (folds.operator top.sign)
      · rw [List.map_cons, Yard.release, settle, if_neg tight]
        exact ⟨output, if_neg tight, folds⟩

end Settling

/-! ## From the tightest level to the loosest one -/

section Climbing

variable (inner : Construct → Parser Tree)

/-- What is left to do with a tree of the tighter levels: in the loop of each looser level, the tree
is settled with the operator that waits there, and the loop goes on. -/
def climb : List Nat → List Nat → List Pending → Tree → Parser Tree
  | _, [], _, tree => return tree
  | tighter, level :: looser, pending, tree => do
    let settled := settle level tree pending
    let grown ← joinAll level (levelled inner tighter) settled.1
    climb (level :: tighter) looser settled.2 grown

/-- Levels at which nothing waits can be entered from outside. -/
theorem levelled_bind_climb {pending : List Pending} {entered : List Nat}
    (apart : ∀ top ∈ pending.head?, ∀ level ∈ entered, top.level < level)
    (tighter looser : List Nat) (sign : Option Token) :
    levelled inner tighter sign >>= climb inner tighter (entered ++ looser) pending =
      levelled inner (entered.reverse ++ tighter) sign >>=
        climb inner (entered.reverse ++ tighter) looser pending := by
  induction entered generalizing tighter with
  | nil => rfl
  | cons level entered ih =>
      have idle : ∀ top ∈ pending.head?, top.level < level :=
        fun top member => apart top member level List.mem_cons_self
      have rest := ih (fun top member level' member' =>
        apart top member level' (List.mem_cons_of_mem _ member')) (level :: tighter)
      rw [List.reverse_cons, List.append_assoc, List.singleton_append, ← rest, levelled, bind_assoc]
      refine bind_congr fun tree => ?_
      rw [List.cons_append, climb]
      simp only [settle_of_looser idle]

/-- With nothing waiting, climbing from an operand is parsing by levels. -/
theorem operandAfter_bind_climb (levels : List Nat) (sign : Option Token) :
    operandAfter inner sign >>= climb inner [] levels [] = levelled inner levels.reverse sign := by
  have none : ∀ top ∈ ([] : List Pending).head?, ∀ level ∈ levels, top.level < level := by
    rintro _ ⟨⟩
  have entered := levelled_bind_climb inner none [] [] sign
  rw [List.append_nil, List.append_nil] at entered
  exact entered.trans (bind_pure _)

variable {inner} {last : Token} {start : List Token}

/-- **Where an expression ends, climbing only builds the tree.** -/
theorem climb_of_stop (stop : ∀ level, ¬Joins level (Cursor.before last start).current)
    {tightest : List Nat} {loosest : Nat} (order : ∀ level ∈ tightest, loosest ≤ level)
    (tighter : List Nat) (tree : Tree) (pending : List Pending) :
    climb inner tighter (tightest ++ [loosest]) pending tree (.before last start) =
      .ok (settle loosest tree pending).1 (.before last start) := by
  induction tightest generalizing tighter tree pending with
  | nil =>
      rw [List.nil_append, climb]
      exact bind_of_ok (joinAll_of_stop (stop loosest) _)
  | cons level tightest ih =>
      rw [List.forall_mem_cons] at order
      rw [List.cons_append, climb]
      refine (bind_of_ok (joinAll_of_stop (stop level) _)).trans ?_
      rw [ih order.2, settle_settle order.1]

/-- **At an operator, climbing ends at its level.** -/
theorem climb_of_joins (closed : last.kind = .endOfInput) (reliable : Reliable inner) {sign : Token}
    {level : Nat} (joins : Joins level sign) {tightest : List Nat}
    (order : ∀ other ∈ tightest, level < other) (tighter looser : List Nat) (tree : Tree)
    (pending : List Pending) :
    climb inner tighter (tightest ++ level :: looser) pending tree (.before last (sign :: start)) =
      (levelled inner (tightest.reverse ++ tighter) (some sign) >>=
        climb inner (tightest.reverse ++ tighter) (level :: looser)
          (⟨sign, level, (settle level tree pending).1⟩ :: (settle level tree pending).2))
        (.before last start) := by
  induction tightest generalizing tighter tree pending with
  | nil =>
      -- the loop of this level takes the operator, which then waits until its operand is read
      rw [List.nil_append, climb]
      refine (bind_eq_bind_of_eq (joinAll_of_joins closed (levelled_progresses reliable tighter)
        joins _) _).trans ?_
      rw [bind_assoc]
      refine congrFun (bind_congr fun right => ?_) _
      rw [List.reverse_nil, List.nil_append, climb, settle, if_pos (Nat.le_refl level),
        settle_of_looser (settle_looser level tree pending)]
  | cons other tightest ih =>
      rw [List.forall_mem_cons] at order
      have apart : ¬Joins other (Cursor.before last (sign :: start)).current := by
        intro joins'
        exact absurd (eq_of_mem_joining joins.2 joins'.2) (Nat.ne_of_lt order.1)
      -- a tighter loop ends before the operator
      rw [List.cons_append, climb]
      refine (bind_of_ok (joinAll_of_stop apart _)).trans ?_
      rw [ih order.2, settle_settle (Nat.le_of_lt order.1), List.reverse_cons, List.append_assoc,
        List.singleton_append]

end Climbing

/-! ## The sorting is a climb -/

section Comparison

/-- The level of an operator is one of the three, and the tighter ones come before it. -/
theorem exists_levels_eq (operator : Operator) :
    ∃ tightest looser, [3, 2, 1] = tightest ++ operator.level :: looser ∧
      ∀ other ∈ tightest, operator.level < other := by
  cases operator with
  | times | divide => exact ⟨[], [2, 1], rfl, by decide⟩
  | plus | minus => exact ⟨[3], [1], rfl, by decide⟩
  | equal | unequal | both | either => exact ⟨[3, 2], [], rfl, by decide⟩

theorem Operator.one_le_level (operator : Operator) : 1 ≤ operator.level := by
  cases operator <;> decide

variable (inner : Construct → Parser Tree) (last first : Token)

/-- What the loops of the levels have yet to do, in a state of the sorting of an expression that
begins with the token `first`. -/
inductive Remaining : List Token → Yard → Parser Tree → Prop where
  | operand {here : List Token} {output : List PostfixItem} {pending : List Pending} :
      Folds output (pending.map Pending.left) → (∀ top ∈ pending, 1 ≤ top.level) →
        (pending = [] → (Cursor.before last here).current = first) →
          Remaining here ⟨output, pending.map Pending.waiting, true⟩
            (operandAfter inner (pending.head?.map Pending.sign) >>=
              climb inner [] [3, 2, 1] pending)
  | operator {here : List Token} {output : List PostfixItem} {pending : List Pending}
      {tree : Tree} :
      Folds output (tree :: pending.map Pending.left) → (∀ top ∈ pending, 1 ≤ top.level) →
        Remaining here ⟨output, pending.map Pending.waiting, false⟩
          (climb inner [] [3, 2, 1] pending tree)

variable {inner last first}

/-- When an operator is read, what remains is its right operand and the climb from there. -/
theorem Remaining.of_sign {output : List PostfixItem} {pending : List Pending} {tree : Tree}
    (folds : Folds output (tree :: pending.map Pending.left))
    (positive : ∀ top ∈ pending, 1 ≤ top.level) (sign : Token) (operator : Operator)
    (here : List Token) :
    Remaining inner last first here
      (Yard.operator ⟨output, pending.map Pending.waiting, false⟩ sign operator.level)
      (operandAfter inner (some sign) >>= climb inner [] [3, 2, 1]
        (⟨sign, operator.level, (settle operator.level tree pending).1⟩ ::
          (settle operator.level tree pending).2)) := by
  obtain ⟨output', released, folds'⟩ := release_settle folds operator.level
  have later := settle_suffix operator.level tree pending
  rw [Yard.operator, released]
  exact @Remaining.operand _ _ _ _ _
    (⟨sign, operator.level, (settle operator.level tree pending).1⟩ :: _) folds'
    (List.forall_mem_cons.mpr ⟨Operator.one_le_level operator,
      fun top member => positive top (later.subset member)⟩) (by rintro ⟨⟩)

/-- At an operator, climbing is to read it with its right operand and to climb from there. -/
theorem climb_of_operator (closed : last.kind = .endOfInput) (reliable : Reliable inner)
    {sign : Token} {operator : Operator} (isOperator : sign.kind = .operator)
    (named : Operator.ofText? sign.text = some operator) (pending : List Pending) (tree : Tree)
    (here : List Token) :
    climb inner [] [3, 2, 1] pending tree (.before last (sign :: here)) =
      (operandAfter inner (some sign) >>= climb inner [] [3, 2, 1]
        (⟨sign, operator.level, (settle operator.level tree pending).1⟩ ::
          (settle operator.level tree pending).2)) (.before last here) := by
  obtain ⟨tightest, looser, split, order⟩ := exists_levels_eq operator
  have joins : Joins operator.level sign := ⟨isOperator, mem_joining named⟩
  rw [split, climb_of_joins closed reliable joins order]
  refine congrFun (levelled_bind_climb inner ?_ [] _ _).symm _
  intro top member other tighter
  cases member
  exact order other tighter

/-- A finished sorting resolves to the tree that the climb builds. -/
theorem resolve_of_tree {output : List PostfixItem} {tree : Tree} {pending : List Pending}
    {here : List Token} (folds : Folds output (tree :: pending.map Pending.left))
    (positive : ∀ top ∈ pending, 1 ≤ top.level)
    (noOperator : ¬(Cursor.before last here).current.kind = .operator) :
    resolve first ⟨output, pending.map Pending.waiting, false⟩ (.before last here) =
      climb inner [] [3, 2, 1] pending tree (.before last here) := by
  have order : ∀ level ∈ [3, 2], 1 ≤ level := by decide
  refine Eq.trans ?_
    (climb_of_stop (fun level joins => noOperator joins.1) order [] tree pending).symm
  obtain ⟨output', released, folds'⟩ := release_settle folds 1
  rw [settle_snd_eq_nil positive] at released folds'
  have items : Yard.postfixItems ⟨output, pending.map Pending.waiting, false⟩ = output'.reverse :=
    postfixItems_eq released
  rw [resolve, items, foldPostfix, show foldOnto [] output'.reverse = _ from folds']
  cases pending <;> rfl

/-- An unfinished sorting is refused like a missing operand. -/
theorem resolve_of_missing {output : List PostfixItem} {pending : List Pending} {here : List Token}
    (folds : Folds output (pending.map Pending.left))
    (begins : pending = [] → (Cursor.before last here).current = first)
    (noOperand : ¬(Cursor.before last here).current.kind.startsOperand = true)
    (noOperator : ¬(Cursor.before last here).current.kind = .operator)
    (next : Tree → Parser Tree) :
    resolve first ⟨output, pending.map Pending.waiting, true⟩ (.before last here) =
      (operandAfter inner (pending.head?.map Pending.sign) >>= next) (.before last here) := by
  rw [operandAfter, bind_assoc, bind_of_ok (peek_before last here), if_neg noOperand,
    if_neg noOperator]
  cases pending with
  | cons top pending => rfl
  | nil =>
      have items : Yard.postfixItems ⟨output, [], true⟩ = output.reverse := by
        simp [Yard.postfixItems]
      rw [resolve, List.map_nil, items, foldPostfix,
        show foldOnto [] output.reverse = _ from folds, ← begins rfl]
      rfl

/-- **Sorting does what remains.** -/
theorem sortRun_bind_resolve (closed : last.kind = .endOfInput) (reliable : Reliable inner)
    (rounds : Nat) : ∀ {here : List Token} {yard : Yard} {parser : Parser Tree},
    here.length < rounds →
    (∀ token ∈ here, token.kind = .operator → Operator.ofText? token.text ≠ none) →
    Remaining inner last first here yard parser →
    (sortRun inner rounds yard >>= resolve first) (.before last here) =
      parser (.before last here) := by
  induction rounds with
  | zero => exact fun enough => absurd enough (Nat.not_lt_zero _)
  | succ rounds ih =>
      intro here yard parser enough known remaining
      rw [sortRun, bind_assoc, bind_of_ok (peek_before last here)]
      -- the next token decides in both parsers: an operand, an operator or the end
      by_cases starts : (Cursor.before last here).current.kind.startsOperand = true
      · cases remaining with
        | operand folds positive begins =>
            rw [if_pos starts, if_pos rfl, operandAfter, bind_assoc, bind_assoc,
              bind_of_ok (peek_before last here), if_pos starts]
            refine bind_eq_bind rfl fun tree cursor ran => ?_
            have parses := (reliable last closed).1 .operand here fun _ => starts
            rw [Parses, ran] at parses
            obtain ⟨rest, rfl, later, derived⟩ := parses
            have shorter := derived.length_le
            rw [List.length_singleton] at shorter
            exact ih (by omega) (fun token member => known token (later.subset member))
              (.operator (folds.operand tree) positive)
        | operator folds positive =>
            rw [if_pos starts]
            refine resolve_of_tree folds positive fun isOperator => ?_
            rw [isOperator] at starts
            cases starts
      · rw [if_neg starts]
        by_cases found : (Cursor.before last here).current.kind = .operator
        · obtain ⟨sign, rest, rfl, isOperator⟩ := exists_cons_of_current closed (by decide) found
          rw [if_pos found]
          cases remaining with
          | operand folds positive begins =>
              rw [if_pos rfl, operandAfter, bind_assoc, bind_of_ok (peek_before last _),
                if_neg starts, if_pos found]
              rfl
          | operator folds positive =>
              rw [List.forall_mem_cons] at known
              obtain ⟨operator, named⟩ := Option.ne_none_iff_exists'.mp (known.1 isOperator)
              rw [if_neg Bool.false_ne_true, climb_of_operator closed reliable isOperator named]
              simp only [Cursor.current_before_cons, named, bind_assoc]
              rw [bind_of_ok (advance_before_cons (by rw [isOperator]; decide) last rest)]
              rw [List.length_cons] at enough
              exact ih (by omega) known.2 (.of_sign folds positive sign operator rest)
        · rw [if_neg found]
          cases remaining with
          | operand folds positive begins =>
              exact resolve_of_missing folds begins starts found _
          | operator folds positive => exact resolve_of_tree folds positive found

end Comparison

/-- **Both parsers for expressions do the same.** -/
theorem expression_eq {inner : Construct → Parser Tree} (reliable : Reliable inner) {last : Token}
    (closed : last.kind = .endOfInput) {here : List Token}
    (known : ∀ token ∈ here, token.kind = .operator → Operator.ofText? token.text ≠ none) :
    expression inner (.before last here) = stratified inner (.before last here) := by
  have empty : Remaining inner last (Cursor.before last here).current here .empty
      (operandAfter inner none >>= climb inner [] [3, 2, 1] []) :=
    @Remaining.operand _ _ _ _ [] [] rfl (by rintro _ ⟨⟩) fun _ => rfl
  rw [expression, bind_of_ok (peek_before last here), bind_of_ok (bound_before last here),
    sortRun_bind_resolve closed reliable _ (Nat.lt_succ_self _) known empty,
    operandAfter_bind_climb]
  rfl

/-! ## Failures and folding -/

/-- Where all operators are known, an ordinary failure is a refused token, or the limit is
reached. -/
theorem ordinary_cases {tokens : List Token}
    (known : ∀ token ∈ tokens, token.kind = .operator → Operator.ofText? token.text ≠ none)
    {failure : Failure} (ordinary : Ordinary tokens failure) :
    (∃ token, failure = .tooDeep token) ∨
      ∃ fault token, failure = .rejected fault token ∧ fault ≠ .unresolvedExpression := by
  cases failure with
  | rejected fault token => exact .inr ⟨fault, token, rfl, ordinary⟩
  | tooDeep token => exact .inl ⟨token, rfl⟩
  | broken defect =>
      cases defect with
      | unknownOperator text =>
          obtain ⟨token, member, isOperator, same, unknown⟩ := ordinary
          exact absurd (same ▸ unknown) (known token member isOperator)
      | missingEnd | underflow _ | stalled => cases ordinary

/-- Where the postfix sequence of a sorting is folded, it leaves at most one tree. -/
theorem Sorted.exists_foldOnto {origin here : List Token} {yard : Yard}
    (sorted : Sorted origin here yard) (ready : yard.wantsOperand = true → yard.waiting = []) :
    ∃ stack, foldOnto [] yard.postfixItems = .ok stack ∧ stack.length ≤ 1 := by
  have answer : (∃ tree, foldPostfix yard.postfixItems (.endAt 0) = .ok tree) ∨
      foldPostfix yard.postfixItems (.endAt 0) =
        .error (.rejected (.missingExpression .endOfInput) (.endAt 0)) := by
    cases wants : yard.wantsOperand with
    | false =>
        obtain ⟨tree, folded, -⟩ := sorted.foldPostfix_eq wants (.endAt 0)
        exact .inl ⟨tree, folded⟩
    | true => exact .inr (sorted.foldPostfix_eq_error wants (ready wants) (.endAt 0))
  unfold foldPostfix at answer
  split at answer
  · simp at answer
  · next folded => exact ⟨[], folded, Nat.zero_le 1⟩
  · next tree folded => exact ⟨[tree], folded, Nat.le_refl 1⟩
  · simp at answer

/-- **The parser for expressions is the parser by levels.** In every list of tokens that is closed
by an end of input and whose operator tokens are operators, at every position and within every limit
on the nesting, both give the same tree and stop at the same token, or both fail in the same way. If
they fail, the limit is reached or a token is refused, and never because the expression leaves more
than one tree. Wherever the sorting ends with an operand or with no operator that waits, folding its
postfix sequence finds all operands and leaves at most one tree. -/
theorem expression_eq_stratified (depth : Nat) {last : Token} (closed : last.kind = .endOfInput)
    {tokens : List Token}
    (known : ∀ token ∈ tokens, token.kind = .operator → Operator.ofText? token.text ≠ none)
    (position : Nat) :
    let cursor := Cursor.before last (tokens.drop position)
    expression (nested depth) cursor = stratified (nested depth) cursor ∧
    (∀ failure stopped, expression (nested depth) cursor = .error failure stopped →
      (∃ token, failure = .tooDeep token) ∨
        ∃ fault token, failure = .rejected fault token ∧ fault ≠ .unresolvedExpression) ∧
    ∀ yard stopped, sortRun (nested depth) cursor.remaining .empty cursor = .ok yard stopped →
      (yard.wantsOperand = true → yard.waiting = []) →
        ∃ stack, foldOnto [] yard.postfixItems = .ok stack ∧ stack.length ≤ 1 := by
  intro cursor
  have knownHere : ∀ token ∈ tokens.drop position, token.kind = .operator →
      Operator.ofText? token.text ≠ none :=
    fun token member => known token (List.mem_of_mem_drop member)
  have sound := nested_sound closed depth
  refine ⟨expression_eq (nested_reliable depth) closed knownHere, ?_, ?_⟩
  · intro failure stopped failed
    have ordinary := expression_sound closed sound (tokens.drop position)
    rw [Parses, failed] at ordinary
    exact ordinary_cases knownHere ordinary
  · intro yard stopped sorting ready
    have parses := sortRun_parses closed sound (tokens.drop position) cursor.remaining .empty
      (tokens.drop position) (by rw [Cursor.remaining_before]; exact Nat.lt_succ_self _)
      (sorted_empty _)
    rw [Parses, sorting] at parses
    obtain ⟨rest, -, -, sorted⟩ := parses
    exact sorted.exists_foldOnto ready

/-- The expression after the assignment sign in `y = a - b * c == f(d) e`: it is parsed by levels,
up to the operand that follows an operand. -/
theorem expression_eq_stratified_comparison :
    let tokens : List Token := [⟨.identifier, "y", 0, false⟩, ⟨.assign, "=", 2, false⟩,
      ⟨.identifier, "a", 4, false⟩, ⟨.operator, "-", 6, false⟩, ⟨.identifier, "b", 8, false⟩,
      ⟨.operator, "*", 10, false⟩, ⟨.identifier, "c", 12, false⟩, ⟨.operator, "==", 14, false⟩,
      ⟨.identifier, "f", 17, false⟩, ⟨.openParen, "(", 18, false⟩, ⟨.identifier, "d", 19, false⟩,
      ⟨.closeParen, ")", 20, false⟩, ⟨.identifier, "e", 22, false⟩]
    (∀ token ∈ tokens, token.kind = .operator → Operator.ofText? token.text ≠ none) ∧
    stratified (nested 4) (.before (.endAt 23) (tokens.drop 2)) =
      .ok (.node ⟨.operator, "==", 14, false⟩
        [.node ⟨.operator, "-", 6, false⟩ [.leaf ⟨.identifier, "a", 4, false⟩,
          .node ⟨.operator, "*", 10, false⟩
            [.leaf ⟨.identifier, "b", 8, false⟩, .leaf ⟨.identifier, "c", 12, false⟩]],
          .node ⟨.call, "f", 17, false⟩ [.leaf ⟨.identifier, "d", 19, false⟩]])
        (.before (.endAt 23) [⟨.identifier, "e", 22, false⟩]) := by
  intro tokens
  have known : ∀ token ∈ tokens, token.kind = .operator → Operator.ofText? token.text ≠ none := by
    decide
  refine ⟨known, ?_⟩
  have closed : (Token.endAt 23).kind = .endOfInput := rfl
  rw [← (expression_eq_stratified 4 closed known 2).1]
  decide +kernel

end Grammar

end BraceLang
