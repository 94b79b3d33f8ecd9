/-!
# Actions on a state

Evaluation and parsing are both actions that change a state and give a value or fail, and that keep
the state when they fail. Here is what the composition of two such actions does, read forwards
(`bind_of_ok`, `bind_of_error`) and backwards (`of_bind_eq_ok`), and to the state that an action
leaves (`after`).

An action upholds an invariant of states if it leaves such a state whenever it starts from one,
while its value or its failure has a property (`Upholds`). Compositions do if their parts do.
-/

set_option autoImplicit false

namespace BraceLang

namespace Effect

variable {ε σ α β : Type}

/-- Whether two outcomes are the same can be decided. -/
instance decideResult [DecidableEq ε] [DecidableEq σ] [DecidableEq α] :
    DecidableEq (EStateM.Result ε σ α)
  | .ok value last, .ok value' last' =>
    decidable_of_iff (value = value' ∧ last = last') (by simp)
  | .error failure last, .error failure' last' =>
    decidable_of_iff (failure = failure' ∧ last = last') (by simp)
  | .ok _ _, .error _ _ => isFalse (by simp)
  | .error _ _, .ok _ _ => isFalse (by simp)

/-- The state that an action leaves, whether it gives a value or fails. -/
def after (action : EStateM ε σ α) (state : σ) : σ :=
  match action state with
  | .ok _ last => last
  | .error _ last => last

theorem after_of_ok {action : EStateM ε σ α} {state last : σ} {value : α}
    (ran : action state = .ok value last) : after action state = last := by
  rw [after, ran]

theorem after_of_error {action : EStateM ε σ α} {state last : σ} {failure : ε}
    (ran : action state = .error failure last) : after action state = last := by
  rw [after, ran]

/-- After an action that gives a value, the next one starts where it ended. -/
theorem bind_of_ok {action : EStateM ε σ α} {next : α → EStateM ε σ β} {state middle : σ}
    {value : α} (ran : action state = .ok value middle) :
    (action >>= next) state = next value middle := by
  show EStateM.bind action next state = _
  rw [EStateM.bind, ran]

/-- After an action that fails, nothing is done. -/
theorem bind_of_error {action : EStateM ε σ α} {next : α → EStateM ε σ β} {state last : σ}
    {failure : ε} (ran : action state = .error failure last) :
    (action >>= next) state = .error failure last := by
  show EStateM.bind action next state = _
  rw [EStateM.bind, ran]

/-- Two compositions do the same in a state in which their first actions do, if from there on their
second actions do. -/
theorem bind_eq_bind {action action' : EStateM ε σ α} {next next' : α → EStateM ε σ β} {state : σ}
    (first : action state = action' state)
    (rest : ∀ value middle, action state = .ok value middle →
      next value middle = next' value middle) :
    (action >>= next) state = (action' >>= next') state := by
  cases ran : action state with
  | ok value middle =>
      rw [bind_of_ok ran, bind_of_ok (first.symm.trans ran)]
      exact rest value middle ran
  | error failure last => rw [bind_of_error ran, bind_of_error (first.symm.trans ran)]

/-- Two compositions with the same second action do the same, each in its state, if their first
actions do. -/
theorem bind_eq_bind_of_eq {action action' : EStateM ε σ α} {state state' : σ}
    (first : action state = action' state') (next : α → EStateM ε σ β) :
    (action >>= next) state = (action' >>= next) state' := by
  show EStateM.bind action next state = EStateM.bind action' next state'
  rw [EStateM.bind, EStateM.bind, first]

/-- Two actions that each leave a state as it is leave it so together. -/
theorem after_bind_eq {action : EStateM ε σ α} {next : α → EStateM ε σ β} {state : σ}
    (first : after action state = state) (rest : ∀ value, after (next value) state = state) :
    after (action >>= next) state = state := by
  cases ran : action state with
  | ok value middle =>
      obtain rfl : middle = state := (after_of_ok ran).symm.trans first
      rw [after, bind_of_ok ran]
      exact rest value
  | error failure last =>
      obtain rfl : last = state := (after_of_error ran).symm.trans first
      exact after_of_error (bind_of_error ran)

/-- If two actions give a value, so does the first one. -/
theorem of_bind_eq_ok {action : EStateM ε σ α} {next : α → EStateM ε σ β} {state last : σ}
    {result : β} (ran : (action >>= next) state = .ok result last) :
    ∃ value middle, action state = .ok value middle ∧ next value middle = .ok result last := by
  cases first : action state with
  | ok value middle => exact ⟨value, middle, rfl, by rwa [bind_of_ok first] at ran⟩
  | error failure middle => rw [bind_of_error first] at ran; cases ran

/-! ## Invariants -/

/-- From a state with the invariant, the action comes to a state with the invariant, and its value
or its failure has a property. -/
def Upholds (invariant : σ → Prop) (fails : ε → Prop) (action : EStateM ε σ α) (post : α → Prop) :
    Prop :=
  ∀ state, invariant state →
    match action state with
    | .ok value last => invariant last ∧ post value
    | .error failure last => invariant last ∧ fails failure

namespace Upholds

variable {invariant : σ → Prop} {fails : ε → Prop}

theorem value {value : α} {post : α → Prop} (holds : post value) :
    Upholds invariant fails (pure value) post :=
  fun _ kept => ⟨kept, holds⟩

theorem throw {failure : ε} (allowed : fails failure) (post : α → Prop) :
    Upholds invariant fails (throw failure) post :=
  fun _ kept => ⟨kept, allowed⟩

theorem bind {action : EStateM ε σ α} {next : α → EStateM ε σ β} {middle : α → Prop}
    {post : β → Prop} (first : Upholds invariant fails action middle)
    (second : ∀ value, middle value → Upholds invariant fails (next value) post) :
    Upholds invariant fails (action >>= next) post := by
  intro state kept
  have done := first state kept
  cases ran : action state with
  | ok value last =>
      rw [ran] at done
      rw [bind_of_ok ran]
      exact second value done.2 last done.1
  | error failure last =>
      rw [ran] at done
      rw [bind_of_error ran]
      exact done

end Upholds

end Effect

end BraceLang
