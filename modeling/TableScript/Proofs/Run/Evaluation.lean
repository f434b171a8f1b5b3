import TableScript.Proofs.Run.Errors
import TableScript.Proofs.Run.Fuel
import TableScript.Proofs.Value

namespace TableScript

/-! Rules for evaluating code, without fuel.  What a construct evaluates to follows
from what its parts evaluate to, and it evaluates to one result only. -/

/-! ### Work with enough fuel -/

namespace Outcome

variable {α : Type} {outcome : Outcome α} {after : State}

theorem ended?_eq_ok_iff {value : α} :
    outcome.ended? = some (.ok value, after) ↔ outcome = .done value after := by
  cases outcome <;> simp [ended?]

theorem ended?_eq_error_iff {error : Error} :
    outcome.ended? = some (.error error, after) ↔ outcome = .failed error after := by
  cases outcome <;> simp [ended?]

theorem ended?_ofExcept (result : Except Error α) (state : State) :
    (ofExcept result state).ended? = some (result, state) := by
  cases result <;> rfl

theorem ended?_ofRun (result : Except RunFault α) (state : State) :
    (ofRun result state).ended? = some (result.mapError Error.runtime, state) := by
  cases result <;> rfl

theorem ofRun_eq_done {result : Except RunFault α} {state : State} {value : α}
    (done : ofRun result state = .done value after) : result = .ok value ∧ state = after := by
  cases result with
  | error fault => cases done
  | ok other =>
      cases done
      exact ⟨rfl, rfl⟩

end Outcome

namespace Run

variable {run : Evaluator} {code : Code} {state after : State}

theorem integer_eq_done {n : Int} (done : integer run code state = .done n after) :
    ∃ value, run code state = .done value after ∧ Value.integer value = .ok n := by
  obtain ⟨value, middle, reached, done⟩ := Outcome.andThen_eq_done done
  obtain ⟨read, rfl⟩ := Outcome.ofRun_eq_done done
  exact ⟨value, reached, read⟩

theorem condition_eq_done {holds : Bool} (done : condition run code state = .done holds after) :
    ∃ value, run code state = .done value after ∧ Value.truth value = .ok holds := by
  obtain ⟨value, middle, reached, done⟩ := Outcome.andThen_eq_done done
  obtain ⟨read, rfl⟩ := Outcome.ofRun_eq_done done
  exact ⟨value, reached, read⟩

end Run

namespace Settles

variable {α β : Type} {work whole : Nat → Outcome α} {next : Nat → α → State → Outcome β}
  {value : α} {result other : Except Error α} {middle after last : State}

theorem unique (one : Settles work result after) (two : Settles work other last) :
    result = other ∧ after = last := by
  obtain ⟨enough, ends⟩ := one
  obtain ⟨plenty, again⟩ := two
  have same := ends (max enough plenty) (Nat.le_max_left _ _)
  rw [again (max enough plenty) (Nat.le_max_right _ _)] at same
  cases same
  exact ⟨rfl, rfl⟩

theorem eventually_done (settles : Settles work (.ok value) after) :
    ∃ enough, ∀ fuel, enough ≤ fuel → work fuel = .done value after := by
  obtain ⟨enough, ends⟩ := settles
  exact ⟨enough, fun fuel more => Outcome.ended?_eq_ok_iff.mp (ends fuel more)⟩

theorem of_ended (ended : ∀ fuel, (work fuel).ended? = some (result, after)) :
    Settles work result after :=
  ⟨0, fun fuel _ => ended fuel⟩

/-- A construct takes one unit of fuel more than the work it consists of. -/
theorem succ (settles : Settles work result after) (step : ∀ fuel, whole (fuel + 1) = work fuel) :
    Settles whole result after := by
  obtain ⟨enough, ends⟩ := settles
  refine ⟨enough + 1, fun fuel more => ?_⟩
  obtain ⟨less, rfl⟩ : ∃ less, fuel = less + 1 := ⟨fuel - 1, by omega⟩
  rw [step]
  exact ends less (by omega)

theorem andThen {result : Except Error β} (first : Settles work (.ok value) middle)
    (later : Settles (fun fuel => next fuel value middle) result after) :
    Settles (fun fuel => (work fuel).andThen (next fuel)) result after := by
  obtain ⟨enough, done⟩ := first.eventually_done
  obtain ⟨plenty, continued⟩ := later
  refine ⟨max enough plenty, fun fuel more => ?_⟩
  simp only [done fuel (by omega), Outcome.andThen]
  exact continued fuel (by omega)

theorem andThen_error {error : Error} (first : Settles work (.error error) after) :
    Settles (fun fuel => (work fuel).andThen (next fuel)) (.error error) after := by
  obtain ⟨enough, ends⟩ := first
  refine ⟨enough, fun fuel more => ?_⟩
  have failed := Outcome.ended?_eq_error_iff.mp (ends fuel more)
  simp only [failed, Outcome.andThen]
  rfl

end Settles

theorem settles_ofExcept {α : Type} (result : Except Error α) (state : State) :
    Settles (fun _ => .ofExcept result state) result state :=
  .of_ended fun _ => Outcome.ended?_ofExcept result state

theorem settles_ofRun {α : Type} (result : Except RunFault α) (state : State) :
    Settles (fun _ => .ofRun result state) (result.mapError Error.runtime) state :=
  .of_ended fun _ => Outcome.ended?_ofRun result state

/-! ### Constructs -/

theorem State.register_setRegister (state : State) (register value : String) :
    (state.setRegister register value).store.register register = .ok value := by
  simp [setRegister, note, Store.setRegister, Store.register]

namespace Code

theorem evaluates_literal (value : String) (state : State) :
    (Code.literal value).Evaluates state (.ok value) state :=
  .succ (.of_ended fun _ => rfl) fun _ => rfl

theorem evaluates_register (index : String) (state : State) :
    (Code.register index).Evaluates state (state.store.register index) state :=
  .succ (settles_ofExcept _ _) fun _ => rfl

namespace Evaluates

variable {code left right : Code} {state middle after : State} {value first second : String}

theorem setRegister (evaluated : code.Evaluates state (.ok value) after) (index : String) :
    (Code.setRegister index code).Evaluates state (.ok value) (after.setRegister index value) :=
  .succ (Settles.andThen evaluated (.of_ended fun _ => rfl)) fun _ => rfl

theorem integer (evaluated : code.Evaluates state (.ok value) after) :
    Settles (fun fuel => Run.integer (eval fuel) code state)
      ((Value.integer value).mapError Error.runtime) after :=
  Settles.andThen evaluated (settles_ofRun _ _)

theorem condition (evaluated : code.Evaluates state (.ok value) after) :
    Settles (fun fuel => Run.condition (eval fuel) code state)
      ((Value.truth value).mapError Error.runtime) after :=
  Settles.andThen evaluated (settles_ofRun _ _)

/-- Arithmetic gives what it gives for the texts of its operands.  The right one is
left out if the left one is no integer. -/
theorem arithmetic (op : Arithmetic) (leftValue : left.Evaluates state (.ok first) middle)
    (rightValue : right.Evaluates middle (.ok second) after) :
    ∃ last, (Code.arithmetic op left right).Evaluates state
        ((op.compute first second).mapError Error.runtime) last ∧
      ∀ m, Value.integer first = .ok m → last = after := by
  have leftRead := leftValue.integer
  have rightRead := rightValue.integer
  unfold Arithmetic.compute
  cases read : Value.integer first with
  | error fault =>
      rw [read] at leftRead
      exact ⟨middle, .succ (Settles.andThen_error leftRead) fun _ => rfl, nofun⟩
  | ok m =>
      rw [read] at leftRead
      refine ⟨after, ?_, fun _ _ => rfl⟩
      refine .succ (Settles.andThen leftRead ?_) fun _ => rfl
      cases readRight : Value.integer second with
      | error fault =>
          rw [readRight] at rightRead
          exact Settles.andThen_error rightRead
      | ok n =>
          rw [readRight] at rightRead
          exact Settles.andThen rightRead (settles_ofRun _ _)

theorem compare (op : Comparison) (leftValue : left.Evaluates state (.ok first) middle)
    (rightValue : right.Evaluates middle (.ok second) after) :
    (Code.compare op left right).Evaluates state
      (((op.holds first second).map Value.ofBool).mapError Error.runtime) after :=
  .succ (Settles.andThen leftValue (Settles.andThen rightValue (settles_ofRun _ _))) fun _ => rfl

end Evaluates

/-! ### Statements -/

/-- With enough fuel, statements that are run one after the other end with a result and
a state. -/
def Runs (statements : List Code) (state : State) : Except Error String → State → Prop :=
  Settles fun fuel => Run.body (eval fuel) statements "" state

variable {statements : List Code} {state middle after : State} {value : String}
  {result : Except Error String}

theorem runs_of_ended {fuel : Nat}
    (ended : (Run.body (eval fuel) statements "" state).ended? = some (result, after)) :
    Runs statements state result after := by
  refine ⟨fuel, fun more enough => ?_⟩
  have agree := eval_alongside Run.lockstep_same (.inr ⟨trivial, enough⟩)
  have alike : Run.Same () state state := rfl
  exact (agree.body trivial alike statements "").of_ended ended

theorem runs_pair {code other : Code} {second : String}
    (first : code.Evaluates state (.ok value) middle)
    (later : other.Evaluates middle (.ok second) after) :
    Runs [code, other] state (.ok second) after :=
  Settles.andThen first (Settles.andThen later (.of_ended fun _ => rfl))

end Code

end TableScript
