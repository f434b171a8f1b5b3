import TableScript.Proofs.Run.Evaluation
import TableScript.Proofs.Run.Limit

namespace TableScript

/-! Rules for operands, branches and calls, without fuel, also where a part of a construct
fails.  A call runs the body of its function in a state that is entered before and left
after it; both are said here for bodies that change nothing but registers. -/

namespace Settles

variable {work : Nat → Outcome String} {result : Except Error String} {after last : State}

/-- A call ends as its body does, if the scope can be taken away. -/
theorem leave (settles : Settles work result after)
    (released : Run.release after = (.ok (), last)) :
    Settles (fun fuel => Run.leave (work fuel)) result last := by
  obtain ⟨enough, ends⟩ := settles
  refine ⟨enough, fun fuel more => ?_⟩
  have ended := ends fuel more
  cases result with
  | ok value =>
      simp only [Outcome.ended?_eq_ok_iff.mp ended, Run.leave, released]
      rfl
  | error error =>
      simp only [Outcome.ended?_eq_error_iff.mp ended, Run.leave, released]
      rfl

end Settles

/-! ### Operands -/

namespace Code

theorem evaluates_parameter (name : String) (state : State) :
    (Code.parameter name).Evaluates state (state.store.parameter name) state :=
  .succ (settles_ofExcept _ _) fun _ => rfl

variable {code left right test : Code} {body others arguments : List Code}
  {state middle after : State} {value first second : String} {values : List String}
  {result : Except Error String} {error : Error}

namespace Evaluates

/-- Operands that are integers give the exact result, if this is defined. -/
theorem arithmetic_exact {op : Arithmetic} {m n number : Int}
    (leftValue : left.Evaluates state (.ok first) middle) (leftRead : Value.integer first = .ok m)
    (rightValue : right.Evaluates middle (.ok second) after)
    (rightRead : Value.integer second = .ok n) (defined : op.Defined m n)
    (exact : op.Exact m n number) :
    (Code.arithmetic op left right).Evaluates state (.ok (Number.write number)) after := by
  obtain ⟨_, computed, reached⟩ := leftValue.arithmetic op rightValue
  cases reached m leftRead
  have applied : op.apply m n = .ok number :=
    (Arithmetic.apply_eq_ok_iff (Value.fits_of_integer leftRead)).mpr ⟨defined, exact⟩
  rwa [Arithmetic.compute_of_integers leftRead rightRead, applied] at computed

/-- The left operand is an integer, so that the right one is run and fails. -/
theorem arithmetic_error (op : Arithmetic) {m : Int}
    (leftValue : left.Evaluates state (.ok first) middle) (read : Value.integer first = .ok m)
    (failed : right.Evaluates middle (.error error) after) :
    (Code.arithmetic op left right).Evaluates state (.error error) after := by
  have leftRead := leftValue.integer
  rw [read] at leftRead
  have rightFailed : Settles (fun fuel => Run.integer (eval fuel) right middle)
      (.error error) after := Settles.andThen_error failed
  exact .succ (Settles.andThen leftRead (Settles.andThen_error rightFailed)) fun _ => rfl

theorem setRegister_error (failed : code.Evaluates state (.error error) after) (index : String) :
    (Code.setRegister index code).Evaluates state (.error error) after :=
  .succ (Settles.andThen_error failed) fun _ => rfl

/-! ### Branches -/

theorem branch_true (tested : test.Evaluates state (.ok "true") middle)
    (ran : Runs body middle result after) :
    (Code.branch test body).Evaluates state result after := by
  have chosen : Settles (fun fuel =>
      (fun holds state => if holds then Run.body (eval fuel) body "" state else .done "" state)
        true middle) result after := ran
  exact .succ (Settles.andThen tested.condition chosen) fun _ => rfl

theorem branch_false (tested : test.Evaluates state (.ok "false") after) :
    (Code.branch test body).Evaluates state (.ok "") after :=
  .succ (Settles.andThen tested.condition (.of_ended fun _ => rfl)) fun _ => rfl

/-! ### Statements and arguments -/

/-- A first statement hands its value on to the others, which have no use for it unless
there are none. -/
theorem runs_cons (evaluated : code.Evaluates state (.ok value) middle)
    (later : Settles (fun fuel => Run.body (eval fuel) others value middle) result after) :
    Runs (code :: others) state result after :=
  Settles.andThen evaluated later

theorem runs_error (failed : code.Evaluates state (.error error) after) (others : List Code) :
    Runs (code :: others) state (.error error) after :=
  Settles.andThen_error failed

theorem runs_singleton (evaluated : code.Evaluates state result after) :
    Runs [code] state result after := by
  cases result with
  | ok value => exact evaluated.runs_cons (.of_ended fun _ => rfl)
  | error error => exact evaluated.runs_error []

theorem values_singleton (evaluated : code.Evaluates state (.ok value) after) :
    Settles (fun fuel => Run.values (eval fuel) [code] state) (.ok [value]) after :=
  Settles.andThen evaluated (.of_ended fun _ => rfl)

end Evaluates

/-! ### Calls -/

/-- A call gives what the function returns that is found once the arguments are run. -/
theorem evaluates_call {index : String} {routine : Routine}
    (given : Settles (fun fuel => Run.values (eval fuel) arguments state) (.ok values) middle)
    (found : middle.store.function index = .ok routine)
    (returned : routine.Returns values middle result after) :
    (Code.call (.entry index) arguments).Evaluates state result after := by
  have called : Settles (fun fuel => Run.callEntry (eval fuel) index values middle)
      result after := by
    simp only [Run.callEntry, found]
    exact returned
  exact .succ (Settles.andThen given called) fun _ => rfl

end Code

namespace State

/-- The state with other registers and another journal. -/
def withRegisters (state : State) (registers : Table String) (journal : Journal) : State :=
  ⟨{ state.store with registers := registers }, { state.session with journal := journal }⟩

/-- The state in which the body of a function runs that has been called. -/
def inCall (state : State) (routine : Routine) (arguments : List String) : State :=
  ⟨state.store.pushScope (Run.scope routine.params arguments),
    { state.session.note (.called routine.index arguments) with
      depth := state.session.depth + 1 }⟩

variable {state : State} {routine : Routine} {arguments : List String}

theorem note_eq_withRegisters (state : State) (event : Event) :
    state.note event =
      state.withRegisters state.store.registers (state.session.journal.push event) := by
  obtain ⟨⟨scalars, arrays, objects, functions, registers, scopes⟩, session⟩ := state
  rfl

/-- Where only registers have changed, leaving a call undoes what entering it did. -/
theorem release_withRegisters (stacked : state.store.scopes ≠ []) (registers : Table String)
    (journal : Journal) :
    Run.release ((state.inCall routine arguments).withRegisters registers journal) =
      (.ok (), state.withRegisters registers journal) := by
  obtain ⟨⟨scalars, arrays, objects, functions, held, scopes⟩, session⟩ := state
  cases scopes with
  | nil => exact absurd rfl stacked
  | cons scope outer => rfl

end State

namespace Routine

variable {routine : Routine} {arguments : List String} {state : State}

/-- At the limit of the depth, a call is refused before anything else happens. -/
theorem returns_full (fits : arguments.length ≤ routine.params.length)
    (full : state.session.limit ≤ state.session.depth) :
    routine.Returns arguments state
      (.error (.runtime (.depthExceeded state.session.limit routine.index)))
      (state.withRegisters state.store.registers
        (state.session.journal.push (.called routine.index arguments))) := by
  have refused : (state.note (.called routine.index arguments)).session.enterCall routine.index =
      .error (.runtime (.depthExceeded state.session.limit routine.index)) :=
    @Session.enterCall_of_full (state.note _).session (Nat.lt_succ_of_le full) routine.index
  refine .of_ended fun fuel => ?_
  simp only [Run.call, if_neg (Nat.not_lt.mpr fits), refused, ← State.note_eq_withRegisters]
  rfl

/-- Below the limit, a call returns what its body gives. -/
theorem returns_of_runs {result : Except Error String} {registers : Table String}
    {journal : Journal} (fits : arguments.length ≤ routine.params.length)
    (room : state.session.depth < state.session.limit) (stacked : state.store.scopes ≠ [])
    (ran : Code.Runs routine.body (state.inCall routine arguments) result
      ((state.inCall routine arguments).withRegisters registers journal)) :
    routine.Returns arguments state result (state.withRegisters registers journal) := by
  have entered : (state.note (.called routine.index arguments)).session.enterCall routine.index =
      .ok (state.inCall routine arguments).session :=
    @Session.enterCall_of_room (state.note _).session room routine.index
  have left := ran.leave (State.release_withRegisters stacked registers journal)
  unfold Returns
  simp only [Run.call, if_neg (Nat.not_lt.mpr fits), entered]
  exact left

end Routine

end TableScript
