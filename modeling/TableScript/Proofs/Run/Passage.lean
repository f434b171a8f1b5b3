import TableScript.Proofs.Run.Steps

namespace TableScript

/-! Runs together with the states that they pass through: the one in which each
construct starts, the one in which the body of each call starts, and the one in
which each part ends, done or failed.  A passage is put together like the run
itself, from parts that hand their last state on to the next one, so its outcome
is that of the evaluator and its points are states that the evaluator was in. -/

namespace Outcome

variable {α : Type}

/-- The state in which a run ended. -/
def last : Outcome α → List State
  | done _ after | failed _ after => [after]
  | outOfFuel => []

theorem ends_last (outcome : Outcome α) : outcome.Ends (· ∈ outcome.last) := by
  cases outcome with
  | done value after => exact List.mem_singleton_self after
  | failed error after => exact List.mem_singleton_self after
  | outOfFuel => trivial

end Outcome

/-- A run with the states that it passes through, in their order.  The state in
which it ends is one of them. -/
structure Passage (α : Type) where
  points : List State
  outcome : Outcome α
  ends : outcome.Ends (· ∈ points)

namespace Passage

variable {α β : Type}

/-- A part in which no code is run. -/
def only (outcome : Outcome α) : Passage α :=
  ⟨outcome.last, outcome, outcome.ends_last⟩

/-- Passes through `state` first. -/
def starting (state : State) (rest : Passage α) : Passage α :=
  ⟨state :: rest.points, rest.outcome, rest.ends.imp fun _ => List.mem_cons_of_mem state⟩

/-- Goes on with the value and the state of a run that is done. -/
def andThen (first : Passage α) (next : α → State → Passage β) : Passage β where
  points := first.points ++
    match first.outcome with
    | .done value after => (next value after).points
    | .failed _ _ | .outOfFuel => []
  outcome := first.outcome.andThen fun value state => (next value state).outcome
  ends := by
    obtain ⟨points, outcome, ends⟩ := first
    cases outcome with
    | done value after => exact (next value after).ends.imp fun _ => List.mem_append_right points
    | failed error after => exact List.mem_append_left [] ends
    | outOfFuel => trivial

/-- Changes how a run ended, and passes through the state that this leads to. -/
def through (first : Passage α) (change : Outcome α → Outcome β) : Passage β where
  points := first.points ++ (change first.outcome).last
  outcome := change first.outcome
  ends := (change first.outcome).ends_last.imp fun _ => List.mem_append_right first.points

/-! The parts of the evaluator.  Each is that of `Run`, with `run` for the code
inside it. -/

section

variable (run : Code → State → Passage String)

def integer (code : Code) (state : State) : Passage Int :=
  (run code state).andThen fun value state => .only (.ofRun (Value.integer value) state)

def condition (code : Code) (state : State) : Passage Bool :=
  (run code state).andThen fun value state => .only (.ofRun (Value.truth value) state)

def values : List Code → State → Passage (List String)
  | [], state => .only (.done [] state)
  | code :: others, state =>
      (run code state).andThen fun value state =>
        (values others state).andThen fun rest state => .only (.done (value :: rest) state)

def body : List Code → String → State → Passage String
  | [], value, state => .only (.done value state)
  | code :: others, _, state =>
      (run code state).andThen fun value state => body others value state

def loop (test increment : Code) (statements : List Code) :
    Nat → String → State → Passage String
  | 0, _, _ => .only .outOfFuel
  | turns + 1, value, state =>
      (condition run test state).andThen fun holds state =>
        if holds then
          (body run statements value state).andThen fun value state =>
            (run increment state).andThen fun _ state =>
              loop test increment statements turns value state
        else .only (.done value state)

/-- The state in which the body starts is a point of its own, so that a call of
an empty body is seen too. -/
def call (routine : Routine) (arguments : List String) (state : State) : Passage String :=
  if arguments.length > routine.params.length then
    .only (.failed (.runtime
      (.surplusArguments routine.index routine.params.length arguments.length)) state)
  else
    let state := state.note (.called routine.index arguments)
    match state.session.enterCall routine.index with
    | .ok session =>
        let entered : State := ⟨state.store.pushScope (Run.scope routine.params arguments), session⟩
        (starting entered (body run routine.body "" entered)).through Run.leave
    | .error error => .only (.failed error state)

def callEntry (index : String) (arguments : List String) (state : State) : Passage String :=
  match state.store.function index with
  | .ok routine => call run routine arguments state
  | .error error => .only (.failed error state)

def callMethod (object function : String) (arguments : List String) (state : State) :
    Passage String :=
  match state.store.object object with
  | .ok inner =>
      (callEntry run function arguments ⟨inner, state.session⟩).through
        (Outcome.mapState (State.leaveObject state.store object))
  | .error error => .only (.failed error state)

def out (arguments : List (Argument Code)) (state : State) : Passage String :=
  match arguments with
  | .value code :: _ =>
      (run code state).andThen fun text state => .only (.done "" (state.write text))
  | [] => .only (.done "" state)
  | .reference index :: _ => .only (.failed (.runtime (.referenceAsValue index)) state)

def callBuiltin (name : String) (arguments : List (Argument Code)) (state : State) :
    Passage String :=
  match Builtin.find name with
  | .ok .out => out run arguments state
  | .ok .size => .only (Run.size arguments state)
  | .error fault => .only (.failed (.runtime fault) state)

/-- The construct `code`, whose loops run for fewer than `turns` turns. -/
def construct (turns : Nat) (code : Code) (state : State) : Passage String :=
  match code with
  | .literal value => .only (.done value state)
  | .read index => .only (.ofExcept (state.store.get index) state)
  | .write index code =>
      (run code state).andThen fun value state =>
        .only (.done value (state.setScalar index value))
  | .register index => .only (.ofExcept (state.store.register index) state)
  | .setRegister index code =>
      (run code state).andThen fun value state =>
        .only (.done value (state.setRegister index value))
  | .element index key =>
      (run key state).andThen fun key state =>
        .only (.ofExcept (state.store.element index key) state)
  | .append index code =>
      (run code state).andThen fun value state =>
        match state.append index value with
        | .ok after => .only (.done value after)
        | .error error => .only (.failed error state)
  | .parameter name => .only (.ofExcept (state.store.parameter name) state)
  | .arithmetic op left right =>
      (integer run left state).andThen fun m state =>
        (integer run right state).andThen fun n state =>
          .only (.ofRun ((op.apply m n).map Number.write) state)
  | .concat left right =>
      (run left state).andThen fun first state =>
        (run right state).andThen fun second state => .only (.done (first ++ second) state)
  | .compare op left right =>
      (run left state).andThen fun first state =>
        (run right state).andThen fun second state =>
          .only (.ofRun ((op.holds first second).map Value.ofBool) state)
  | .call (.entry index) arguments =>
      (values run arguments state).andThen fun values state => callEntry run index values state
  | .call (.method object function) arguments =>
      (values run arguments state).andThen fun values state =>
        callMethod run object function values state
  | .builtin name arguments => callBuiltin run name arguments state
  | .branch test statements =>
      (condition run test state).andThen fun holds state =>
        if holds then body run statements "" state else .only (.done "" state)
  | .loop test increment statements => loop run test increment statements turns "" state

end

end Passage

/-- The passage of `eval fuel code state`. -/
def passage : Nat → Code → State → Passage String
  | 0, _, state => .starting state (.only .outOfFuel)
  | fuel + 1, code, state => .starting state (.construct (passage fuel) fuel code state)

/-! ### The outcome of a passage -/

namespace Passage

variable {α β : Type} {run : Code → State → Passage String}

/-- The evaluator that passages belong to. -/
def outcomes (run : Code → State → Passage String) : Evaluator :=
  fun code state => (run code state).outcome

@[simp] theorem outcome_only (outcome : Outcome α) : (only outcome).outcome = outcome := rfl

@[simp] theorem outcome_starting (state : State) (rest : Passage α) :
    (starting state rest).outcome = rest.outcome := rfl

@[simp] theorem outcome_through (first : Passage α) (change : Outcome α → Outcome β) :
    (first.through change).outcome = change first.outcome := rfl

@[simp] theorem outcome_andThen (first : Passage α) (next : α → State → Passage β) :
    (first.andThen next).outcome =
      first.outcome.andThen fun value state => (next value state).outcome := rfl

theorem outcome_values (codes : List Code) (state : State) :
    (values run codes state).outcome = Run.values (outcomes run) codes state := by
  induction codes generalizing state with
  | nil => rfl
  | cons code others continued =>
      simp only [values, outcome_andThen, continued]
      rfl

theorem outcome_body (statements : List Code) (value : String) (state : State) :
    (body run statements value state).outcome =
      Run.body (outcomes run) statements value state := by
  induction statements generalizing value state with
  | nil => rfl
  | cons code others continued =>
      simp only [body, outcome_andThen, continued]
      rfl

theorem outcome_loop (test increment : Code) (statements : List Code) (turns : Nat)
    (value : String) (state : State) :
    (loop run test increment statements turns value state).outcome =
      Run.loop (outcomes run) test increment statements turns value state := by
  induction turns generalizing value state with
  | zero => rfl
  | succ turns continued =>
      simp only [loop, outcome_andThen, apply_ite outcome, outcome_body, continued]
      rfl

theorem outcome_call (routine : Routine) (arguments : List String) (state : State) :
    (call run routine arguments state).outcome =
      Run.call (outcomes run) routine arguments state := by
  simp only [call, Run.call]
  split
  · rfl
  · cases (state.note (.called routine.index arguments)).session.enterCall routine.index with
    | error error => rfl
    | ok session => simp only [outcome_through, outcome_starting, outcome_body]

theorem outcome_callEntry (index : String) (arguments : List String) (state : State) :
    (callEntry run index arguments state).outcome =
      Run.callEntry (outcomes run) index arguments state := by
  simp only [callEntry, Run.callEntry]
  cases state.store.function index with
  | error error => rfl
  | ok routine => exact outcome_call routine arguments state

theorem outcome_callMethod (object function : String) (arguments : List String) (state : State) :
    (callMethod run object function arguments state).outcome =
      Run.callMethod (outcomes run) object function arguments state := by
  simp only [callMethod, Run.callMethod]
  cases state.store.object object with
  | error error => rfl
  | ok inner => simp only [outcome_through, outcome_callEntry]

theorem outcome_callBuiltin (name : String) (arguments : List (Argument Code)) (state : State) :
    (callBuiltin run name arguments state).outcome =
      Run.callBuiltin (outcomes run) name arguments state := by
  simp only [callBuiltin, Run.callBuiltin]
  cases Builtin.find name with
  | error fault => rfl
  | ok builtin =>
      cases builtin with
      | size => rfl
      | out =>
          cases arguments with
          | nil => rfl
          | cons argument others => cases argument <;> rfl

/-- A construct is run as the evaluator runs it, if the parts of it are. -/
theorem outcome_construct {fuel : Nat} (parts : outcomes run = eval fuel) (code : Code)
    (state : State) :
    (construct run fuel code state).outcome = eval (fuel + 1) code state := by
  have part (code : Code) (state : State) : (run code state).outcome = eval fuel code state :=
    congrFun (congrFun parts code) state
  cases code with
  | literal _ | read _ | register _ | parameter _ => rfl
  | write _ code | setRegister _ code | element _ code | concat code _ | compare _ code _ =>
      simp only [construct, outcome_andThen, outcome_only, part, eval]
  | append index code =>
      simp only [construct, outcome_andThen, part, eval]
      congr 1
      funext value middle
      cases middle.append index value <;> rfl
  | arithmetic op left right =>
      simp only [construct, integer, outcome_andThen, outcome_only, part, eval, Run.integer]
  | call callee arguments =>
      cases callee <;>
        simp only [construct, outcome_andThen, outcome_values, outcome_callEntry,
          outcome_callMethod, parts, eval]
  | builtin name arguments => simp only [construct, outcome_callBuiltin, parts, eval]
  | branch test statements =>
      simp only [construct, condition, outcome_andThen, apply_ite outcome, outcome_body,
        outcome_only, part, parts, eval, Run.condition]
  | loop test increment statements => simp only [construct, outcome_loop, parts, eval]

theorem outcomes_passage (fuel : Nat) : outcomes (passage fuel) = eval fuel := by
  induction fuel with
  | zero => rfl
  | succ fuel parts =>
      funext code state
      exact outcome_construct parts code state

end Passage

end TableScript
