import TableScript.Run

namespace TableScript

/-! What a run does to its state, derived from what its steps do.  A relation
between states that the steps respect, and that a call and a visit to a nested
object carry from the inner states to the outer ones, relates the state before
any run to the state after it.  Errors need no extra care: a failed run ends in
a state like one that is done. -/

namespace Outcome

variable {α β : Type} {holds weaker : State → Prop}

/-- The state in which a run ended satisfies `holds`, whatever the result. -/
def Ends (holds : State → Prop) : Outcome α → Prop
  | done _ after => holds after
  | failed _ after => holds after
  | outOfFuel => True

theorem Ends.imp {outcome : Outcome α} (ends : outcome.Ends holds)
    (implied : ∀ state, holds state → weaker state) : outcome.Ends weaker := by
  cases outcome with
  | done value after => exact implied after ends
  | failed error after => exact implied after ends
  | outOfFuel => trivial

theorem Ends.andThen {first : Outcome α} {next : α → State → Outcome β}
    (ends : first.Ends holds)
    (continued : ∀ value state, holds state → (next value state).Ends weaker)
    (kept : ∀ state, holds state → weaker state) : (first.andThen next).Ends weaker := by
  cases first with
  | done value after => exact continued value after ends
  | failed error after => exact kept after ends
  | outOfFuel => trivial

theorem Ends.mapState {outcome : Outcome α} {change : State → State}
    (ends : outcome.Ends fun state => holds (change state)) :
    (outcome.mapState change).Ends holds := by
  cases outcome with
  | done value after => exact ends
  | failed error after => exact ends
  | outOfFuel => trivial

theorem ends_ofExcept (result : Except Error α) {state : State} (here : holds state) :
    (ofExcept result state).Ends holds := by
  cases result with
  | ok value => exact here
  | error error => exact here

theorem ends_ofRun (result : Except RunFault α) {state : State} (here : holds state) :
    (ofRun result state).Ends holds := by
  cases result with
  | ok value => exact here
  | error fault => exact here

theorem Ends.of_ended? {outcome : Outcome α} {result : Except Error α} {after : State}
    (ends : outcome.Ends holds) (ended : outcome.ended? = some (result, after)) :
    holds after := by
  cases outcome with
  | done value reached => cases ended; exact ends
  | failed error reached => cases ended; exact ends
  | outOfFuel => cases ended

end Outcome

namespace Run

/-- The steps of a run respect `related`, and so do the ways in which a call and
a visit to a nested object are entered and left. -/
structure Respects (related : State → State → Prop) : Prop where
  refl : ∀ state, related state state
  trans : ∀ {first second third}, related first second → related second third →
    related first third
  note : ∀ state event, related state (state.note event)
  setScalar : ∀ state index value, related state (state.setScalar index value)
  setRegister : ∀ state index value, related state (state.setRegister index value)
  append : ∀ {state index value after}, state.append index value = .ok after →
    related state after
  write : ∀ state text, related state (state.write text)
  call : ∀ {state inner index session} scope, state.session.enterCall index = .ok session →
    related ⟨state.store.pushScope scope, session⟩ inner → related state (release inner).2
  object : ∀ {state inner index object}, state.store.object index = .ok object →
    related ⟨object, state.session⟩ inner →
    related state (State.leaveObject state.store index inner)

variable {related : State → State → Prop} {run : Evaluator}

/-- Whatever code is run, its end is related to its start. -/
def Keeps (related : State → State → Prop) (run : Evaluator) : Prop :=
  ∀ code state, (run code state).Ends (related state)

namespace Respects

theorem andThen {α β : Type} (steps : Respects related) {state : State} {first : Outcome α}
    {next : α → State → Outcome β} (ends : first.Ends (related state))
    (continued : ∀ value middle, (next value middle).Ends (related middle)) :
    (first.andThen next).Ends (related state) := by
  apply ends.andThen
  · intro value middle reached
    exact (continued value middle).imp fun after later => steps.trans reached later
  · intro after reached
    exact reached

theorem integer (steps : Respects related) (keeps : Keeps related run) (code : Code)
    (state : State) : (Run.integer run code state).Ends (related state) :=
  steps.andThen (keeps code state) fun _ middle => Outcome.ends_ofRun _ (steps.refl middle)

theorem condition (steps : Respects related) (keeps : Keeps related run) (code : Code)
    (state : State) : (Run.condition run code state).Ends (related state) :=
  steps.andThen (keeps code state) fun _ middle => Outcome.ends_ofRun _ (steps.refl middle)

theorem values (steps : Respects related) (keeps : Keeps related run) (codes : List Code)
    (state : State) : (Run.values run codes state).Ends (related state) := by
  induction codes generalizing state with
  | nil => exact steps.refl state
  | cons code others continued =>
      apply steps.andThen (keeps code state)
      intro value middle
      exact steps.andThen (continued middle) fun _ after => steps.refl after

theorem body (steps : Respects related) (keeps : Keeps related run) (statements : List Code)
    (value : String) (state : State) :
    (Run.body run statements value state).Ends (related state) := by
  induction statements generalizing value state with
  | nil => exact steps.refl state
  | cons code others continued =>
      exact steps.andThen (keeps code state) fun value middle => continued value middle

theorem loop (steps : Respects related) (keeps : Keeps related run) (test increment : Code)
    (statements : List Code) (turns : Nat) (value : String) (state : State) :
    (Run.loop run test increment statements turns value state).Ends (related state) := by
  induction turns generalizing value state with
  | zero => trivial
  | succ turns continued =>
      apply steps.andThen (steps.condition keeps test state)
      intro holds tested
      cases holds with
      | false => exact steps.refl tested
      | true =>
          apply steps.andThen (steps.body keeps statements value tested)
          intro value ran
          exact steps.andThen (keeps increment ran) fun _ after => continued value after

theorem leave {outcome : Outcome String} {holds : State → Prop}
    (ends : outcome.Ends fun state => holds (release state).2) :
    (Run.leave outcome).Ends holds := by
  cases outcome with
  | done value inner =>
      simp only [Run.leave]
      change holds (release inner).2 at ends
      rcases released : release inner with ⟨_ | _, after⟩
      · rw [released] at ends
        exact ends
      · rw [released] at ends
        exact ends
  | failed error inner => exact ends
  | outOfFuel => trivial

theorem callRoutine (steps : Respects related) (keeps : Keeps related run) (routine : Routine)
    (arguments : List String) (state : State) :
    (Run.call run routine arguments state).Ends (related state) := by
  simp only [Run.call]
  split
  · exact steps.refl state
  · have noted := steps.note state (.called routine.index arguments)
    cases entered : (state.note (.called routine.index arguments)).session.enterCall
        routine.index with
    | error error => exact noted
    | ok session =>
        apply leave
        apply (steps.body keeps routine.body "" _).imp
        intro inner reached
        exact steps.trans noted (steps.call _ entered reached)

theorem callEntry (steps : Respects related) (keeps : Keeps related run) (index : String)
    (arguments : List String) (state : State) :
    (Run.callEntry run index arguments state).Ends (related state) := by
  simp only [Run.callEntry]
  cases state.store.function index with
  | error error => exact steps.refl state
  | ok routine => exact steps.callRoutine keeps routine arguments state

theorem callMethod (steps : Respects related) (keeps : Keeps related run)
    (object function : String) (arguments : List String) (state : State) :
    (Run.callMethod run object function arguments state).Ends (related state) := by
  simp only [Run.callMethod]
  cases found : state.store.object object with
  | error error => exact steps.refl state
  | ok inner =>
      apply Outcome.Ends.mapState
      apply (steps.callEntry keeps function arguments ⟨inner, state.session⟩).imp
      intro after reached
      exact steps.object found reached

theorem out (steps : Respects related) (keeps : Keeps related run)
    (arguments : List (Argument Code)) (state : State) :
    (Run.out run arguments state).Ends (related state) := by
  cases arguments with
  | nil => exact steps.refl state
  | cons argument others =>
      cases argument with
      | value code =>
          exact steps.andThen (keeps code state) fun text middle => steps.write middle text
      | reference index => exact steps.refl state

theorem size (steps : Respects related) (arguments : List (Argument Code)) (state : State) :
    (Run.size arguments state).Ends (related state) := by
  cases arguments with
  | nil => exact steps.refl state
  | cons argument others =>
      cases argument with
      | value code => exact steps.refl state
      | reference index =>
          simp only [Run.size]
          cases state.store.arrays.get? index with
          | none => exact steps.refl state
          | some items => exact steps.refl state

theorem callBuiltin (steps : Respects related) (keeps : Keeps related run) (name : String)
    (arguments : List (Argument Code)) (state : State) :
    (Run.callBuiltin run name arguments state).Ends (related state) := by
  simp only [Run.callBuiltin]
  cases Builtin.find name with
  | error fault => exact steps.refl state
  | ok builtin =>
      cases builtin with
      | out => exact steps.out keeps arguments state
      | size => exact steps.size arguments state

end Respects

end Run

/-- A relation that the steps respect relates the ends of every run. -/
theorem eval_keeps {related : State → State → Prop} (steps : Run.Respects related) (fuel : Nat) :
    Run.Keeps related (eval fuel) := by
  induction fuel with
  | zero => exact fun _ _ => trivial
  | succ fuel keeps =>
      intro code state
      cases code with
      | literal value => exact steps.refl state
      | read index => exact Outcome.ends_ofExcept _ (steps.refl state)
      | write index code =>
          exact steps.andThen (keeps code state) fun value middle =>
            steps.setScalar middle index value
      | register index => exact Outcome.ends_ofExcept _ (steps.refl state)
      | setRegister index code =>
          exact steps.andThen (keeps code state) fun value middle =>
            steps.setRegister middle index value
      | element index key =>
          exact steps.andThen (keeps key state) fun _ middle =>
            Outcome.ends_ofExcept _ (steps.refl middle)
      | append index code =>
          apply steps.andThen (keeps code state)
          intro value middle
          cases appended : middle.append index value with
          | error error => exact steps.refl middle
          | ok after => exact steps.append appended
      | parameter name => exact Outcome.ends_ofExcept _ (steps.refl state)
      | arithmetic op left right =>
          apply steps.andThen (steps.integer keeps left state)
          intro m middle
          exact steps.andThen (steps.integer keeps right middle) fun _ after =>
            Outcome.ends_ofRun _ (steps.refl after)
      | concat left right =>
          apply steps.andThen (keeps left state)
          intro first middle
          exact steps.andThen (keeps right middle) fun _ after => steps.refl after
      | compare op left right =>
          apply steps.andThen (keeps left state)
          intro first middle
          exact steps.andThen (keeps right middle) fun _ after =>
            Outcome.ends_ofRun _ (steps.refl after)
      | call callee arguments =>
          cases callee with
          | entry index =>
              exact steps.andThen (steps.values keeps arguments state) fun values middle =>
                steps.callEntry keeps index values middle
          | method object function =>
              exact steps.andThen (steps.values keeps arguments state) fun values middle =>
                steps.callMethod keeps object function values middle
      | builtin name arguments => exact steps.callBuiltin keeps name arguments state
      | branch test statements =>
          apply steps.andThen (steps.condition keeps test state)
          intro holds tested
          cases holds with
          | false => exact steps.refl tested
          | true => exact steps.body keeps statements "" tested
      | loop test increment statements =>
          exact steps.loop keeps test increment statements fuel "" state

end TableScript
