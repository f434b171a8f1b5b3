import TableScript.Proofs.Run.Lockstep

namespace TableScript

/-! Runs without fuel.  More fuel does not change a run that has come to an end,
so what code evaluates to and what a call returns do not depend on it. -/

/-- With enough fuel, the work ends with a result and a state. -/
def Settles {α : Type} (work : Nat → Outcome α) (result : Except Error α) (after : State) :
    Prop :=
  ∃ enough, ∀ fuel, enough ≤ fuel → (work fuel).ended? = some (result, after)

def Code.Evaluates (code : Code) (state : State) : Except Error String → State → Prop :=
  Settles fun fuel => eval fuel code state

def Routine.Returns (routine : Routine) (arguments : List String) (state : State) :
    Except Error String → State → Prop :=
  Settles fun fuel => Run.call (eval fuel) routine arguments state

/-- Only a lack of fuel is an excuse. -/
def Excuses.lessFuel : Excuses := ⟨fun _ => False, True⟩

namespace Run

/-- There is one frame, in which a state is related to itself. -/
def Same (_ : Unit) (first second : State) : Prop := first = second

theorem lockstep_same : Lockstep Same (fun _ => True) .lessFuel where
  get same _ := by cases same; rfl
  register same _ := by cases same; rfl
  element same _ _ := by cases same; rfl
  array same _ := by cases same; rfl
  function same _ := by cases same; rfl
  parameter _ same _ := by cases same; rfl
  note same _ := by cases same; rfl
  setScalar same _ _ := by cases same; rfl
  setRegister same _ _ := by cases same; rfl
  append := by
    intro _ first second same index value
    cases same
    cases first.append index value with
    | ok after => exact .ok rfl
    | error error => exact .error error
  write same _ := by cases same; rfl
  call := by
    intro _ first second same index scope
    cases same
    cases first.session.enterCall index with
    | error error => exact .error error
    | ok session =>
        refine .ok ⟨(), trivial, rfl, ?_⟩
        intro ended other same
        cases same
        exact ⟨rfl, rfl⟩
  object := by
    intro _ first second same index
    cases same
    cases first.store.object index with
    | error error => exact .error error
    | ok object =>
        refine .ok ⟨(), rfl, ?_⟩
        intro ended other same
        cases same
        rfl

end Run

theorem Outcome.Matches.of_ended {α : Type} {first second : Outcome α}
    {result : Except Error α × State}
    (ends : first.Matches .lessFuel (Run.Same ()) second)
    (ended : first.ended? = some result) : second.ended? = some result := by
  cases ends with
  | done value same =>
      cases same
      exact ended
  | failed error same =>
      cases same
      exact ended
  | outOfFuel => cases ended
  | excusedError pardoned => exact absurd pardoned id
  | excusedFuel pardoned => cases ended

theorem Code.evaluates_of_ended {code : Code} {state after : State} {fuel : Nat}
    {result : Except Error String}
    (ended : (eval fuel code state).ended? = some (result, after)) :
    code.Evaluates state result after := by
  refine ⟨fuel, fun more enough => ?_⟩
  have agree := eval_alongside Run.lockstep_same (.inr ⟨trivial, enough⟩)
  have alike : Run.Same () state state := rfl
  exact (agree trivial alike code).of_ended ended

theorem Routine.returns_of_ended {routine : Routine} {arguments : List String}
    {state after : State} {fuel : Nat} {result : Except Error String}
    (ended : (Run.call (eval fuel) routine arguments state).ended? = some (result, after)) :
    routine.Returns arguments state result after := by
  refine ⟨fuel, fun more enough => ?_⟩
  have steps := Run.lockstep_same
  have agree := eval_alongside steps (.inr ⟨trivial, enough⟩)
  have alike : Run.Same () state state := rfl
  exact (steps.callRoutine agree alike routine arguments).of_ended ended

end TableScript
