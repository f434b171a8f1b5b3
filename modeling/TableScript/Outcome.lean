import TableScript.State

namespace TableScript

/-! How a run ends.  A run is bounded by fuel, because a loop of the language
need not end; a run that uses its fuel up is neither done nor failed.  A failed
run leaves the state in which it failed. -/

inductive Outcome (α : Type) where
  | done (value : α) (after : State)
  | failed (error : Error) (after : State)
  | outOfFuel

namespace Outcome

variable {α β : Type}

/-- Goes on with the value and the state of a run that is done. -/
@[inline] def andThen (first : Outcome α) (next : α → State → Outcome β) : Outcome β :=
  match first with
  | done value after => next value after
  | failed error after => failed error after
  | outOfFuel => outOfFuel

@[inline] def ofExcept (result : Except Error α) (state : State) : Outcome α :=
  match result with
  | .ok value => done value state
  | .error error => failed error state

@[inline] def ofRun (result : Except RunFault α) (state : State) : Outcome α :=
  match result with
  | .ok value => done value state
  | .error fault => failed (.runtime fault) state

/-- Changes the state in which a run ended, however it ended. -/
def mapState (change : State → State) : Outcome α → Outcome α
  | done value after => done value (change after)
  | failed error after => failed error (change after)
  | outOfFuel => outOfFuel

/-- The result of a run that ended, and the state it left. -/
def ended? : Outcome α → Option (Except Error α × State)
  | done value after => some (.ok value, after)
  | failed error after => some (.error error, after)
  | outOfFuel => none

end Outcome

end TableScript
