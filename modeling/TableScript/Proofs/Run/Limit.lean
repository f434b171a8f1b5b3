import TableScript.Proofs.Run.Fuel

namespace TableScript

/-! The limit of the depth.  A run that does not fail at the limit never notices
it: under a wider limit, the same run ends in the same way and in the same state. -/

def State.withLimit (state : State) (limit : Nat) : State :=
  ⟨state.store, { state.session with limit := limit }⟩

/-- The error of a call that would go deeper than the limit. -/
def Error.ExceedsDepth (error : Error) : Prop :=
  ∃ limit index, error = .runtime (.depthExceeded limit index)

/-- The result is not that error. -/
def Unlimited (result : Except Error String) : Prop :=
  ∀ error, result = .error error → ¬ error.ExceedsDepth

/-- Only a failure at the limit is an excuse. -/
def Excuses.limited : Excuses := ⟨Error.ExceedsDepth, False⟩

namespace Session

theorem enterCall_of_room {session : Session} (room : session.depth + 1 ≤ session.limit)
    (index : String) :
    session.enterCall index = .ok { session with depth := session.depth + 1 } :=
  if_neg (Nat.not_lt.mpr room)

theorem enterCall_of_full {session : Session} (full : session.limit < session.depth + 1)
    (index : String) :
    session.enterCall index = .error (.runtime (.depthExceeded session.limit index)) :=
  if_pos full

end Session

namespace Run

/-- The second state is the first one under the limit `wide`, which is no
narrower. -/
structure Widened (wide : Nat) (_ : Unit) (first second : State) : Prop where
  bound : first.session.limit ≤ wide
  same : second = first.withLimit wide

theorem Widened.self {wide : Nat} {state : State} (bound : state.session.limit ≤ wide) :
    Widened wide () state (state.withLimit wide) :=
  ⟨bound, rfl⟩

theorem release_withLimit (state : State) (limit : Nat) :
    release (state.withLimit limit) = ((release state).1, (release state).2.withLimit limit) := by
  simp only [release, State.withLimit]
  cases state.store.popScope <;> rfl

/-- A call that the narrower limit lets in is let in by the wider one. -/
theorem Widened.enterCall {wide : Nat} {first second : State}
    (widened : Widened wide () first second) (index : String) (scope : Scope) :
    Matched Error.ExceedsDepth
      (fun left right =>
        Widened wide () ⟨first.store.pushScope scope, left⟩ ⟨second.store.pushScope scope, right⟩)
      (first.session.enterCall index) (second.session.enterCall index) := by
  obtain ⟨bound, same⟩ := widened
  subst same
  by_cases room : first.session.depth + 1 ≤ first.session.limit
  · have wider : (first.withLimit wide).session.depth + 1 ≤
        (first.withLimit wide).session.limit := Nat.le_trans room bound
    rw [Session.enterCall_of_room room index, Session.enterCall_of_room wider index]
    exact .ok (.self bound)
  · -- The wider limit may let the call in, so the two runs part here.
    rw [Session.enterCall_of_full (Nat.lt_of_not_le room) index]
    exact .excused ⟨_, _, rfl⟩

theorem lockstep_widened (wide : Nat) :
    Lockstep (Widened wide) (fun _ => True) .limited where
  get widened _ := by rw [widened.same]; rfl
  register widened _ := by rw [widened.same]; rfl
  element widened _ _ := by rw [widened.same]; rfl
  array widened _ := by rw [widened.same]; rfl
  function widened _ := by rw [widened.same]; rfl
  parameter _ widened _ := by rw [widened.same]; rfl
  note widened _ := by rw [widened.same]; exact .self widened.bound
  setScalar widened _ _ := by rw [widened.same]; exact .self widened.bound
  setRegister widened _ _ := by rw [widened.same]; exact .self widened.bound
  write widened _ := by rw [widened.same]; exact .self widened.bound
  append := by
    intro _ first second ⟨bound, same⟩ index value
    rw [same]
    simp only [State.append, State.withLimit]
    cases first.store.arrays.get? index with
    | none => exact .error _
    | some items => exact .ok (.self bound)
  call := by
    intro _ first second widened index scope
    obtain ⟨left, right, leftEntered, rightEntered, inside⟩ |
        ⟨error, leftFailed, rightFailed⟩ | ⟨error, leftFailed, pardoned⟩ :=
      (widened.enterCall index scope).elim
    · rw [leftEntered, rightEntered]
      refine .ok ⟨(), trivial, inside, ?_⟩
      intro ended other ⟨bound, same⟩
      rw [same, release_withLimit]
      exact ⟨rfl, .self (by rw [session_release]; exact bound)⟩
    · rw [leftFailed, rightFailed]
      exact .error error
    · rw [leftFailed]
      exact .excused pardoned
  object := by
    intro _ first second ⟨bound, same⟩ index
    rw [same]
    simp only [State.withLimit]
    cases first.store.object index with
    | error error => exact .error error
    | ok object =>
        refine .ok ⟨(), .self bound, ?_⟩
        intro ended other ⟨bound, same⟩
        rw [same]
        exact .self bound

end Run

theorem Outcome.Matches.of_unlimited {wide : Nat} {first second : Outcome String} {after : State}
    {result : Except Error String}
    (ends : first.Matches .limited (Run.Widened wide ()) second)
    (ended : first.ended? = some (result, after))
    (unlimited : Unlimited result) :
    second.ended? = some (result, after.withLimit wide) := by
  cases ends with
  | done value widened =>
      cases ended
      rw [widened.same]
      rfl
  | failed error widened =>
      cases ended
      rw [widened.same]
      rfl
  | outOfFuel => cases ended
  | excusedError pardoned =>
      cases ended
      exact absurd pardoned (unlimited _ rfl)
  | excusedFuel pardoned => cases ended

/-- The limit of the depth is only a limit.  If code, or a call, comes to an end
under a limit with anything but the error of a call beyond it, then under a
wider limit it ends with the same result and in the same state. -/
theorem limit_only_limits (state : State) {narrow wide : Nat} (wider : narrow ≤ wide) :
    (∀ (code : Code) (result : Except Error String) (after : State),
      code.Evaluates (state.withLimit narrow) result after → Unlimited result →
      code.Evaluates (state.withLimit wide) result (after.withLimit wide)) ∧
    (∀ (routine : Routine) (arguments : List String) (result : Except Error String)
        (after : State),
      routine.Returns arguments (state.withLimit narrow) result after → Unlimited result →
      routine.Returns arguments (state.withLimit wide) result (after.withLimit wide)) := by
  have steps := Run.lockstep_widened wide
  have agree (fuel : Nat) := eval_alongside steps (Excuses.Allow.refl fuel)
  have widened : Run.Widened wide () (state.withLimit narrow) (state.withLimit wide) :=
    ⟨wider, rfl⟩
  constructor
  · intro code result after ⟨enough, ended⟩ unlimited
    refine ⟨enough, fun fuel sufficient => ?_⟩
    exact (agree fuel trivial widened code).of_unlimited (ended fuel sufficient) unlimited
  · intro routine arguments result after ⟨enough, ended⟩ unlimited
    refine ⟨enough, fun fuel sufficient => ?_⟩
    exact (steps.callRoutine (agree fuel) widened routine arguments).of_unlimited
      (ended fuel sufficient) unlimited

/-- A function that calls another one in a nested object and then fails. -/
def nestedCalls : State :=
  ⟨(Store.fresh.setFunction "f"
      ⟨"f", ["a"], [.builtin "out" [.value (.call (.method "o" "g") [.parameter "a"])],
        .read "missing"]⟩).setObject "o"
      (Store.fresh.setFunction "g" ⟨"g", ["b"], [.setRegister "r" (.parameter "b")]⟩),
    Session.fresh 0⟩

/-- Two calls deep, the calls just fit the limit, and five levels change nothing:
neither the error nor the output nor the register set in the object. -/
theorem limit_only_limits_nested :
    ∃ after,
      Code.Evaluates (.call (.entry "f") [.literal "x"]) (nestedCalls.withLimit 2)
        (.error (.bind [] (.unknownEntry "missing"))) after ∧
      Code.Evaluates (.call (.entry "f") [.literal "x"]) (nestedCalls.withLimit 5)
        (.error (.bind [] (.unknownEntry "missing"))) (after.withLimit 5) ∧
      after.session.output = "x" := by
  have evaluated := Code.evaluates_of_ended
    (show (eval 5 (.call (.entry "f") [.literal "x"]) (nestedCalls.withLimit 2)).ended? =
      some (.error (.bind [] (.unknownEntry "missing")), _) from rfl)
  have unlimited : Unlimited (.error (.bind [] (.unknownEntry "missing"))) := by
    intro error same ⟨limit, index, exceeded⟩
    rw [exceeded] at same
    cases same
  have wider : (2 : Nat) ≤ 5 := by decide
  exact ⟨_, evaluated, (limit_only_limits nestedCalls wider).1 _ _ _ evaluated unlimited, rfl⟩

end TableScript
