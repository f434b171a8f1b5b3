import TableScript.Run

namespace TableScript

/-! Two runs in lockstep, derived from what their steps do.  If related states
cannot be told apart by the steps of a run, and the steps keep them related,
then running the same code from related states ends in the same way and in
related states.  The first run may be allowed to give up early: with an excused
error, or by using up its fuel. -/

/-- The ways in which the first of two runs may end without the second one. -/
structure Excuses where
  error : Error → Prop
  fuel : Prop

/-- With `fuel` for the first and `more` for the second run, the first one ends
before the second only where it is excused. -/
def Excuses.Allow (excuses : Excuses) (fuel more : Nat) : Prop :=
  fuel = more ∨ excuses.fuel ∧ fuel ≤ more

theorem Excuses.Allow.refl {excuses : Excuses} (fuel : Nat) : excuses.Allow fuel fuel :=
  .inl rfl

theorem Excuses.Allow.succ {excuses : Excuses} {fuel more : Nat}
    (allowed : excuses.Allow (fuel + 1) more) :
    ∃ less, more = less + 1 ∧ excuses.Allow fuel less := by
  obtain same | ⟨pardoned, bound⟩ := allowed
  · exact ⟨fuel, same.symm, .inl rfl⟩
  · exact ⟨more - 1, by omega, .inr ⟨pardoned, by omega⟩⟩

/-- Two results agree: both are there and related, or both are the same error.
An excused error agrees with everything. -/
inductive Matched {α β : Type} (excused : Error → Prop) (related : α → β → Prop) :
    Except Error α → Except Error β → Prop where
  | ok {first : α} {second : β} (alike : related first second) :
      Matched excused related (.ok first) (.ok second)
  | error (error : Error) : Matched excused related (.error error) (.error error)
  | excused {error : Error} {other : Except Error β} (pardoned : excused error) :
      Matched excused related (.error error) other

theorem Matched.elim {α β : Type} {excused : Error → Prop} {related : α → β → Prop}
    {left : Except Error α} {right : Except Error β}
    (agree : Matched excused related left right) :
    (∃ first second, left = .ok first ∧ right = .ok second ∧ related first second) ∨
      (∃ error, left = .error error ∧ right = .error error) ∨
      ∃ error, left = .error error ∧ excused error := by
  cases agree with
  | ok alike => exact .inl ⟨_, _, rfl, rfl, alike⟩
  | error error => exact .inr (.inl ⟨error, rfl, rfl⟩)
  | excused pardoned => exact .inr (.inr ⟨_, rfl, pardoned⟩)

namespace Outcome

variable {α β : Type} {excuses : Excuses} {related further : State → State → Prop}

/-- Two runs end in the same way and in related states, unless the end of the
first one is excused. -/
inductive Matches (excuses : Excuses) (related : State → State → Prop) :
    Outcome α → Outcome α → Prop where
  | done (value : α) {first second : State} (alike : related first second) :
      Matches excuses related (.done value first) (.done value second)
  | failed (error : Error) {first second : State} (alike : related first second) :
      Matches excuses related (.failed error first) (.failed error second)
  | outOfFuel : Matches excuses related .outOfFuel .outOfFuel
  | excusedError {error : Error} {after : State} {other : Outcome α}
      (pardoned : excuses.error error) : Matches excuses related (.failed error after) other
  | excusedFuel {other : Outcome α} (pardoned : excuses.fuel) :
      Matches excuses related .outOfFuel other

theorem Matches.andThen {first second : Outcome α} {next other : α → State → Outcome β}
    (ends : first.Matches excuses related second)
    (continued : ∀ value left right, related left right →
      (next value left).Matches excuses related (other value right)) :
    (first.andThen next).Matches excuses related (second.andThen other) := by
  cases ends with
  | done value alike => exact continued value _ _ alike
  | failed error alike => exact .failed error alike
  | outOfFuel => exact .outOfFuel
  | excusedError pardoned => exact .excusedError pardoned
  | excusedFuel pardoned => exact .excusedFuel pardoned

theorem Matches.mapState {first second : Outcome α} {change other : State → State}
    (ends : first.Matches excuses related second)
    (carried : ∀ left right, related left right → further (change left) (other right)) :
    (first.mapState change).Matches excuses further (second.mapState other) := by
  cases ends with
  | done value alike => exact .done value (carried _ _ alike)
  | failed error alike => exact .failed error (carried _ _ alike)
  | outOfFuel => exact .outOfFuel
  | excusedError pardoned => exact .excusedError pardoned
  | excusedFuel pardoned => exact .excusedFuel pardoned

/-- Without excuses, both runs come to an end or neither does. -/
theorem Matches.unexcused {first second : Outcome α}
    (ends : first.Matches ⟨fun _ => False, False⟩ related second) :
    (first.ended? = none ∧ second.ended? = none) ∨
      ∃ result after last, first.ended? = some (result, after) ∧
        second.ended? = some (result, last) ∧ related after last := by
  cases ends with
  | done value alike => exact .inr ⟨_, _, _, rfl, rfl, alike⟩
  | failed error alike => exact .inr ⟨_, _, _, rfl, rfl, alike⟩
  | outOfFuel => exact .inl ⟨rfl, rfl⟩
  | excusedError impossible => exact absurd impossible id
  | excusedFuel impossible => exact absurd impossible id

theorem matches_ofExcept {result other : Except Error α} {first second : State}
    (same : result = other) (alike : related first second) :
    (ofExcept result first).Matches excuses related (ofExcept other second) := by
  subst same
  cases result with
  | ok value => exact .done value alike
  | error error => exact .failed error alike

theorem matches_ofRun (result : Except RunFault α) {first second : State}
    (alike : related first second) :
    (ofRun result first).Matches excuses related (ofRun result second) := by
  cases result with
  | ok value => exact .done value alike
  | error fault => exact .failed (.runtime fault) alike

end Outcome

namespace Run

/-- States related in a frame give the same readings, and the steps of a run
keep them related.  A call and a visit to a nested object lead into a frame of
their own, from which the way back leads into the frame before; parameters are
read only in the frame of a call. -/
structure Lockstep {Frame : Type} (related : Frame → State → State → Prop)
    (entered : Frame → Prop) (excuses : Excuses) : Prop where
  get : ∀ {frame first second}, related frame first second →
    ∀ index, first.store.get index = second.store.get index
  register : ∀ {frame first second}, related frame first second →
    ∀ index, first.store.register index = second.store.register index
  element : ∀ {frame first second}, related frame first second →
    ∀ index key, first.store.element index key = second.store.element index key
  array : ∀ {frame first second}, related frame first second →
    ∀ index, first.store.arrays.get? index = second.store.arrays.get? index
  function : ∀ {frame first second}, related frame first second →
    ∀ index, first.store.function index = second.store.function index
  parameter : ∀ {frame first second}, entered frame → related frame first second →
    ∀ name, first.store.parameter name = second.store.parameter name
  note : ∀ {frame first second}, related frame first second →
    ∀ event, related frame (first.note event) (second.note event)
  setScalar : ∀ {frame first second}, related frame first second →
    ∀ index value, related frame (first.setScalar index value) (second.setScalar index value)
  setRegister : ∀ {frame first second}, related frame first second →
    ∀ index value,
      related frame (first.setRegister index value) (second.setRegister index value)
  append : ∀ {frame first second}, related frame first second →
    ∀ index value, Matched excuses.error (related frame) (first.append index value)
      (second.append index value)
  write : ∀ {frame first second}, related frame first second →
    ∀ text, related frame (first.write text) (second.write text)
  call : ∀ {frame first second}, related frame first second →
    ∀ index scope, Matched excuses.error
      (fun left right => ∃ inner, entered inner ∧
        related inner ⟨first.store.pushScope scope, left⟩ ⟨second.store.pushScope scope, right⟩ ∧
        ∀ ended other, related inner ended other →
          (release ended).1 = (release other).1 ∧
          related frame (release ended).2 (release other).2)
      (first.session.enterCall index) (second.session.enterCall index)
  object : ∀ {frame first second}, related frame first second →
    ∀ index, Matched excuses.error
      (fun left right => ∃ inner,
        related inner ⟨left, first.session⟩ ⟨right, second.session⟩ ∧
        ∀ ended other, related inner ended other →
          related frame (State.leaveObject first.store index ended)
            (State.leaveObject second.store index other))
      (first.store.object index) (second.store.object index)

section

variable {Frame : Type} {related : Frame → State → State → Prop} {entered : Frame → Prop}
  {excuses : Excuses} {run other : Evaluator} {frame : Frame} {first second : State}

/-- Two evaluators agree on all code that is run in a call. -/
def Alongside (related : Frame → State → State → Prop) (entered : Frame → Prop)
    (excuses : Excuses) (run other : Evaluator) : Prop :=
  ∀ ⦃frame first second⦄, entered frame → related frame first second →
    ∀ code, (run code first).Matches excuses (related frame) (other code second)

theorem Alongside.integer (agree : Alongside related entered excuses run other)
    (inCall : entered frame) (alike : related frame first second) (code : Code) :
    (Run.integer run code first).Matches excuses (related frame)
      (Run.integer other code second) :=
  (agree inCall alike code).andThen fun value _ _ alike =>
    Outcome.matches_ofRun (Value.integer value) alike

theorem Alongside.condition (agree : Alongside related entered excuses run other)
    (inCall : entered frame) (alike : related frame first second) (code : Code) :
    (Run.condition run code first).Matches excuses (related frame)
      (Run.condition other code second) :=
  (agree inCall alike code).andThen fun value _ _ alike =>
    Outcome.matches_ofRun (Value.truth value) alike

theorem Alongside.values (agree : Alongside related entered excuses run other)
    (inCall : entered frame) (alike : related frame first second) (codes : List Code) :
    (Run.values run codes first).Matches excuses (related frame)
      (Run.values other codes second) := by
  induction codes generalizing first second with
  | nil => exact .done [] alike
  | cons code others continued =>
      apply (agree inCall alike code).andThen
      intro value left right alike
      exact (continued alike).andThen fun rest _ _ alike => .done (value :: rest) alike

theorem Alongside.body (agree : Alongside related entered excuses run other)
    (inCall : entered frame) (alike : related frame first second) (statements : List Code)
    (value : String) :
    (Run.body run statements value first).Matches excuses (related frame)
      (Run.body other statements value second) := by
  induction statements generalizing value first second with
  | nil => exact .done value alike
  | cons code others continued =>
      exact (agree inCall alike code).andThen fun value _ _ alike => continued alike value

/-- The first run may have fewer turns if it is excused for lack of fuel. -/
theorem Alongside.loop (agree : Alongside related entered excuses run other)
    (inCall : entered frame) (alike : related frame first second) (test increment : Code)
    (statements : List Code) {turns more : Nat}
    (allowed : excuses.Allow turns more) (value : String) :
    (Run.loop run test increment statements turns value first).Matches excuses (related frame)
      (Run.loop other test increment statements more value second) := by
  induction turns generalizing more value first second with
  | zero =>
      obtain same | ⟨pardoned, _⟩ := allowed
      · subst same
        exact .outOfFuel
      · exact .excusedFuel pardoned
  | succ turns continued =>
      obtain ⟨less, same, fewer⟩ := allowed.succ
      subst same
      apply (agree.condition inCall alike test).andThen
      intro holds left right alike
      cases holds with
      | false => exact .done value alike
      | true =>
          apply (agree.body inCall alike statements value).andThen
          intro value left right alike
          exact (agree inCall alike increment).andThen fun _ _ _ alike =>
            continued alike fewer value

/-- Leaving a call changes a store in its scopes only. -/
theorem store_release (state : State) :
    ∃ scopes, (release state).2.store = { state.store with scopes := scopes } := by
  obtain ⟨⟨scalars, arrays, objects, functions, registers, scopes⟩, session⟩ := state
  cases scopes with
  | nil => exact ⟨[], rfl⟩
  | cons scope outer =>
      cases outer with
      | nil => exact ⟨[scope], rfl⟩
      | cons next outer => exact ⟨next :: outer, rfl⟩

theorem session_release (state : State) :
    (release state).2.session = state.session.leaveCall := by
  simp only [release]
  cases state.store.popScope <;> rfl

/-- Both runs of a body find the same when they take the scope of the call away. -/
theorem matches_leave {inner outer : State → State → Prop} {ended last : Outcome String}
    (ends : ended.Matches excuses inner last)
    (back : ∀ left right, inner left right →
      (release left).1 = (release right).1 ∧ outer (release left).2 (release right).2) :
    (Run.leave ended).Matches excuses outer (Run.leave last) := by
  cases ends with
  | @done value left right alike =>
      obtain ⟨same, released⟩ := back left right alike
      simp only [Run.leave]
      rcases leftReleased : release left with ⟨result, leftAfter⟩
      rcases rightReleased : release right with ⟨_, rightAfter⟩
      rw [leftReleased, rightReleased] at same released
      subst same
      cases result with
      | ok _ => exact .done value released
      | error error => exact .failed error released
  | failed error alike => exact .failed error (back _ _ alike).2
  | outOfFuel => exact .outOfFuel
  | excusedError pardoned => exact .excusedError pardoned
  | excusedFuel pardoned => exact .excusedFuel pardoned

namespace Lockstep

theorem callRoutine (steps : Lockstep related entered excuses)
    (agree : Alongside related entered excuses run other) (alike : related frame first second)
    (routine : Routine) (arguments : List String) :
    (Run.call run routine arguments first).Matches excuses (related frame)
      (Run.call other routine arguments second) := by
  simp only [Run.call]
  split
  · exact .failed _ alike
  · have noted := steps.note alike (.called routine.index arguments)
    obtain ⟨left, right, leftEntered, rightEntered, inner, inCall, alike, back⟩ |
        ⟨error, leftFailed, rightFailed⟩ | ⟨error, leftFailed, pardoned⟩ :=
      (steps.call noted routine.index (scope routine.params arguments)).elim
    · simp only [leftEntered, rightEntered]
      exact matches_leave (agree.body inCall alike routine.body "") back
    · simp only [leftFailed, rightFailed]
      exact .failed error noted
    · simp only [leftFailed]
      exact .excusedError pardoned

theorem callEntry (steps : Lockstep related entered excuses)
    (agree : Alongside related entered excuses run other) (alike : related frame first second)
    (index : String) (arguments : List String) :
    (Run.callEntry run index arguments first).Matches excuses (related frame)
      (Run.callEntry other index arguments second) := by
  simp only [Run.callEntry, ← steps.function alike index]
  cases first.store.function index with
  | error error => exact .failed error alike
  | ok routine => exact steps.callRoutine agree alike routine arguments

theorem callMethod (steps : Lockstep related entered excuses)
    (agree : Alongside related entered excuses run other) (alike : related frame first second)
    (object function : String) (arguments : List String) :
    (Run.callMethod run object function arguments first).Matches excuses (related frame)
      (Run.callMethod other object function arguments second) := by
  simp only [Run.callMethod]
  obtain ⟨left, right, leftFound, rightFound, inner, within, back⟩ |
      ⟨error, leftMissing, rightMissing⟩ | ⟨error, leftMissing, pardoned⟩ :=
    (steps.object alike object).elim
  · simp only [leftFound, rightFound]
    exact (steps.callEntry agree within function arguments).mapState back
  · simp only [leftMissing, rightMissing]
    exact .failed error alike
  · simp only [leftMissing]
    exact .excusedError pardoned

theorem out (steps : Lockstep related entered excuses)
    (agree : Alongside related entered excuses run other) (inCall : entered frame)
    (alike : related frame first second) (arguments : List (Argument Code)) :
    (Run.out run arguments first).Matches excuses (related frame)
      (Run.out other arguments second) := by
  cases arguments with
  | nil => exact .done "" alike
  | cons argument others =>
      cases argument with
      | value code =>
          exact (agree inCall alike code).andThen fun text _ _ alike =>
            .done "" (steps.write alike text)
      | reference index => exact .failed _ alike

theorem size (steps : Lockstep related entered excuses) (alike : related frame first second)
    (arguments : List (Argument Code)) :
    (Run.size arguments first).Matches excuses (related frame) (Run.size arguments second) := by
  cases arguments with
  | nil => exact .failed _ alike
  | cons argument others =>
      cases argument with
      | value code => exact .failed _ alike
      | reference index =>
          simp only [Run.size, ← steps.array alike index]
          cases first.store.arrays.get? index with
          | none => exact .failed _ alike
          | some items => exact .done _ alike

theorem callBuiltin (steps : Lockstep related entered excuses)
    (agree : Alongside related entered excuses run other) (inCall : entered frame)
    (alike : related frame first second) (name : String) (arguments : List (Argument Code)) :
    (Run.callBuiltin run name arguments first).Matches excuses (related frame)
      (Run.callBuiltin other name arguments second) := by
  simp only [Run.callBuiltin]
  cases Builtin.find name with
  | error fault => exact .failed _ alike
  | ok builtin =>
      cases builtin with
      | out => exact steps.out agree inCall alike arguments
      | size => exact steps.size alike arguments

end Lockstep

end

end Run

/-- Running the same code from related states ends in the same way.  The first
run may have less fuel if it is excused for lack of it. -/
theorem eval_alongside {Frame : Type} {related : Frame → State → State → Prop}
    {entered : Frame → Prop} {excuses : Excuses}
    (steps : Run.Lockstep related entered excuses) {fuel more : Nat}
    (allowed : excuses.Allow fuel more) :
    Run.Alongside related entered excuses (eval fuel) (eval more) := by
  induction fuel generalizing more with
  | zero =>
      intro frame first second _ _ code
      obtain same | ⟨pardoned, _⟩ := allowed
      · subst same
        exact .outOfFuel
      · exact .excusedFuel pardoned
  | succ fuel continued =>
      -- Both runs pass one unit less to their parts, and to the turns of a loop.
      obtain ⟨less, same, fewer⟩ := allowed.succ
      subst same
      have agree := continued fewer
      intro frame first second inCall alike code
      cases code with
      | literal value => exact .done value alike
      | read index => exact Outcome.matches_ofExcept (steps.get alike index) alike
      | write index code =>
          exact (agree inCall alike code).andThen fun value _ _ alike =>
            .done value (steps.setScalar alike index value)
      | register index => exact Outcome.matches_ofExcept (steps.register alike index) alike
      | setRegister index code =>
          exact (agree inCall alike code).andThen fun value _ _ alike =>
            .done value (steps.setRegister alike index value)
      | element index key =>
          exact (agree inCall alike key).andThen fun key _ _ alike =>
            Outcome.matches_ofExcept (steps.element alike index key) alike
      | append index code =>
          apply (agree inCall alike code).andThen
          intro value left right alike
          obtain ⟨_, _, leftLonger, rightLonger, alike⟩ |
              ⟨error, leftFailed, rightFailed⟩ | ⟨error, leftFailed, pardoned⟩ :=
            (steps.append alike index value).elim
          · simp only [leftLonger, rightLonger]
            exact .done value alike
          · simp only [leftFailed, rightFailed]
            exact .failed error alike
          · simp only [leftFailed]
            exact .excusedError pardoned
      | parameter name =>
          exact Outcome.matches_ofExcept (steps.parameter inCall alike name) alike
      | arithmetic op left right =>
          apply (agree.integer inCall alike left).andThen
          intro m _ _ alike
          exact (agree.integer inCall alike right).andThen fun n _ _ alike =>
            Outcome.matches_ofRun _ alike
      | concat left right =>
          apply (agree inCall alike left).andThen
          intro start _ _ alike
          exact (agree inCall alike right).andThen fun rest _ _ alike => .done _ alike
      | compare op left right =>
          apply (agree inCall alike left).andThen
          intro start _ _ alike
          exact (agree inCall alike right).andThen fun rest _ _ alike =>
            Outcome.matches_ofRun _ alike
      | call callee arguments =>
          cases callee with
          | entry index =>
              exact (agree.values inCall alike arguments).andThen fun values _ _ alike =>
                steps.callEntry agree alike index values
          | method object function =>
              exact (agree.values inCall alike arguments).andThen fun values _ _ alike =>
                steps.callMethod agree alike object function values
      | builtin name arguments => exact steps.callBuiltin agree inCall alike name arguments
      | branch test statements =>
          apply (agree.condition inCall alike test).andThen
          intro holds _ _ alike
          cases holds with
          | false => exact .done "" alike
          | true => exact agree.body inCall alike statements ""
      | loop test increment statements =>
          exact agree.loop inCall alike test increment statements fewer ""

end TableScript
