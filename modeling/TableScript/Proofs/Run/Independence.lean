import TableScript.Proofs.Run.Frames
import TableScript.Proofs.Run.Fuel

namespace TableScript

/-! Calls on different objects are independent.  The objects of a program share
the session, but a call gives back the depth that it takes, and no step reads
the output; so a call goes the same way whatever was written before it, and it
changes nothing but its own object and the end of the output. -/

namespace Table

variable {α : Type} {first second : String} {firstValue secondValue : α}

theorem insertEntry_comm (different : first ≠ second) {entries : List (String × α)} {held : α}
    (found : entries.lookup first = some held) :
    insertEntry second secondValue (insertEntry first firstValue entries) =
      insertEntry first firstValue (insertEntry second secondValue entries) := by
  induction entries with
  | nil => cases found
  | cons entry others continued =>
      obtain ⟨key, kept⟩ := entry
      by_cases here : first = key
      · subst here
        simp [insertEntry, different.symm]
      · by_cases there : second = key
        · subst there
          simp [insertEntry, different]
        · have further : others.lookup first = some held := by
            simpa [List.lookup_cons, beq_eq_false_iff_ne.mpr here] using found
          simp [insertEntry, here, there, continued further]

/-- A value under a key that is there already does not move, so it does not
matter when it is inserted. -/
theorem insert_comm (different : first ≠ second) {table : Table α} {held : α}
    (found : table.get? first = some held) :
    (table.insert first firstValue).insert second secondValue =
      (table.insert second secondValue).insert first firstValue :=
  congrArg Table.mk (insertEntry_comm different found)

end Table

namespace Store

variable {store : Store} {first second : String}

theorem get?_of_object {index : String} {inner : Store}
    (held : store.object index = .ok inner) : store.objects.get? index = some inner := by
  unfold Store.object at held
  split at held
  · rename_i found
    cases held
    exact found
  · cases held

theorem setObject_comm (different : first ≠ second) {inner : Store}
    (held : store.object first = .ok inner) (firstAfter secondAfter : Store) :
    (store.setObject first firstAfter).setObject second secondAfter =
      (store.setObject second secondAfter).setObject first firstAfter := by
  simp only [setObject, Table.insert_comm different (get?_of_object held)]

end Store

namespace State

/-- Of the first state, all but the object under an index and the output is as it
was. -/
structure ChangedOnly (index : String) (before after : State) : Prop where
  scalars : after.store.scalars = before.store.scalars
  arrays : after.store.arrays = before.store.arrays
  functions : after.store.functions = before.store.functions
  registers : after.store.registers = before.store.registers
  scopes : after.store.scopes = before.store.scopes
  objects : ∀ other, other ≠ index →
    after.store.objects.get? other = before.store.objects.get? other
  depth : after.session.depth = before.session.depth
  limit : after.session.limit = before.session.limit

theorem changedOnly_leaveObject {state inside : State} (index : String)
    (depth : inside.session.depth = state.session.depth)
    (limit : inside.session.limit = state.session.limit) :
    ChangedOnly index state (leaveObject state.store index inside) :=
  ⟨rfl, rfl, rfl, rfl, rfl,
    fun _ different => Table.get?_insert_of_ne _ _ different, depth, limit⟩

end State

namespace Run

/-- The states agree but for their outputs, and these went on with one text from
where they were. -/
structure Echoed (outputs : String × String) (first second : State) : Prop where
  store : second.store = first.store
  depth : second.session.depth = first.session.depth
  limit : second.session.limit = first.session.limit
  written : ∃ text, first.session.output = outputs.1 ++ text ∧
    second.session.output = outputs.2 ++ text

namespace Echoed

variable {outputs : String × String} {first second : State}

theorem start {store : Store} {session other : Session} (sameDepth : other.depth = session.depth)
    (sameLimit : other.limit = session.limit) :
    Echoed (session.output, other.output) ⟨store, session⟩ ⟨store, other⟩ :=
  ⟨rfl, sameDepth, sameLimit, "", String.append_empty.symm, String.append_empty.symm⟩

theorem write (echoed : Echoed outputs first second) (text : String) :
    Echoed outputs (first.write text) (second.write text) := by
  obtain ⟨earlier, left, right⟩ := echoed.written
  refine ⟨echoed.store, echoed.depth, echoed.limit, earlier ++ text, ?_, ?_⟩
  · rw [← String.append_assoc, ← left]
    rfl
  · rw [← String.append_assoc, ← right]
    rfl

theorem append (echoed : Echoed outputs first second) (index value : String) :
    Matched (fun _ => False) (Echoed outputs) (first.append index value)
      (second.append index value) := by
  simp only [State.append, echoed.store]
  cases first.store.arrays.get? index with
  | none => exact .error _
  | some items => exact .ok ⟨rfl, echoed.depth, echoed.limit, echoed.written⟩

theorem enterCall (echoed : Echoed outputs first second) (index : String) (scope : Scope) :
    Matched (fun _ => False)
      (fun left right => Echoed outputs ⟨first.store.pushScope scope, left⟩
        ⟨second.store.pushScope scope, right⟩)
      (first.session.enterCall index) (second.session.enterCall index) := by
  simp only [Session.enterCall, echoed.depth, echoed.limit]
  split
  · exact .error _
  · exact .ok ⟨congrArg (·.pushScope scope) echoed.store, rfl, rfl, echoed.written⟩

theorem release (echoed : Echoed outputs first second) :
    (Run.release first).1 = (Run.release second).1 ∧
      Echoed outputs (Run.release first).2 (Run.release second).2 := by
  have depth : second.session.leaveCall.depth = first.session.leaveCall.depth :=
    congrArg (· - 1) echoed.depth
  simp only [Run.release, echoed.store]
  cases first.store.popScope with
  | ok popped => exact ⟨rfl, rfl, depth, echoed.limit, echoed.written⟩
  | error error => exact ⟨rfl, rfl, depth, echoed.limit, echoed.written⟩

end Echoed

theorem lockstep_echoed : Lockstep Echoed (fun _ => True) ⟨fun _ => False, False⟩ where
  get echoed _ := by rw [echoed.store]
  register echoed _ := by rw [echoed.store]
  element echoed _ _ := by rw [echoed.store]
  array echoed _ := by rw [echoed.store]
  function echoed _ := by rw [echoed.store]
  parameter _ echoed _ := by rw [echoed.store]
  note echoed _ := ⟨echoed.store, echoed.depth, echoed.limit, echoed.written⟩
  setScalar echoed index value :=
    ⟨congrArg (·.setScalar index value) echoed.store, echoed.depth, echoed.limit, echoed.written⟩
  setRegister echoed index value :=
    ⟨congrArg (·.setRegister index value) echoed.store, echoed.depth, echoed.limit,
      echoed.written⟩
  append echoed index value := echoed.append index value
  write echoed text := echoed.write text
  call := by
    intro outputs first second echoed index scope
    obtain ⟨left, right, leftEntered, rightEntered, inside⟩ |
        ⟨error, leftFailed, rightFailed⟩ | ⟨_, _, impossible⟩ :=
      (echoed.enterCall index scope).elim
    · rw [leftEntered, rightEntered]
      exact .ok ⟨outputs, trivial, inside, fun _ _ ended => ended.release⟩
    · rw [leftFailed, rightFailed]
      exact .error error
    · exact absurd impossible id
  object := by
    intro outputs first second echoed index
    rw [echoed.store]
    cases first.store.object index with
    | error error => exact .error error
    | ok object =>
        refine .ok ⟨outputs, ⟨rfl, echoed.depth, echoed.limit, echoed.written⟩, ?_⟩
        intro ended other inside
        exact ⟨congrArg (first.store.setObject index) inside.store, inside.depth, inside.limit,
          inside.written⟩

end Run

/-- A call of a function by its index, with enough fuel. -/
def CallReturns (index : String) (arguments : List String) (state : State) :
    Except Error String → State → Prop :=
  Settles fun fuel => call fuel index arguments state

/-- A call of a function of a nested object, with enough fuel. -/
def MethodReturns (object function : String) (arguments : List String) (state : State) :
    Except Error String → State → Prop :=
  Settles fun fuel => Run.callMethod (eval fuel) object function arguments state

theorem callReturns_of_ended {index : String} {arguments : List String} {state after : State}
    {fuel : Nat} {result : Except Error String}
    (ended : (call fuel index arguments state).ended? = some (result, after)) :
    CallReturns index arguments state result after := by
  refine ⟨fuel, fun more enough => ?_⟩
  have steps := Run.lockstep_same
  have agree := eval_alongside steps (.inr ⟨trivial, enough⟩)
  have alike : Run.Same () state state := rfl
  exact (steps.callEntry agree alike index arguments).of_ended ended

/-- What was written before a call has no influence on it. -/
theorem CallReturns.echo {index : String} {arguments : List String} {store : Store}
    {session other : Session} {result : Except Error String} {after : State}
    (returns : CallReturns index arguments ⟨store, session⟩ result after)
    (sameDepth : other.depth = session.depth) (sameLimit : other.limit = session.limit) :
    ∃ last, CallReturns index arguments ⟨store, other⟩ result last ∧
      Run.Echoed (session.output, other.output) after last := by
  obtain ⟨enough, ended⟩ := returns
  have here : (Run.callEntry (eval enough) index arguments ⟨store, session⟩).ended? =
      some (result, after) := ended enough (Nat.le_refl enough)
  have steps := Run.lockstep_echoed
  have agree := eval_alongside steps (Excuses.Allow.refl enough)
  have start : Run.Echoed (session.output, other.output) ⟨store, session⟩ ⟨store, other⟩ :=
    .start sameDepth sameLimit
  obtain ⟨none, _⟩ | ⟨_, _, last, reached, there, echoed⟩ :=
    (steps.callEntry agree start index arguments).unexcused
  · rw [none] at here
    cases here
  · rw [reached] at here
    cases here
    exact ⟨last, callReturns_of_ended there, echoed⟩

theorem CallReturns.released {index : String} {arguments : List String} {state after : State}
    {result : Except Error String} (returns : CallReturns index arguments state result after)
    (framed : state.store.Framed) : State.Released state after := by
  obtain ⟨enough, ended⟩ := returns
  have steps := Run.respects_released
  have ends := steps.callEntry (eval_keeps steps enough) index arguments state
  exact ends.of_ended? (ended enough (Nat.le_refl enough)) framed

theorem Outcome.ended?_mapState {α : Type} (outcome : Outcome α) (change : State → State) :
    (outcome.mapState change).ended? =
      outcome.ended?.map fun ended => (ended.1, change ended.2) := by
  cases outcome <;> rfl

/-- A method call is a call inside the object, which is then put back. -/
theorem methodReturns_iff {object function : String} {arguments : List String}
    {state after : State} {inner : Store} {result : Except Error String}
    (held : state.store.object object = .ok inner) :
    MethodReturns object function arguments state result after ↔
      ∃ inside, CallReturns function arguments ⟨inner, state.session⟩ result inside ∧
        after = State.leaveObject state.store object inside := by
  have visited (fuel : Nat) :
      (Run.callMethod (eval fuel) object function arguments state).ended? =
        (call fuel function arguments ⟨inner, state.session⟩).ended?.map fun ended =>
          (ended.1, State.leaveObject state.store object ended.2) := by
    simp only [Run.callMethod, held, Outcome.ended?_mapState, call]
  constructor
  · rintro ⟨enough, ended⟩
    have here := ended enough (Nat.le_refl enough)
    rw [visited, Option.map_eq_some_iff] at here
    obtain ⟨⟨_, inside⟩, there, same⟩ := here
    cases same
    exact ⟨inside, callReturns_of_ended there, rfl⟩
  · rintro ⟨inside, ⟨enough, ended⟩, same⟩
    subst same
    refine ⟨enough, fun fuel sufficient => ?_⟩
    rw [visited, ended fuel sufficient]
    rfl

/-- A call on one object returns the same after a call on another one, whose
depth has been given back. -/
theorem CallReturns.after_other {object other function : String} {arguments : List String}
    {state inside visited : State} {inner : Store} {result : Except Error String}
    (different : object ≠ other) (held : state.store.object object = .ok inner)
    (returns : CallReturns function arguments ⟨inner, state.session⟩ result inside)
    (depth : visited.session.depth = state.session.depth)
    (limit : visited.session.limit = state.session.limit) :
    ∃ last, MethodReturns object function arguments (State.leaveObject state.store other visited)
        result (State.leaveObject (state.store.setObject other visited.store) object last) ∧
      Run.Echoed (state.session.output, visited.session.output) inside last := by
  have stillHeld :
      (State.leaveObject state.store other visited).store.object object = .ok inner := by
    rw [State.leaveObject, Store.object_setObject, if_neg different, held]
  obtain ⟨last, again, echoed⟩ := returns.echo depth limit
  exact ⟨last, (methodReturns_iff stillHeld).mpr ⟨last, again, rfl⟩, echoed⟩

/-- Calls on different objects are independent.  If a call on each of two objects
comes to an end, then either order of the calls has the same two results and
leaves the same store, whether the calls are done or failed.  Each call changes
nothing but its own object and adds its own text to the output. -/
theorem object_calls_commute {state firstAfter secondAfter : State}
    {first second f g : String} {firstInner secondInner : Store} {xs ys : List String}
    {firstResult secondResult : Except Error String} (framed : state.store.Framed)
    (different : first ≠ second) (firstHeld : state.store.object first = .ok firstInner)
    (secondHeld : state.store.object second = .ok secondInner)
    (firstReturns : MethodReturns first f xs state firstResult firstAfter)
    (secondReturns : MethodReturns second g ys state secondResult secondAfter) :
    ∃ last other firstText secondText,
      MethodReturns second g ys firstAfter secondResult last ∧
      MethodReturns first f xs secondAfter firstResult other ∧
      last.store = other.store ∧
      (State.ChangedOnly first state firstAfter ∧ State.ChangedOnly second firstAfter last) ∧
      (State.ChangedOnly second state secondAfter ∧ State.ChangedOnly first secondAfter other) ∧
      (firstAfter.session.output = state.session.output ++ firstText ∧
        last.session.output = state.session.output ++ firstText ++ secondText) ∧
      (secondAfter.session.output = state.session.output ++ secondText ∧
        other.session.output = state.session.output ++ secondText ++ firstText) := by
  obtain ⟨firstInside, firstCall, same⟩ := (methodReturns_iff firstHeld).mp firstReturns
  subst same
  obtain ⟨secondInside, secondCall, same⟩ := (methodReturns_iff secondHeld).mp secondReturns
  subst same
  have firstReleased := firstCall.released (framed.object firstHeld)
  have secondReleased := secondCall.released (framed.object secondHeld)
  -- A call leaves the depth as it was and the other object alone, so the other
  -- call, run after it, does in its object what it does by itself.
  obtain ⟨last, secondAgain, secondEchoed⟩ :=
    secondCall.after_other different.symm secondHeld firstReleased.depth firstReleased.limit
  obtain ⟨other, firstAgain, firstEchoed⟩ :=
    firstCall.after_other different firstHeld secondReleased.depth secondReleased.limit
  obtain ⟨firstText, firstWrote, firstWroteAgain⟩ := firstEchoed.written
  obtain ⟨secondText, secondWrote, secondWroteAgain⟩ := secondEchoed.written
  refine ⟨_, _, firstText, secondText, secondAgain, firstAgain, ?_, ⟨?_, ?_⟩, ⟨?_, ?_⟩,
    ⟨firstWrote, ?_⟩, ⟨secondWrote, ?_⟩⟩
  · simp only [State.leaveObject, firstEchoed.store, secondEchoed.store]
    exact Store.setObject_comm different firstHeld _ _
  · exact State.changedOnly_leaveObject first firstReleased.depth firstReleased.limit
  · apply State.changedOnly_leaveObject second
    · rw [secondEchoed.depth]
      exact secondReleased.depth.trans firstReleased.depth.symm
    · rw [secondEchoed.limit]
      exact secondReleased.limit.trans firstReleased.limit.symm
  · exact State.changedOnly_leaveObject second secondReleased.depth secondReleased.limit
  · apply State.changedOnly_leaveObject first
    · rw [firstEchoed.depth]
      exact firstReleased.depth.trans secondReleased.depth.symm
    · rw [firstEchoed.limit]
      exact firstReleased.limit.trans secondReleased.limit.symm
  · rw [← firstWrote]
    exact secondWroteAgain
  · rw [← secondWrote]
    exact firstWroteAgain

/-- A function that writes its parameter, keeps it in an array and then fails. -/
def failing : Store :=
  (Store.fresh.setArray "log" []).setFunction "f"
    ⟨"f", ["x"], [.builtin "out" [.value (.append "log" (.parameter "x"))], .read "missing"]⟩

/-- A function that calls another one of its object and writes what that returns. -/
def writing : Store :=
  let helper := Store.fresh.setFunction "h" ⟨"h", [], [.setRegister "r" (.literal "b")]⟩
  helper.setFunction "g" ⟨"g", [], [.builtin "out" [.value (.call (.entry "h") [])]]⟩

def twoObjects : State :=
  ⟨(Store.fresh.setObject "a" failing).setObject "b" writing, Session.fresh 2⟩

/-- The call on the first object fails after it has changed the object, and the
call on the second one needs all of the depth. -/
theorem object_calls_commute_failing :
    (twoObjects.store.Framed ∧ "a" ≠ "b") ∧
    ∃ firstAfter secondAfter last other,
      MethodReturns "a" "f" ["a"] twoObjects (.error (.bind [] (.unknownEntry "missing")))
        firstAfter ∧
      MethodReturns "b" "g" [] twoObjects (.ok "") secondAfter ∧
      MethodReturns "b" "g" [] firstAfter (.ok "") last ∧
      MethodReturns "a" "f" ["a"] secondAfter (.error (.bind [] (.unknownEntry "missing")))
        other ∧
      last.store = other.store ∧ firstAfter.session.output = "a" ∧
      secondAfter.session.output = "b" ∧ State.ChangedOnly "a" twoObjects firstAfter := by
  have firstIdle : failing.Idle := Store.idle_fresh.of_eq rfl rfl
  have secondIdle : writing.Idle := Store.idle_fresh.of_eq rfl rfl
  have framed : twoObjects.store.Framed :=
    ((Store.idle_fresh.setObject firstIdle "a").setObject secondIdle "b").framed
  have different : "a" ≠ "b" := by decide
  have firstHeld : twoObjects.store.object "a" = .ok failing := rfl
  have secondHeld : twoObjects.store.object "b" = .ok writing := rfl
  have firstCall := callReturns_of_ended
    (show (call 4 "f" ["a"] ⟨failing, twoObjects.session⟩).ended? =
      some (.error (.bind [] (.unknownEntry "missing")), _) from rfl)
  have secondCall := callReturns_of_ended
    (show (call 4 "g" [] ⟨writing, twoObjects.session⟩).ended? = some (.ok "", _) from rfl)
  have firstReturns := (methodReturns_iff firstHeld).mpr ⟨_, firstCall, rfl⟩
  have secondReturns := (methodReturns_iff secondHeld).mpr ⟨_, secondCall, rfl⟩
  obtain ⟨last, other, _, _, secondAgain, firstAgain, same, ⟨changed, _⟩, _⟩ :=
    object_calls_commute framed different firstHeld secondHeld firstReturns secondReturns
  exact ⟨⟨framed, different⟩, _, _, last, other, firstReturns, secondReturns, secondAgain,
    firstAgain, same, rfl, rfl, changed⟩

end TableScript
