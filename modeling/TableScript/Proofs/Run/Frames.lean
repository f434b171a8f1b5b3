import Mathlib.Logic.Relation
import TableScript.Program
import TableScript.Proofs.Run.Depth

namespace TableScript

/-! Call frames of a program.  Between two calls no call is under way, so the depth
is zero and every object has its outermost scope alone. -/

namespace Store

theorem idle_fresh : fresh.Idle := by
  intro path found reached
  cases path with
  | nil =>
      cases reached
      rfl
  | cons index path => cases reached

theorem Idle.of_eq {before after : Store} (idle : before.Idle)
    (sameScopes : after.scopes = before.scopes) (sameObjects : after.objects = before.objects) :
    after.Idle := by
  intro path found reached
  rw [scopesAt_congr sameScopes sameObjects path] at reached
  exact idle path found reached

theorem Idle.setObject {store inner : Store} (idle : store.Idle) (innerIdle : inner.Idle)
    (index : String) : (store.setObject index inner).Idle := by
  intro path found reached
  cases path with
  | nil => exact idle [] found reached
  | cons first rest =>
      rw [scopesAt_cons, object_setObject] at reached
      by_cases here : first = index
      · rw [if_pos here] at reached
        exact innerIdle rest found reached
      · rw [if_neg here, ← scopesAt_cons] at reached
        exact idle (first :: rest) found reached

end Store

namespace State

/-- No call is under way. -/
def Resting (state : State) : Prop :=
  state.session.depth = 0 ∧ state.store.Idle

theorem Resting.defineFunction {state : State} (resting : state.Resting) (index : String)
    (tree : FunctionTree) : (state.defineFunction index tree).2.Resting := by
  unfold State.defineFunction
  cases tree.compile with
  | error error => exact resting
  | ok routine => exact ⟨resting.1, resting.2.of_eq rfl rfl⟩

mutual

theorem Resting.declare {state : State} (resting : state.Resting)
    (declaration : Declaration FunctionTree) : (State.declare declaration state).2.Resting := by
  cases declaration with
  | scalar index line value => exact ⟨resting.1, resting.2.of_eq rfl rfl⟩
  | array index line items => exact ⟨resting.1, resting.2.of_eq rfl rfl⟩
  | function index line tree => exact resting.defineFunction index tree
  | object index line members =>
      have start : State.Resting ⟨.fresh, state.session⟩ := ⟨resting.1, Store.idle_fresh⟩
      have inner := Resting.declareAll start members
      simp only [State.declare]
      split
      · rename_i reached entered
        rw [entered] at inner
        exact ⟨inner.1, resting.2.setObject inner.2 index⟩
      · rename_i error reached entered
        rw [entered] at inner
        exact ⟨inner.1, resting.2⟩

theorem Resting.declareAll {state : State} (resting : state.Resting)
    (declarations : List (Declaration FunctionTree)) :
    (State.declareAll declarations state).2.Resting := by
  cases declarations with
  | nil => exact resting
  | cons declaration others =>
      have first := Resting.declare resting declaration
      simp only [State.declareAll]
      split
      · rename_i reached declared
        rw [declared] at first
        exact Resting.declareAll first others
      · rename_i error reached declared
        rw [declared] at first
        exact first

end

theorem Resting.released {before after : State} (resting : before.Resting)
    (released : Released before after) : after.Resting :=
  ⟨released.depth.trans resting.1, released.idle resting.2⟩

end State

namespace Program

/-- The second program is the first after a call that has come to an end. -/
inductive Called : Program → Program → Prop where
  | entry {program : Program} {fuel : Nat} {arguments : List String}
      {result : Except Error String} {after : State}
      (ended : (program.callEntry fuel arguments).ended? = some (result, after)) :
      Called program { program with state := after }
  | function {program : Program} {fuel : Nat} {index : String} {arguments : List String}
      {result : Except Error String} {after : State}
      (ended : (program.callFunction fuel index arguments).ended? = some (result, after)) :
      Called program { program with state := after }

theorem resting_compile {settings : Settings} {source : String} {program : Program}
    (compiled : (compile settings source).result = .ok program) : program.state.Resting := by
  have entered (declarations : List (Declaration FunctionTree)) :
      (State.declareAll declarations (State.fresh settings.maxCallDepth)).2.Resting :=
    State.Resting.declareAll ⟨rfl, Store.idle_fresh⟩ declarations
  simp only [compile, Logged.result_bind] at compiled
  cases parsed : (State.readProgram source).result with
  | error error =>
      rw [parsed] at compiled
      cases compiled
  | ok declarations =>
      rw [parsed] at compiled
      specialize entered declarations
      cases declared : State.declareAll declarations (State.fresh settings.maxCallDepth) with
      | mk result state =>
          rw [declared] at entered
          simp only [bind, Except.bind, declared, Logged.andThen] at compiled
          cases result with
          | error error => cases compiled
          | ok done =>
              cases compiled
              exact entered

/-- What the steps of a run respect, a call from outside respects too. -/
theorem Called.related {related : State → State → Prop} (steps : Run.Respects related)
    {program later : Program} (called : Called program later) :
    related program.state later.state := by
  cases called with
  | @entry fuel arguments result after ended =>
      have keeps := eval_keeps steps fuel
      have ends : (program.callEntry fuel arguments).Ends (related program.state) := by
        simp only [callEntry]
        cases program.state.store.function program.settings.entry with
        | error error => exact steps.refl program.state
        | ok routine =>
            -- Dropping surplus arguments is noted before the call.
            simp only
            split
            · exact steps.callRoutine keeps routine _ program.state
            · exact (steps.callRoutine keeps routine _ _).imp fun _ =>
                steps.trans (steps.note program.state _)
      exact ends.of_ended? ended
  | @function fuel index arguments result after ended =>
      exact (steps.callEntry (eval_keeps steps fuel) index arguments program.state).of_ended? ended

theorem Called.resting {program later : Program} (called : Called program later)
    (resting : program.state.Resting) : later.state.Resting :=
  resting.released (called.related Run.respects_released resting.2.framed)

end Program

/-- Call frames are always released.  From a store in which every object has a
scope, and at a depth within the limit, code, a call and a method call end,
done or failed, with the scopes of every object and the depth as they were; and
no state that they pass through is deeper than the limit.  So a program rests
after any calls. -/
theorem frames_released :
    (∀ fuel state, state.store.Framed → state.session.depth ≤ state.session.limit →
      (∀ code,
        (eval fuel code state).Ends (State.Released state) ∧
        (passage fuel code state).outcome = eval fuel code state ∧
        (passage fuel code state).Within state.session.limit) ∧
      (∀ routine arguments,
        (Run.call (eval fuel) routine arguments state).Ends (State.Released state) ∧
        (Passage.call (passage fuel) routine arguments state).outcome =
          Run.call (eval fuel) routine arguments state ∧
        (Passage.call (passage fuel) routine arguments state).Within state.session.limit) ∧
      (∀ object function arguments,
        (Run.callMethod (eval fuel) object function arguments state).Ends
          (State.Released state) ∧
        (Passage.callMethod (passage fuel) object function arguments state).outcome =
          Run.callMethod (eval fuel) object function arguments state ∧
        (Passage.callMethod (passage fuel) object function arguments state).Within
          state.session.limit)) ∧
    (∀ settings source program later,
      (Program.compile settings source).result = .ok program →
      Relation.ReflTransGen Program.Called program later →
      later.state.session.depth = 0 ∧ later.state.store.Idle) := by
  constructor
  · intro fuel state framed within
    have steps := Run.respects_released
    have keeps := eval_keeps steps fuel
    have same := Passage.outcomes_passage fuel
    have kept := Passage.keeps_passage fuel
    have ready : Passage.Ready state.session.limit state := ⟨framed, rfl, within⟩
    have inside (code : Code) (start : State) (ready : Passage.Ready state.session.limit start) :
        (passage fuel code start).Stays state.session.limit :=
      Passage.stays_passage fuel code ready
    refine ⟨fun code => ⟨?_, congrFun (congrFun same code) state, (inside code state ready).within⟩,
      fun routine arguments => ⟨?_, ?_, ?_⟩, fun object function arguments => ⟨?_, ?_, ?_⟩⟩
    · exact (keeps code state).imp fun _ released => released framed
    · exact (steps.callRoutine keeps routine arguments state).imp fun _ released =>
        released framed
    · rw [Passage.outcome_call, same]
    · exact (Passage.stays_call kept inside routine arguments ready).within
    · exact (steps.callMethod keeps object function arguments state).imp fun _ released =>
        released framed
    · rw [Passage.outcome_callMethod, same]
    · exact (Passage.stays_callMethod kept inside object function arguments ready).within
  · intro settings source program later compiled called
    induction called with
    | refl => exact Program.resting_compile compiled
    | tail _ last resting => exact last.resting resting

/-- A state with an object whose function calls itself without end. -/
def endlessRecursion : State :=
  ⟨Store.fresh.setObject "o"
      (Store.fresh.setFunction "f" ⟨"f", [], [.call (.entry "f") []]⟩), Session.fresh 2⟩

/-- The recursion fails at the limit, two calls deep inside the object, and all
calls under way are left one after the other.  A program without an entry function
rests after the call that misses it. -/
theorem frames_released_at_limit :
    (endlessRecursion.store.Framed ∧
      endlessRecursion.session.depth ≤ endlessRecursion.session.limit ∧
      (∃ after,
        (eval 5 (.call (.method "o" "f") []) endlessRecursion).ended? =
          some (.error (.runtime (.depthExceeded 2 "f")), after) ∧
        State.Released endlessRecursion after) ∧
      (passage 5 (.call (.method "o" "f") []) endlessRecursion).outcome =
        eval 5 (.call (.method "o" "f") []) endlessRecursion ∧
      (passage 5 (.call (.method "o" "f") []) endlessRecursion).Within 2 ∧
      (passage 5 (.call (.method "o" "f") []) endlessRecursion).points.map
        (fun point => point.session.depth) = [0, 0, 1, 1, 1, 2, 2, 2, 2, 1, 0, 0]) ∧
    ∃ program later,
      (Program.compile .default "[\n]").result = .ok program ∧ Program.Called program later ∧
        later.state.session.depth = 0 ∧ later.state.store.Idle := by
  constructor
  · have object : (Store.fresh.setFunction "f" ⟨"f", [], [.call (.entry "f") []]⟩).Idle :=
      Store.idle_fresh.of_eq rfl rfl
    have framed : endlessRecursion.store.Framed := (Store.idle_fresh.setObject object "o").framed
    have within : endlessRecursion.session.depth ≤ endlessRecursion.session.limit := by decide
    obtain ⟨ends, same, points⟩ := (frames_released.1 5 endlessRecursion framed within).1
      (.call (.method "o" "f") [])
    exact ⟨framed, within, ⟨_, rfl, ends.of_ended? rfl⟩, same, points, rfl⟩
  · have read : (State.readProgram "[\n]").result = .ok [] := rfl
    have compiled : (Program.compile .default "[\n]").result =
        .ok ⟨.default, .fresh Settings.default.maxCallDepth⟩ := by
      rw [Program.compile, Logged.result_bind, read]
      rfl
    have called : Program.Called ⟨.default, .fresh Settings.default.maxCallDepth⟩
        ⟨.default, .fresh Settings.default.maxCallDepth⟩ := @Program.Called.entry _ 1 [] _ _ rfl
    exact ⟨_, _, compiled, called, frames_released.2 _ _ _ _ compiled (.single called)⟩

end TableScript
