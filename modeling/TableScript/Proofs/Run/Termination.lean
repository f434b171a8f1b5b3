import TableScript.Proofs.Run.Frames
import TableScript.Proofs.Run.Fuel

namespace TableScript

/-! Runs without loops end.  Functions are looked up when they are called, so
nothing in the code bounds a recursion; but every call raises the depth for as
long as its body runs, and the depth stays within its limit.  The fuel that a
run needs is therefore bounded by the size of its code and, for each level that
the depth may still rise, by the size of the functions. -/

namespace Code

mutual

/-- No loop occurs in the code, whether it would be run or not. -/
def loopFree : Code → Bool
  | literal _ | read _ | register _ | parameter _ => true
  | write _ code | setRegister _ code | element _ code | append _ code => loopFree code
  | arithmetic _ left right | concat left right | compare _ left right =>
      loopFree left && loopFree right
  | call _ arguments => loopFreeAll arguments
  | builtin _ arguments => loopFreeArguments arguments
  | branch test statements => loopFree test && loopFreeAll statements
  | loop _ _ _ => false

def loopFreeAll : List Code → Bool
  | [] => true
  | code :: others => loopFree code && loopFreeAll others

def loopFreeArguments : List (Argument Code) → Bool
  | [] => true
  | argument :: others => loopFreeArgument argument && loopFreeArguments others

def loopFreeArgument : Argument Code → Bool
  | .value code => loopFree code
  | .reference _ => true

end

theorem sizeOf_pos (code : Code) : 0 < sizeOf code := by
  cases code <;> simp +arith

end Code

theorem Table.sizeOf_lt {α : Type} [SizeOf α] {table : Table α} {key : String} {value : α}
    (found : table.get? key = some value) : sizeOf value < sizeOf table := by
  obtain ⟨entries⟩ := table
  simp only [Table.mk.sizeOf_spec]
  simp only [Table.get?] at found
  induction entries with
  | nil => cases found
  | cons entry others continued =>
      obtain ⟨name, held⟩ := entry
      simp only [List.lookup_cons] at found
      simp only [List.cons.sizeOf_spec, Prod.mk.sizeOf_spec]
      split at found
      · cases found
        omega
      · have deeper := continued found
        omega

namespace Store

/-- All functions of a store and of the objects in it, at any depth, satisfy
`holds`. -/
def EveryRoutine (holds : Routine → Prop) (store : Store) : Prop :=
  ∀ path inner index routine, store.follow path = .ok inner →
    inner.function index = .ok routine → holds routine

/-- No function has a loop. -/
def LoopFree (store : Store) : Prop :=
  store.EveryRoutine fun routine => Code.loopFreeAll routine.body = true

variable {holds : Routine → Prop} {store inner : Store} {index : String}

theorem follow_cons (store : Store) (index : String) (path : List String) :
    store.follow (index :: path) = (store.object index).bind fun object => object.follow path :=
  rfl

theorem EveryRoutine.function (every : store.EveryRoutine holds) {routine : Routine}
    (found : store.function index = .ok routine) : holds routine :=
  every [] store index routine rfl found

theorem EveryRoutine.object (every : store.EveryRoutine holds)
    (found : store.object index = .ok inner) : inner.EveryRoutine holds := by
  intro path deeper name routine reached
  apply every (index :: path) deeper name routine
  rw [follow_cons, found]
  exact reached

theorem EveryRoutine.of_eq {after : Store} (every : store.EveryRoutine holds)
    (sameFunctions : after.functions = store.functions)
    (sameObjects : after.objects = store.objects) : after.EveryRoutine holds := by
  intro path deeper name routine reached found
  cases path with
  | nil =>
      cases reached
      simp only [Store.function, sameFunctions] at found
      exact every.function found
  | cons first rest =>
      apply every (first :: rest) deeper name routine _ found
      simp only [follow_cons, Store.object, sameObjects] at reached
      exact reached

theorem EveryRoutine.setObject (every : store.EveryRoutine holds)
    (innerEvery : inner.EveryRoutine holds) (index : String) :
    (store.setObject index inner).EveryRoutine holds := by
  intro path deeper name routine reached found
  cases path with
  | nil =>
      cases reached
      exact every.function found
  | cons first rest =>
      rw [follow_cons, object_setObject] at reached
      by_cases here : first = index
      · rw [if_pos here] at reached
        exact innerEvery rest deeper name routine reached found
      · rw [if_neg here, ← follow_cons] at reached
        exact every (first :: rest) deeper name routine reached found

theorem everyRoutine_fresh (holds : Routine → Prop) : fresh.EveryRoutine holds := by
  intro path inner index routine reached found
  cases path with
  | nil =>
      cases reached
      cases found
  | cons first rest => cases reached

theorem EveryRoutine.setFunction (every : store.EveryRoutine holds) (index : String)
    {routine : Routine} (held : holds routine) :
    (store.setFunction index routine).EveryRoutine holds := by
  intro path deeper name other reached found
  cases path with
  | nil =>
      cases reached
      simp only [Store.function, Store.setFunction, Table.get?_insert] at found
      by_cases here : name = index
      · rw [if_pos here] at found
        cases found
        exact held
      · rw [if_neg here] at found
        exact every.function found
  | cons first rest => exact every (first :: rest) deeper name other reached found

theorem sizeOf_object {object : Store} (found : store.object index = .ok object) :
    sizeOf object < sizeOf store := by
  obtain ⟨scalars, arrays, objects, functions, registers, scopes⟩ := store
  simp only [Store.object] at found
  split at found
  · rename_i held
    cases found
    have smaller := Table.sizeOf_lt held
    simp only [Store.mk.sizeOf_spec]
    omega
  · cases found

theorem sizeOf_function {routine : Routine} (found : store.function index = .ok routine) :
    sizeOf routine.body < sizeOf store := by
  obtain ⟨scalars, arrays, objects, functions, registers, scopes⟩ := store
  obtain ⟨name, params, body⟩ := routine
  simp only [Store.function] at found
  split at found
  · rename_i held
    cases found
    have smaller := Table.sizeOf_lt held
    simp only [Store.mk.sizeOf_spec]
    simp only [Routine.mk.sizeOf_spec] at smaller
    omega
  · cases found

/-- The size of a store bounds the size of every function in it. -/
theorem everyRoutine_sizeOf (store : Store) :
    store.EveryRoutine fun routine => sizeOf routine.body ≤ sizeOf store := by
  intro path
  induction path generalizing store with
  | nil =>
      intro inner index routine reached found
      cases reached
      exact Nat.le_of_lt (sizeOf_function found)
  | cons first rest continued =>
      intro inner index routine reached found
      rw [follow_cons] at reached
      cases entered : store.object first with
      | error error =>
          rw [entered] at reached
          cases reached
      | ok object =>
          rw [entered] at reached
          have smaller := sizeOf_object entered
          have bound := continued object inner index routine reached found
          omega

end Store

namespace Run

/-- The depth and its limit are as before, and what held of every function still
does. -/
structure Sustained (holds : Routine → Prop) (before after : State) : Prop where
  depth : after.session.depth = before.session.depth
  limit : after.session.limit = before.session.limit
  routines : before.store.EveryRoutine holds → after.store.EveryRoutine holds

theorem Sustained.of_eq {holds : Routine → Prop} {before after : State}
    (sameDepth : after.session.depth = before.session.depth)
    (sameLimit : after.session.limit = before.session.limit)
    (sameFunctions : after.store.functions = before.store.functions)
    (sameObjects : after.store.objects = before.store.objects) : Sustained holds before after :=
  ⟨sameDepth, sameLimit, fun every => every.of_eq sameFunctions sameObjects⟩

theorem respects_sustained (holds : Routine → Prop) : Respects (Sustained holds) where
  refl state := .of_eq rfl rfl rfl rfl
  trans first second :=
    ⟨second.depth.trans first.depth, second.limit.trans first.limit,
      fun every => second.routines (first.routines every)⟩
  note state event := .of_eq rfl rfl rfl rfl
  setScalar state index value := .of_eq rfl rfl rfl rfl
  setRegister state index value := .of_eq rfl rfl rfl rfl
  append := by
    intro state index value after appended
    unfold State.append at appended
    split at appended
    · cases appended
      exact .of_eq rfl rfl rfl rfl
    · cases appended
  write state text := .of_eq rfl rfl rfl rfl
  call := by
    intro state inner index session scope entered body
    obtain ⟨_, deeper, limit⟩ := Session.enterCall_ok entered
    obtain ⟨scopes, store⟩ := store_release inner
    refine ⟨?_, ?_, ?_⟩
    · have same : inner.session.depth = session.depth := body.depth
      rw [session_release]
      simp only [Session.leaveCall]
      omega
    · rw [session_release]
      exact body.limit.trans limit
    · intro every
      rw [store]
      exact (body.routines (every.of_eq rfl rfl)).of_eq rfl rfl
  object := by
    intro state inner index object found visit
    refine ⟨visit.depth, visit.limit, fun every => ?_⟩
    exact every.setObject (visit.routines (every.object found)) index

end Run

namespace Outcome

/-- The run has come to an end, done or failed. -/
def Ended {α : Type} : Outcome α → Prop
  | done _ _ | failed _ _ => True
  | outOfFuel => False

theorem Ended.andThen {α β : Type} {holds : State → Prop} {first : Outcome α}
    {next : α → State → Outcome β} (ended : first.Ended) (ends : first.Ends holds)
    (continued : ∀ value after, holds after → (next value after).Ended) :
    (first.andThen next).Ended := by
  cases first with
  | done value after => exact continued value after ends
  | failed error after => trivial
  | outOfFuel => exact absurd ended id

theorem ended_ofExcept {α : Type} (result : Except Error α) (state : State) :
    (ofExcept result state).Ended := by
  cases result <;> trivial

theorem ended_ofRun {α : Type} (result : Except RunFault α) (state : State) :
    (ofRun result state).Ended := by
  cases result <;> trivial

theorem Ended.mapState {α : Type} {outcome : Outcome α} (ended : outcome.Ended)
    (change : State → State) : (outcome.mapState change).Ended := by
  cases outcome with
  | done value after => trivial
  | failed error after => trivial
  | outOfFuel => exact ended

theorem Ended.leave {outcome : Outcome String} (ended : outcome.Ended) :
    (Run.leave outcome).Ended := by
  cases outcome with
  | done value after =>
      simp only [Run.leave]
      split <;> trivial
  | failed error after => trivial
  | outOfFuel => exact ended

theorem Ended.exists_ended? {α : Type} {outcome : Outcome α} (ended : outcome.Ended) :
    ∃ result after, outcome.ended? = some (result, after) := by
  cases outcome with
  | done value after => exact ⟨_, _, rfl⟩
  | failed error after => exact ⟨_, _, rfl⟩
  | outOfFuel => exact absurd ended id

end Outcome

namespace Run

/-- A function without loops, and no larger than `most`. -/
def Small (most : Nat) (routine : Routine) : Prop :=
  Code.loopFreeAll routine.body = true ∧ sizeOf routine.body ≤ most

/-- The fuel suffices for code of the given size, if functions are no larger
than `most`: it pays for the code and for one function at each level that the
depth may still rise. -/
structure Affords (most fuel : Nat) (state : State) (size : Nat) : Prop where
  routines : state.store.EveryRoutine (Small most)
  fuel : size + (state.session.limit - state.session.depth) * most ≤ fuel

variable {most fuel size piece : Nat} {state later : State}

theorem Affords.less (affords : Affords most fuel state size) (smaller : piece ≤ size) :
    Affords most fuel state piece :=
  ⟨affords.routines, Nat.le_trans (Nat.add_le_add_right smaller _) affords.fuel⟩

/-- The parts of a construct are smaller than the whole and get one unit less. -/
theorem Affords.part (affords : Affords most (fuel + 1) state size) (smaller : piece < size) :
    Affords most fuel state piece := by
  have paid := affords.fuel
  exact ⟨affords.routines, by omega⟩

theorem Affords.after (affords : Affords most fuel state size)
    (sustained : Sustained (Small most) state later) : Affords most fuel later size := by
  refine ⟨sustained.routines affords.routines, ?_⟩
  rw [sustained.depth, sustained.limit]
  exact affords.fuel

/-- A level that a call takes pays for the body of its function. -/
theorem Affords.enter {index : String} {session : Session} {routine : Routine} (scope : Scope)
    (affords : Affords most fuel state 0) (small : Small most routine)
    (entered : state.session.enterCall index = .ok session) :
    Affords most fuel ⟨state.store.pushScope scope, session⟩ (sizeOf routine.body) := by
  obtain ⟨room, deeper, limit⟩ := Session.enterCall_ok entered
  refine ⟨affords.routines.of_eq rfl rfl, ?_⟩
  have paid := affords.fuel
  -- One of the levels that were left is now taken.
  have levels : state.session.limit - state.session.depth =
      (state.session.limit - (state.session.depth + 1)) + 1 := by omega
  rw [levels, Nat.succ_mul] at paid
  have bound := small.2
  simp only [deeper, limit]
  omega

theorem Affords.object {index : String} {object : Store} (affords : Affords most fuel state size)
    (found : state.store.object index = .ok object) :
    Affords most fuel ⟨object, state.session⟩ size :=
  ⟨affords.routines.object found, affords.fuel⟩

/-- All code without loops that the fuel affords comes to an end. -/
def Finishes (most fuel : Nat) (run : Evaluator) : Prop :=
  ∀ code state, code.loopFree = true → Affords most fuel state (sizeOf code) →
    (run code state).Ended

section

variable {run : Evaluator} (finishes : Finishes most fuel run)
  (keeps : Keeps (Sustained (Small most)) run)

include finishes keeps

theorem Finishes.andThen {β : Type} {code : Code} {next : String → State → Outcome β}
    (free : code.loopFree = true) (affords : Affords most fuel state (sizeOf code))
    (continued : ∀ value later, Sustained (Small most) state later → (next value later).Ended) :
    ((run code state).andThen next).Ended :=
  (finishes code state free affords).andThen (keeps code state) continued

theorem Finishes.integer {code : Code} (free : code.loopFree = true)
    (affords : Affords most fuel state (sizeOf code)) : (Run.integer run code state).Ended :=
  finishes.andThen keeps free affords fun _ _ _ => Outcome.ended_ofRun _ _

theorem Finishes.condition {code : Code} (free : code.loopFree = true)
    (affords : Affords most fuel state (sizeOf code)) : (Run.condition run code state).Ended :=
  finishes.andThen keeps free affords fun _ _ _ => Outcome.ended_ofRun _ _

theorem Finishes.values {codes : List Code} (free : Code.loopFreeAll codes = true)
    (affords : Affords most fuel state (sizeOf codes)) : (Run.values run codes state).Ended := by
  induction codes generalizing state with
  | nil => trivial
  | cons code others continued =>
      rw [Code.loopFreeAll, Bool.and_eq_true] at free
      rw [List.cons.sizeOf_spec] at affords
      apply finishes.andThen keeps free.1 (affords.less (by omega))
      intro value middle sustained
      have steps := respects_sustained (Small most)
      have rest := continued free.2 ((affords.after sustained).less (by omega))
      exact rest.andThen (steps.values keeps others middle) fun _ _ _ => trivial

theorem Finishes.body {statements : List Code} (free : Code.loopFreeAll statements = true)
    (affords : Affords most fuel state (sizeOf statements)) (value : String) :
    (Run.body run statements value state).Ended := by
  induction statements generalizing value state with
  | nil => trivial
  | cons code others continued =>
      rw [Code.loopFreeAll, Bool.and_eq_true] at free
      rw [List.cons.sizeOf_spec] at affords
      apply finishes.andThen keeps free.1 (affords.less (by omega))
      intro value middle sustained
      exact continued free.2 ((affords.after sustained).less (by omega)) value

theorem Finishes.callRoutine {routine : Routine} (small : Small most routine)
    (arguments : List String) (affords : Affords most fuel state 0) :
    (Run.call run routine arguments state).Ended := by
  simp only [Run.call]
  split
  · trivial
  · have noted : Affords most fuel (state.note (.called routine.index arguments)) 0 :=
      affords.after (.of_eq rfl rfl rfl rfl)
    cases entered : (state.note (.called routine.index arguments)).session.enterCall
        routine.index with
    | error error => trivial
    | ok session =>
        exact (finishes.body keeps small.1 (noted.enter _ small entered) "").leave

theorem Finishes.callEntry (index : String) (arguments : List String)
    (affords : Affords most fuel state 0) :
    (Run.callEntry run index arguments state).Ended := by
  simp only [Run.callEntry]
  cases found : state.store.function index with
  | error error => trivial
  | ok routine =>
      exact finishes.callRoutine keeps (affords.routines.function found) arguments affords

theorem Finishes.callMethod (object function : String) (arguments : List String)
    (affords : Affords most fuel state 0) :
    (Run.callMethod run object function arguments state).Ended := by
  simp only [Run.callMethod]
  cases found : state.store.object object with
  | error error => trivial
  | ok inner =>
      exact (finishes.callEntry keeps function arguments (affords.object found)).mapState _

theorem Finishes.callBuiltin {name : String} {arguments : List (Argument Code)}
    (free : Code.loopFreeArguments arguments = true)
    (affords : Affords most fuel state (sizeOf arguments)) :
    (Run.callBuiltin run name arguments state).Ended := by
  simp only [Run.callBuiltin]
  cases Builtin.find name with
  | error fault => trivial
  | ok builtin =>
      cases builtin with
      | out =>
          cases arguments with
          | nil => trivial
          | cons argument others =>
              cases argument with
              | reference index => trivial
              | value code =>
                  rw [Code.loopFreeArguments, Bool.and_eq_true, Code.loopFreeArgument] at free
                  rw [List.cons.sizeOf_spec, Argument.value.sizeOf_spec] at affords
                  exact finishes.andThen keeps free.1 (affords.less (by omega)) fun _ _ _ =>
                    trivial
      | size =>
          cases arguments with
          | nil => trivial
          | cons argument others =>
              cases argument with
              | value code => trivial
              | reference index =>
                  simp only [Run.size]
                  split <;> trivial

end

end Run

/-- Code without loops comes to an end with the fuel that it and the functions
of the program may need. -/
theorem eval_finishes (most fuel : Nat) : Run.Finishes most fuel (eval fuel) := by
  induction fuel with
  | zero =>
      intro code state _ affords
      have paid := affords.fuel
      have positive := code.sizeOf_pos
      omega
  | succ fuel finishes =>
      have steps := Run.respects_sustained (Run.Small most)
      have keeps := eval_keeps steps fuel
      intro code state free affords
      cases code with
      | literal value => trivial
      | read index | register index | parameter name => exact Outcome.ended_ofExcept _ _
      | write index code =>
          rw [Code.loopFree] at free
          rw [Code.write.sizeOf_spec] at affords
          exact finishes.andThen keeps free (affords.part (by omega)) fun _ _ _ => trivial
      | setRegister index code =>
          rw [Code.loopFree] at free
          rw [Code.setRegister.sizeOf_spec] at affords
          exact finishes.andThen keeps free (affords.part (by omega)) fun _ _ _ => trivial
      | element index key =>
          rw [Code.loopFree] at free
          rw [Code.element.sizeOf_spec] at affords
          exact finishes.andThen keeps free (affords.part (by omega)) fun _ _ _ =>
            Outcome.ended_ofExcept _ _
      | append index code =>
          rw [Code.loopFree] at free
          rw [Code.append.sizeOf_spec] at affords
          apply finishes.andThen keeps free (affords.part (by omega))
          intro value middle _
          cases middle.append index value <;> trivial
      | arithmetic op left right =>
          rw [Code.loopFree, Bool.and_eq_true] at free
          rw [Code.arithmetic.sizeOf_spec] at affords
          apply (finishes.integer keeps free.1 (affords.part (by omega))).andThen
            (steps.integer keeps left state)
          intro m middle sustained
          exact (finishes.integer keeps free.2 ((affords.after sustained).part (by omega))).andThen
            (steps.integer keeps right middle) fun _ _ _ => Outcome.ended_ofRun _ _
      | concat left right =>
          rw [Code.loopFree, Bool.and_eq_true] at free
          rw [Code.concat.sizeOf_spec] at affords
          apply finishes.andThen keeps free.1 (affords.part (by omega))
          intro first middle sustained
          exact finishes.andThen keeps free.2 ((affords.after sustained).part (by omega))
            fun _ _ _ => trivial
      | compare op left right =>
          rw [Code.loopFree, Bool.and_eq_true] at free
          rw [Code.compare.sizeOf_spec] at affords
          apply finishes.andThen keeps free.1 (affords.part (by omega))
          intro first middle sustained
          exact finishes.andThen keeps free.2 ((affords.after sustained).part (by omega))
            fun _ _ _ => Outcome.ended_ofRun _ _
      | call callee arguments =>
          rw [Code.loopFree] at free
          rw [Code.call.sizeOf_spec] at affords
          have ended := finishes.values keeps free (affords.part (by omega))
          have ends := steps.values keeps arguments state
          cases callee with
          | entry index =>
              exact ended.andThen ends fun values middle sustained =>
                finishes.callEntry keeps index values ((affords.after sustained).part (by omega))
          | method object function =>
              exact ended.andThen ends fun values middle sustained =>
                finishes.callMethod keeps object function values
                  ((affords.after sustained).part (by omega))
      | builtin name arguments =>
          rw [Code.loopFree] at free
          rw [Code.builtin.sizeOf_spec] at affords
          exact finishes.callBuiltin keeps free (affords.part (by omega))
      | branch test statements =>
          rw [Code.loopFree, Bool.and_eq_true] at free
          rw [Code.branch.sizeOf_spec] at affords
          apply (finishes.condition keeps free.1 (affords.part (by omega))).andThen
            (steps.condition keeps test state)
          intro holds middle sustained
          cases holds with
          | false => trivial
          | true => exact finishes.body keeps free.2 ((affords.after sustained).part (by omega)) ""
      | loop test increment statements =>
          rw [Code.loopFree] at free
          cases free

/-- Programs without loops always stop.  Where no function at any level has a
loop, all code without loops and every call of a function without loops comes to
an end, done or failed, at whatever depth it starts and however wide the limit
is. -/
theorem loop_free_runs_end (state : State) (free : state.store.LoopFree) :
    (∀ code : Code, code.loopFree = true → ∃ result after, code.Evaluates state result after) ∧
    (∀ (routine : Routine) (arguments : List String), Code.loopFreeAll routine.body = true →
      ∃ result after, routine.Returns arguments state result after) := by
  have small (most : Nat) (bound : sizeOf state.store ≤ most) :
      state.store.EveryRoutine (Run.Small most) := by
    intro path inner index routine reached found
    have body := state.store.everyRoutine_sizeOf path inner index routine reached found
    exact ⟨free path inner index routine reached found, Nat.le_trans body bound⟩
  constructor
  · intro code codeFree
    have finishes := eval_finishes (sizeOf state.store)
      (sizeOf code + (state.session.limit - state.session.depth) * sizeOf state.store)
    have ended := finishes code state codeFree ⟨small _ (Nat.le_refl _), Nat.le_refl _⟩
    obtain ⟨result, after, reached⟩ := ended.exists_ended?
    exact ⟨result, after, Code.evaluates_of_ended reached⟩
  · intro routine arguments routineFree
    -- The function need not be one of the program, so its size counts as well.
    have steps := Run.respects_sustained
      (Run.Small (sizeOf state.store + sizeOf routine.body))
    have finishes := eval_finishes (sizeOf state.store + sizeOf routine.body)
      ((state.session.limit - state.session.depth) * (sizeOf state.store + sizeOf routine.body))
    have called := finishes.callRoutine (eval_keeps steps _)
      ⟨routineFree, Nat.le_add_left _ _⟩ arguments
      ⟨small _ (Nat.le_add_right _ _), Nat.le_of_eq (Nat.zero_add _)⟩
    obtain ⟨result, after, reached⟩ := called.exists_ended?
    exact ⟨result, after, Routine.returns_of_ended reached⟩

/-- A function that calls itself twice, once inside a built-in function, and
before that the function of an object that calls itself. -/
def boundlessRecursion : State :=
  ⟨(Store.fresh.setFunction "f"
      ⟨"f", [], [.call (.method "o" "g") [], .builtin "out" [.value (.call (.entry "f") [])],
        .call (.entry "f") []]⟩).setObject "o"
      (Store.fresh.setFunction "g" ⟨"g", [], [.call (.entry "g") []]⟩),
    Session.fresh 1000⟩

/-- Nothing but the limit stops the recursion, and it does. -/
theorem loop_free_runs_end_recursion :
    boundlessRecursion.store.LoopFree ∧
      (∃ result after,
        Code.Evaluates (.call (.entry "f") []) boundlessRecursion result after) ∧
      ∃ result after,
        Routine.Returns ⟨"h", ["a"], [.parameter "a", .call (.entry "f") []]⟩ ["x"]
          boundlessRecursion result after := by
  have bare : Store.fresh.LoopFree := Store.everyRoutine_fresh _
  have free : boundlessRecursion.store.LoopFree :=
    (bare.setFunction "f" rfl).setObject (bare.setFunction "g" rfl) "o"
  have ends := loop_free_runs_end boundlessRecursion free
  exact ⟨free, ends.1 _ rfl, ends.2 _ _ rfl⟩

end TableScript
