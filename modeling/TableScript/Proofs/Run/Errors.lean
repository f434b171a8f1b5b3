import TableScript.Proofs.Expr.Conditions
import TableScript.Proofs.Run.Isolation
import TableScript.Proofs.Run.Termination

namespace TableScript

/-! The errors of runs.  A condition that is a comparison has a truth value, and
the scope of a call can be taken away as long as every object has a scope below
it.  So from a store of which both hold, and in which calls find only functions
of that kind, a run fails for nothing but what its program does. -/

/-- The faults of a run that tell of its program.  The others would tell of a
fault in the language itself, or are in the words of the host. -/
def RunFault.ordinary : RunFault → Bool
  | notBoolean _ | outermostScope | noScope | reported _ => false
  | _ => true

/-- The errors of a run that tell of its program.  A run has no function to place
them in. -/
inductive Error.Ordinary : Error → Prop where
  | bind (fault : BindFault) : Ordinary (.bind [] fault)
  | runtime {fault : RunFault} (ordinary : fault.ordinary = true) : Ordinary (.runtime fault)

/-! ### The errors of single steps -/

namespace Store

variable {store : Store} {index : String} {error : Error}

theorem ordinary_get (failed : store.get index = .error error) : error.Ordinary := by
  unfold get at failed
  split at failed
  · cases failed
  · split at failed
    · cases failed
    · split at failed <;> cases failed <;> exact .bind _

theorem ordinary_item {element : String} {items : List String}
    (failed : item index element items = .error error) : error.Ordinary := by
  unfold item at failed
  split at failed
  · split at failed
    · cases failed
    · cases failed
      exact .runtime rfl
  · cases failed
    exact .runtime rfl

theorem ordinary_element {key : String} (failed : store.element index key = .error error) :
    error.Ordinary := by
  unfold element at failed
  split at failed
  · exact ordinary_get failed
  · split at failed
    · exact ordinary_item failed
    · cases failed
      exact .bind _

theorem ordinary_register (failed : store.register index = .error error) : error.Ordinary := by
  unfold register at failed
  split at failed <;> cases failed
  exact .bind _

theorem ordinary_parameter (failed : store.parameter index = .error error) : error.Ordinary := by
  unfold parameter at failed
  split at failed <;> cases failed
  exact .bind _

theorem ordinary_function (failed : store.function index = .error error) : error.Ordinary := by
  unfold function at failed
  split at failed <;> cases failed
  exact .bind _

theorem ordinary_object (failed : store.object index = .error error) : error.Ordinary := by
  unfold object at failed
  split at failed <;> cases failed
  exact .bind _

end Store

theorem State.ordinary_append {state : State} {index value : String} {error : Error}
    (failed : state.append index value = .error error) : error.Ordinary := by
  unfold append at failed
  split at failed <;> cases failed
  exact .bind _

theorem Session.ordinary_enterCall {session : Session} {index : String} {error : Error}
    (failed : session.enterCall index = .error error) : error.Ordinary := by
  unfold enterCall at failed
  split at failed <;> cases failed
  exact .runtime rfl

theorem Value.ordinary_integer {value : String} {fault : RunFault}
    (failed : integer value = .error fault) : fault.ordinary = true := by
  unfold integer at failed
  split at failed <;> cases failed
  rfl

theorem Arithmetic.ordinary_apply {op : Arithmetic} {left right : Int} {fault : RunFault}
    (failed : op.apply left right = .error fault) : fault.ordinary = true := by
  unfold apply at failed
  split at failed
  · cases failed
    rfl
  · split at failed
    · cases failed
      rfl
    · split at failed <;> cases failed
      rfl

theorem Comparison.ordinary_holds {op : Comparison} {left right : String} {fault : RunFault}
    (failed : op.holds left right = .error fault) : fault.ordinary = true := by
  unfold holds at failed
  split at failed
  · cases failed
  · split at failed
    · rename_i unread
      cases failed
      exact Value.ordinary_integer unread
    · split at failed
      · rename_i unread
        cases failed
        exact Value.ordinary_integer unread
      · cases failed

theorem Builtin.ordinary_find {name : String} {fault : RunFault}
    (failed : find name = .error fault) : fault.ordinary = true := by
  unfold find at failed
  split at failed <;> cases failed
  rfl

namespace Outcome

variable {α β : Type}

/-- If the run failed, its error is ordinary. -/
def Ordinary : Outcome α → Prop
  | failed error _ => error.Ordinary
  | done _ _ | outOfFuel => True

theorem Ordinary.andThen {holds : State → Prop} {first : Outcome α}
    {next : α → State → Outcome β} (ordinary : first.Ordinary) (ends : first.Ends holds)
    (continued : ∀ value state, holds state → (next value state).Ordinary) :
    (first.andThen next).Ordinary := by
  cases first with
  | done value after => exact continued value after ends
  | failed error after => exact ordinary
  | outOfFuel => trivial

theorem Ordinary.mapState {outcome : Outcome α} (ordinary : outcome.Ordinary)
    (change : State → State) : (outcome.mapState change).Ordinary := by
  cases outcome with
  | failed error after => exact ordinary
  | done value after => trivial
  | outOfFuel => trivial

theorem ordinary_ofExcept {result : Except Error α} (state : State)
    (errors : ∀ error, result = .error error → error.Ordinary) :
    (ofExcept result state).Ordinary := by
  cases result with
  | ok value => trivial
  | error error => exact errors error rfl

theorem ordinary_ofRun {result : Except RunFault α} (state : State)
    (faults : ∀ fault, result = .error fault → fault.ordinary = true) :
    (ofRun result state).Ordinary := by
  cases result with
  | ok value => trivial
  | error fault => exact .runtime (faults fault rfl)

theorem Ordinary.of_ended? {outcome : Outcome α} {error : Error} {after : State}
    (ordinary : outcome.Ordinary) (ended : outcome.ended? = some (.error error, after)) :
    error.Ordinary := by
  cases outcome with
  | failed error reached =>
      cases ended
      exact ordinary
  | done value reached => cases ended
  | outOfFuel => cases ended

theorem andThen_eq_done {first : Outcome α} {next : α → State → Outcome β} {value : β}
    {after : State} (reached : first.andThen next = .done value after) :
    ∃ middle state, first = .done middle state ∧ next middle state = .done value after := by
  cases first with
  | done middle state => exact ⟨middle, state, rfl, reached⟩
  | failed error state => cases reached
  | outOfFuel => cases reached

end Outcome

/-! ### Runs of guarded code -/

namespace Run

theorem Respects.and {first second : State → State → Prop} (left : Respects first)
    (right : Respects second) :
    Respects fun before after => first before after ∧ second before after where
  refl state := ⟨left.refl state, right.refl state⟩
  trans early late := ⟨left.trans early.1 late.1, right.trans early.2 late.2⟩
  note state event := ⟨left.note state event, right.note state event⟩
  setScalar state index value :=
    ⟨left.setScalar state index value, right.setScalar state index value⟩
  setRegister state index value :=
    ⟨left.setRegister state index value, right.setRegister state index value⟩
  append appended := ⟨left.append appended, right.append appended⟩
  write state text := ⟨left.write state text, right.write state text⟩
  call scope entered body := ⟨left.call scope entered body.1, right.call scope entered body.2⟩
  object found visit := ⟨left.object found visit.1, right.object found visit.2⟩

/-- A function whose conditions are comparisons. -/
def GuardedRoutine (routine : Routine) : Prop :=
  Code.GuardedAll routine.body

/-- Every object has a scope, and every function is guarded. -/
structure Consistent (state : State) : Prop where
  framed : state.store.Framed
  guarded : state.store.EveryRoutine GuardedRoutine

/-- The scopes are given back, and the functions stay guarded. -/
def Preserved (before after : State) : Prop :=
  (before.store.Framed → State.Released before after) ∧ Sustained GuardedRoutine before after

theorem respects_preserved : Respects Preserved :=
  respects_released.and (respects_sustained GuardedRoutine)

namespace Consistent

variable {state : State}

theorem preserved {after : State} (consistent : Consistent state)
    (preserved : Preserved state after) : Consistent after :=
  ⟨(preserved.1 consistent.framed).framed consistent.framed,
    preserved.2.routines consistent.guarded⟩

theorem ends {α : Type} {outcome : Outcome α} (consistent : Consistent state)
    (ends : outcome.Ends (Preserved state)) : outcome.Ends Consistent :=
  ends.imp fun _ preserved => consistent.preserved preserved

theorem object {index : String} {inner : Store} (consistent : Consistent state)
    (found : state.store.object index = .ok inner) : Consistent ⟨inner, state.session⟩ :=
  ⟨consistent.framed.object found, consistent.guarded.object found⟩

theorem enter (consistent : Consistent state) (scope : Scope) (session : Session) :
    Consistent ⟨state.store.pushScope scope, session⟩ :=
  ⟨consistent.framed.pushScope scope, consistent.guarded.of_eq rfl rfl⟩

end Consistent

/-- An evaluator that preserves what a run relies on, fails for ordinary errors
only, and gives truth values to comparisons. -/
structure Proper (run : Evaluator) : Prop where
  keeps : Keeps Preserved run
  ordinary : ∀ code state, code.Guarded → Consistent state → (run code state).Ordinary
  compared : ∀ code state value after, code.isComparison = true →
    run code state = .done value after → ∃ truth, value = Value.ofBool truth

namespace Proper

variable {run : Evaluator} {state : State}

theorem integer (proper : Proper run) {code : Code} (guarded : code.Guarded)
    (consistent : Consistent state) : (Run.integer run code state).Ordinary :=
  (proper.ordinary code state guarded consistent).andThen
    (consistent.ends (proper.keeps code state)) fun _ middle _ =>
      Outcome.ordinary_ofRun middle fun _ => Value.ordinary_integer

/-- The value of a condition is a truth value, so testing it does not fail. -/
theorem condition (proper : Proper run) {test : Code} (comparison : test.isComparison = true)
    (guarded : test.Guarded) (consistent : Consistent state) :
    (Run.condition run test state).Ordinary := by
  have ordinary := proper.ordinary test state guarded consistent
  unfold Run.condition
  cases reached : run test state with
  | done value after =>
      obtain ⟨truth, same⟩ := proper.compared test state value after comparison reached
      subst same
      simp only [Outcome.andThen, Value.truth_ofBool, Outcome.ofRun]
      trivial
  | failed error after =>
      rw [reached] at ordinary
      exact ordinary
  | outOfFuel => trivial

theorem values (proper : Proper run) {codes : List Code} (guarded : Code.GuardedAll codes)
    (consistent : Consistent state) : (Run.values run codes state).Ordinary := by
  induction codes generalizing state with
  | nil => trivial
  | cons code others continued =>
      obtain ⟨here, there⟩ := List.forall_mem_append.mp guarded
      apply (proper.ordinary code state here consistent).andThen
        (consistent.ends (proper.keeps code state))
      intro value middle consistent
      exact (continued there consistent).andThen
        (consistent.ends (respects_preserved.values proper.keeps others middle))
        fun _ _ _ => trivial

theorem body (proper : Proper run) {statements : List Code}
    (guarded : Code.GuardedAll statements) (value : String) (consistent : Consistent state) :
    (Run.body run statements value state).Ordinary := by
  induction statements generalizing value state with
  | nil => trivial
  | cons code others continued =>
      obtain ⟨here, there⟩ := List.forall_mem_append.mp guarded
      exact (proper.ordinary code state here consistent).andThen
        (consistent.ends (proper.keeps code state)) fun value _ next =>
          continued there value next

theorem loop (proper : Proper run) {test increment : Code} {statements : List Code}
    (comparison : test.isComparison = true) (inTest : test.Guarded)
    (inStep : increment.Guarded) (inBody : Code.GuardedAll statements) (turns : Nat)
    (value : String) (consistent : Consistent state) :
    (Run.loop run test increment statements turns value state).Ordinary := by
  induction turns generalizing value state with
  | zero => trivial
  | succ turns continued =>
      have steps := respects_preserved
      apply (proper.condition comparison inTest consistent).andThen
        (consistent.ends (steps.condition proper.keeps test state))
      intro holds tested consistent
      cases holds with
      | false => trivial
      | true =>
          apply (proper.body inBody value consistent).andThen
            (consistent.ends (steps.body proper.keeps statements value tested))
          intro value ran consistent
          exact (proper.ordinary increment ran inStep consistent).andThen
            (consistent.ends (proper.keeps increment ran)) fun _ _ next => continued value next

/-- The body of a call gives back the scopes that it pushed, so the scope of the
call lies above another one when it is taken away. -/
theorem callRoutine (proper : Proper run) {routine : Routine} (guarded : GuardedRoutine routine)
    (arguments : List String) (consistent : Consistent state) :
    (Run.call run routine arguments state).Ordinary := by
  simp only [Run.call]
  split
  · exact .runtime rfl
  · have noted : Consistent (state.note (.called routine.index arguments)) :=
      consistent.preserved (respects_preserved.note state _)
    cases entered : (state.note (.called routine.index arguments)).session.enterCall
        routine.index with
    | error error => exact Session.ordinary_enterCall entered
    | ok session =>
        have inside := noted.enter (scope routine.params arguments) session
        have ordinary := proper.body guarded "" inside
        have ends := respects_preserved.body proper.keeps routine.body ""
          ⟨(state.note (.called routine.index arguments)).store.pushScope
            (scope routine.params arguments), session⟩
        simp only
        revert ordinary ends
        generalize Run.body run routine.body "" _ = outcome
        intro ordinary ends
        cases outcome with
        | done value inner =>
            have popped := release_pushed noted.framed (ends.1 inside.framed)
            simp only [Run.leave]
            rcases released : release inner with ⟨result, after⟩
            rw [released] at popped
            cases popped
            trivial
        | failed error inner => exact ordinary
        | outOfFuel => trivial

theorem callEntry (proper : Proper run) (index : String) (arguments : List String)
    (consistent : Consistent state) : (Run.callEntry run index arguments state).Ordinary := by
  simp only [Run.callEntry]
  cases found : state.store.function index with
  | error error => exact Store.ordinary_function found
  | ok routine =>
      exact proper.callRoutine (consistent.guarded.function found) arguments consistent

theorem callMethod (proper : Proper run) (object function : String) (arguments : List String)
    (consistent : Consistent state) :
    (Run.callMethod run object function arguments state).Ordinary := by
  simp only [Run.callMethod]
  cases found : state.store.object object with
  | error error => exact Store.ordinary_object found
  | ok inner =>
      exact (proper.callEntry function arguments (consistent.object found)).mapState _

theorem callBuiltin (proper : Proper run) (name : String) {arguments : List (Argument Code)}
    (guarded : Code.GuardedArguments arguments) (consistent : Consistent state) :
    (Run.callBuiltin run name arguments state).Ordinary := by
  simp only [Run.callBuiltin]
  cases found : Builtin.find name with
  | error fault => exact .runtime (Builtin.ordinary_find found)
  | ok builtin =>
      cases builtin with
      | out =>
          cases arguments with
          | nil => trivial
          | cons argument others =>
              cases argument with
              | value code =>
                  have inside : code.Guarded := (List.forall_mem_append.mp guarded).1
                  exact (proper.ordinary code state inside consistent).andThen
                    (consistent.ends (proper.keeps code state)) fun _ _ _ => trivial
              | reference index => exact .runtime rfl
      | size =>
          cases arguments with
          | nil => exact .runtime rfl
          | cons argument others =>
              cases argument with
              | value code => exact .runtime rfl
              | reference index =>
                  simp only [Run.size]
                  split
                  · trivial
                  · exact .runtime rfl

end Proper

end Run

/-- A comparison that is done has a truth value. -/
theorem eval_comparison {fuel : Nat} {code : Code} {state after : State} {value : String}
    (comparison : code.isComparison = true) (reached : eval fuel code state = .done value after) :
    ∃ truth, value = Value.ofBool truth := by
  cases fuel with
  | zero => cases reached
  | succ fuel =>
      cases code with
      | compare op left right =>
          obtain ⟨first, _, _, reached⟩ := Outcome.andThen_eq_done reached
          obtain ⟨second, _, _, reached⟩ := Outcome.andThen_eq_done reached
          cases compared : op.holds first second with
          | error fault =>
              rw [compared] at reached
              cases reached
          | ok truth =>
              rw [compared] at reached
              cases reached
              exact ⟨truth, rfl⟩
      | _ => cases comparison

theorem eval_proper (fuel : Nat) : Run.Proper (eval fuel) := by
  have keeps := eval_keeps Run.respects_preserved fuel
  refine ⟨keeps, ?_, fun _ _ _ _ comparison reached => eval_comparison comparison reached⟩
  -- The parts of a construct run with less fuel, where the evaluator is proper.
  induction fuel with
  | zero => exact fun _ _ _ _ => trivial
  | succ fuel continued =>
      have keeps := eval_keeps Run.respects_preserved fuel
      have proper : Run.Proper (eval fuel) :=
        ⟨keeps, continued keeps, fun _ _ _ _ comparison reached =>
          eval_comparison comparison reached⟩
      have steps := Run.respects_preserved
      intro code state guarded consistent
      cases code with
      | literal value => trivial
      | read index => exact Outcome.ordinary_ofExcept state fun _ => Store.ordinary_get
      | write index code | setRegister index code =>
          have inside : code.Guarded := guarded
          exact (proper.ordinary code state inside consistent).andThen
            (consistent.ends (keeps code state)) fun _ _ _ => trivial
      | register index => exact Outcome.ordinary_ofExcept state fun _ => Store.ordinary_register
      | element index key =>
          have inside : key.Guarded := guarded
          exact (proper.ordinary key state inside consistent).andThen
            (consistent.ends (keeps key state)) fun _ middle _ =>
              Outcome.ordinary_ofExcept middle fun _ => Store.ordinary_element
      | append index code =>
          have inside : code.Guarded := guarded
          apply (proper.ordinary code state inside consistent).andThen
            (consistent.ends (keeps code state))
          intro value middle _
          cases appended : middle.append index value with
          | error error => exact State.ordinary_append appended
          | ok after => trivial
      | parameter name =>
          exact Outcome.ordinary_ofExcept state fun _ => Store.ordinary_parameter
      | arithmetic op left right =>
          obtain ⟨inLeft, inRight⟩ := List.forall_mem_append.mp guarded
          apply (proper.integer inLeft consistent).andThen
            (consistent.ends (steps.integer keeps left state))
          intro m middle consistent
          apply (proper.integer inRight consistent).andThen
            (consistent.ends (steps.integer keeps right middle))
          intro n after _
          exact Outcome.ordinary_ofRun after fun _ failed =>
            Arithmetic.ordinary_apply (map_eq_error failed)
      | concat left right =>
          obtain ⟨inLeft, inRight⟩ := List.forall_mem_append.mp guarded
          apply (proper.ordinary left state inLeft consistent).andThen
            (consistent.ends (keeps left state))
          intro first middle consistent
          exact (proper.ordinary right middle inRight consistent).andThen
            (consistent.ends (keeps right middle)) fun _ _ _ => trivial
      | compare op left right =>
          obtain ⟨inLeft, inRight⟩ := List.forall_mem_append.mp guarded
          apply (proper.ordinary left state inLeft consistent).andThen
            (consistent.ends (keeps left state))
          intro first middle consistent
          apply (proper.ordinary right middle inRight consistent).andThen
            (consistent.ends (keeps right middle))
          intro second after _
          exact Outcome.ordinary_ofRun after fun _ failed =>
            Comparison.ordinary_holds (map_eq_error failed)
      | call callee arguments =>
          have inside : Code.GuardedAll arguments := guarded
          cases callee with
          | entry index =>
              exact (proper.values inside consistent).andThen
                (consistent.ends (steps.values keeps arguments state)) fun values _ next =>
                  proper.callEntry index values next
          | method object function =>
              exact (proper.values inside consistent).andThen
                (consistent.ends (steps.values keeps arguments state)) fun values _ next =>
                  proper.callMethod object function values next
      | builtin name arguments =>
          have inside : Code.GuardedArguments arguments := guarded
          exact proper.callBuiltin name inside consistent
      | branch test statements =>
          obtain ⟨comparison, rest⟩ := List.forall_mem_cons.mp guarded
          obtain ⟨inTest, inBody⟩ := List.forall_mem_append.mp rest
          apply (proper.condition comparison inTest consistent).andThen
            (consistent.ends (steps.condition keeps test state))
          intro holds tested consistent
          cases holds with
          | false => trivial
          | true => exact proper.body inBody "" consistent
      | loop test increment statements =>
          obtain ⟨comparison, rest⟩ := List.forall_mem_cons.mp guarded
          obtain ⟨parts, inBody⟩ := List.forall_mem_append.mp rest
          obtain ⟨inTest, inStep⟩ := List.forall_mem_append.mp parts
          exact proper.loop comparison inTest inStep inBody fuel "" consistent

end TableScript
