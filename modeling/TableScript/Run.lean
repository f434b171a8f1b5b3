import TableScript.Outcome

namespace TableScript

/-! Running code.  Each construct is run by a function that is given the
evaluator for the parts of it, and `eval` ties them together: the parts of a
construct, and the turns of a loop, get one unit of fuel less than the whole. -/

inductive Builtin where
  | out
  | size
deriving DecidableEq, Repr

namespace Builtin

def name : Builtin → String
  | out => "out"
  | size => "size"

/-- All built-in functions, in the order of their names. -/
def all : List Builtin := [out, size]

def find (name : String) : Except RunFault Builtin :=
  match all.find? fun builtin => builtin.name == name with
  | some builtin => .ok builtin
  | none => .error (.unknownBuiltin name)

end Builtin

abbrev Evaluator := Code → State → Outcome String

namespace Run

@[inline] def integer (run : Evaluator) (code : Code) (state : State) : Outcome Int :=
  (run code state).andThen fun value state => .ofRun (Value.integer value) state

@[inline] def condition (run : Evaluator) (code : Code) (state : State) : Outcome Bool :=
  (run code state).andThen fun value state => .ofRun (Value.truth value) state

/-- The values of codes, run from left to right. -/
def values (run : Evaluator) : List Code → State → Outcome (List String)
  | [], state => .done [] state
  | code :: others, state =>
      (run code state).andThen fun value state =>
        (values run others state).andThen fun rest state => .done (value :: rest) state

/-- Runs statements in order.  The value is that of the last one, or `value` if
there is none. -/
def body (run : Evaluator) : List Code → String → State → Outcome String
  | [], value, state => .done value state
  | code :: others, _, state =>
      (run code state).andThen fun value state => body run others value state

/-- Runs a loop for as long as its condition holds, for fewer than `turns`
turns.  The value is that of the last statement run in the body. -/
def loop (run : Evaluator) (test increment : Code) (statements : List Code) :
    Nat → String → State → Outcome String
  | 0, _, _ => .outOfFuel
  | turns + 1, value, state =>
      (condition run test state).andThen fun holds state =>
        if holds then
          (body run statements value state).andThen fun value state =>
            (run increment state).andThen fun _ state =>
              loop run test increment statements turns value state
        else .done value state

/-- The scope of a call.  Parameters without an argument stay unbound. -/
def scope (params arguments : List String) : Scope :=
  Table.ofPairs (params.zip arguments)

/-- Takes the scope of a call away and lowers the depth. -/
def release (state : State) : Except Error Unit × State :=
  let session := state.session.leaveCall
  match state.store.popScope with
  | .ok (_, store) => (.ok (), ⟨store, session⟩)
  | .error error => (.error error, ⟨state.store, session⟩)

/-- Ends a call, whether its body is done or failed.  A fault of the body comes
before a fault in taking the scope away. -/
def leave : Outcome String → Outcome String
  | .done value state =>
      match release state with
      | (.ok (), after) => .done value after
      | (.error error, after) => .failed error after
  | .failed error state => .failed error (release state).2
  | .outOfFuel => .outOfFuel

/-- Calls a routine in the state it belongs to. -/
def call (run : Evaluator) (routine : Routine) (arguments : List String) (state : State) :
    Outcome String :=
  if arguments.length > routine.params.length then
    .failed (.runtime (.surplusArguments routine.index routine.params.length arguments.length))
      state
  else
    let state := state.note (.called routine.index arguments)
    match state.session.enterCall routine.index with
    | .ok session =>
        let store := state.store.pushScope (scope routine.params arguments)
        leave (body run routine.body "" ⟨store, session⟩)
    | .error error => .failed error state

def callEntry (run : Evaluator) (index : String) (arguments : List String) (state : State) :
    Outcome String :=
  match state.store.function index with
  | .ok routine => call run routine arguments state
  | .error error => .failed error state

/-- Calls a function of a nested object inside that object. -/
def callMethod (run : Evaluator) (object function : String) (arguments : List String)
    (state : State) : Outcome String :=
  match state.store.object object with
  | .ok inner =>
      (callEntry run function arguments ⟨inner, state.session⟩).mapState
        (State.leaveObject state.store object)
  | .error error => .failed error state

/-- Writes its first argument to the output.  Further arguments are not run. -/
def out (run : Evaluator) (arguments : List (Argument Code)) (state : State) : Outcome String :=
  match arguments with
  | [] => .done "" state
  | .value code :: _ =>
      (run code state).andThen fun text state => .done "" (state.write text)
  | .reference index :: _ => .failed (.runtime (.referenceAsValue index)) state

/-- The number of items of an array, which is given by reference. -/
def size (arguments : List (Argument Code)) (state : State) : Outcome String :=
  match arguments with
  | [] => .failed (.runtime .sizeOfNothing) state
  | .value _ :: _ => .failed (.runtime .sizeOfValue) state
  | .reference index :: _ =>
      match state.store.arrays.get? index with
      | some items => .done (Number.write items.length) state
      | none => .failed (.runtime (.sizeOfOther index)) state

/-- Calls a built-in function, which is looked up only now. -/
def callBuiltin (run : Evaluator) (name : String) (arguments : List (Argument Code))
    (state : State) : Outcome String :=
  match Builtin.find name with
  | .ok .out => out run arguments state
  | .ok .size => size arguments state
  | .error fault => .failed (.runtime fault) state

end Run

def eval : Nat → Code → State → Outcome String
  | 0, _, _ => .outOfFuel
  | fuel + 1, code, state =>
      match code with
      | .literal value => .done value state
      | .read index => .ofExcept (state.store.get index) state
      | .write index code =>
          (eval fuel code state).andThen fun value state =>
            .done value (state.setScalar index value)
      | .register index => .ofExcept (state.store.register index) state
      | .setRegister index code =>
          (eval fuel code state).andThen fun value state =>
            .done value (state.setRegister index value)
      | .element index key =>
          (eval fuel key state).andThen fun key state =>
            .ofExcept (state.store.element index key) state
      | .append index code =>
          (eval fuel code state).andThen fun value state =>
            match state.append index value with
            | .ok after => .done value after
            | .error error => .failed error state
      | .parameter name => .ofExcept (state.store.parameter name) state
      | .arithmetic op left right =>
          (Run.integer (eval fuel) left state).andThen fun m state =>
            (Run.integer (eval fuel) right state).andThen fun n state =>
              .ofRun ((op.apply m n).map Number.write) state
      | .concat left right =>
          (eval fuel left state).andThen fun first state =>
            (eval fuel right state).andThen fun second state => .done (first ++ second) state
      | .compare op left right =>
          (eval fuel left state).andThen fun first state =>
            (eval fuel right state).andThen fun second state =>
              .ofRun ((op.holds first second).map Value.ofBool) state
      | .call (.entry index) arguments =>
          (Run.values (eval fuel) arguments state).andThen fun values state =>
            Run.callEntry (eval fuel) index values state
      | .call (.method object function) arguments =>
          (Run.values (eval fuel) arguments state).andThen fun values state =>
            Run.callMethod (eval fuel) object function values state
      | .builtin name arguments => Run.callBuiltin (eval fuel) name arguments state
      | .branch test statements =>
          (Run.condition (eval fuel) test state).andThen fun holds state =>
            if holds then Run.body (eval fuel) statements "" state else .done "" state
      | .loop test increment statements =>
          Run.loop (eval fuel) test increment statements fuel "" state

/-- More fuel than a machine can use up. -/
def plentyOfFuel : Nat := 4611686018427387904

def call (fuel : Nat) (index : String) (arguments : List String) (state : State) :
    Outcome String :=
  Run.callEntry (eval fuel) index arguments state

end TableScript
