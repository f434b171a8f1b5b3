import TableScript.Run
import TableScript.State.Declare

namespace TableScript

/-! Programs: a text compiled into a state, ready for calls. -/

structure Settings where
  /-- The index of the function that a program starts with. -/
  entry : String
  maxCallDepth : Nat
deriving DecidableEq, Repr

def Settings.default : Settings := ⟨"666", 256⟩

structure Program where
  settings : Settings
  state : State

structure Execution where
  value : String
  output : String
deriving DecidableEq, Repr

namespace Program

/-- Compiles a program text.  The journal of the program itself starts empty. -/
def compile (settings : Settings) (source : String) : Logged Program := do
  let declarations ← State.readProgram source
  let (result, state) := State.declareAll declarations (State.fresh settings.maxCallDepth)
  let (journal, state) := state.takeJournal
  Logged.andThen ⟨journal, result⟩ fun _ =>
    ⟨#[.programCompiled declarations.length], .ok ⟨settings, state⟩⟩

/-- Calls the entry function.  Arguments beyond its parameters are dropped. -/
def callEntry (fuel : Nat) (program : Program) (arguments : List String) : Outcome String :=
  match program.state.store.function program.settings.entry with
  | .ok routine =>
      let surplus := arguments.length - routine.params.length
      let state :=
        if surplus = 0 then program.state
        else program.state.note (.surplusDropped surplus routine.index)
      Run.call (eval fuel) routine (arguments.take routine.params.length) state
  | .error error => .failed error program.state

def callFunction (fuel : Nat) (program : Program) (index : String) (arguments : List String) :
    Outcome String :=
  call fuel index arguments program.state

/-- Compiles a program text and calls its entry function.  There is no result
if the fuel does not suffice. -/
def execute (fuel : Nat) (settings : Settings) (source : String) (arguments : List String) :
    Option (Logged Execution) :=
  let compiled := compile settings source
  match compiled.result with
  | .ok program =>
      (callEntry fuel program arguments).ended?.map fun (result, after) =>
        ⟨compiled.journal ++ after.session.journal,
          result.map fun value => ⟨value, after.session.output⟩⟩
  | .error error => some ⟨compiled.journal, .error error⟩

end Program

/-- The text that the bytes of a file spell. -/
def sourceOfBytes (bytes : ByteArray) : Except InputFault String :=
  match String.fromUTF8? bytes with
  | some source => .ok source
  | none => .error .notText

/-- Executes the program in the file at `path`, of which `source` is the content
or the reason why there is none. -/
def Program.executeFile (fuel : Nat) (settings : Settings) (path : String)
    (source : Except InputFault String) (arguments : List String) : Option (Logged Execution) :=
  let opened : Journal := #[.fileOpened path]
  match source with
  | .ok source =>
      (execute fuel settings source arguments).map fun run =>
        ⟨opened ++ run.journal, run.result⟩
  | .error fault => some ⟨opened, .error (.input fault)⟩

end TableScript
