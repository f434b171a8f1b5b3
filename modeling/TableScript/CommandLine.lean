import TableScript.Program

namespace TableScript.CommandLine

/-! What the command line answers.  The first argument is the file of a program
and the others go to its entry function; only the output is printed. -/

structure Reply where
  stdout : String
  stderr : String
  status : UInt8
deriving DecidableEq, Repr

def usage : Reply := ⟨"", "Usage: arrh <file> [args...]\n", 2⟩

def reply : Except Error Execution → Reply
  | .ok execution => ⟨execution.output ++ "\n", "", 0⟩
  | .error error =>
      let fault := error.message
      ⟨"", s!"Arrh interpretation terminated with fault: {fault}\n", 1⟩

/-- The answer to running the file at `path`, of which `source` is the content. -/
def run (fuel : Nat) (path : String) (source : Except InputFault String)
    (arguments : List String) : Option Reply :=
  (Program.executeFile fuel .default path source arguments).map fun run => reply run.result

end TableScript.CommandLine
