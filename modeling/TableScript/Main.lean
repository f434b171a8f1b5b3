import TableScript.CommandLine

namespace TableScript.CommandLine

/-! The command line itself: reading the file, printing the answer. -/

/-- Why a file could not be read, in the words of the operating system where it
gives any. -/
def inputFault : IO.Error → InputFault
  | .noFileOrDirectory .. => .missing
  | .permissionDenied _ code words | .inappropriateType _ code words
  | .invalidArgument _ code words | .resourceExhausted _ code words =>
      .reported s!"{words} (os error {code})"
  | problem => .reported (toString problem)

def readSource (path : String) : IO (Except InputFault String) := do
  try
    let file ← IO.FS.Handle.mk path .read
    return sourceOfBytes (← file.readBinToEnd)
  catch problem =>
    return .error (inputFault problem)

/-- The answer to the arguments of a command line, unless the fuel runs out. -/
def answer (arguments : List String) : IO (Option Reply) := do
  match arguments with
  | [] => return some usage
  | path :: rest =>
      let source ← readSource path
      return run plentyOfFuel path source rest

end TableScript.CommandLine

open TableScript.CommandLine in
/-- Runs the program in the file named by the first argument. -/
def main (arguments : List String) : IO UInt32 := do
  match ← answer arguments with
  | some reply =>
      IO.print reply.stdout
      IO.eprint reply.stderr
      return reply.status.toUInt32
  | none => return 1
