import TableScript.Operator

namespace TableScript

/-! Phrases: what one line of a function body says, as it is written.  The
headers `if` and `for` and the blank line that closes a block are phrases too;
whether one may stand where it stands is decided when the phrases of a body are
put together. -/

/-- The left side of an assignment. -/
inductive Target where
  /-- Written `[i] = ...`. -/
  | entry (index : String)
  /-- Written `[here][i] = ...`. -/
  | register (index : String)
  /-- Written `[i][] = ...`. -/
  | append (index : String)
  /-- Written `$name = ...`, which no expression may do. -/
  | parameter (name : String)
deriving DecidableEq, Repr

/-- What a call names. -/
inductive Callee where
  /-- A function of the same object, written `[f](...)`. -/
  | entry (index : String)
  /-- A function of a nested object, run inside it, written `[object][f](...)`. -/
  | method (object function : String)
deriving DecidableEq, Repr

def Callee.render : Callee → String
  | .entry index => s!"[{index}]"
  | .method object function => s!"[{object}][{function}]"

inductive Phrase where
  | ifHeader (condition : Phrase)
  | forHeader (condition increment : Phrase)
  | assign (target : Target) (value : Phrase)
  | arithmetic (op : Arithmetic) (left right : Phrase)
  | compare (op : Comparison) (left right : Phrase)
  | call (callee : Callee) (arguments : List Phrase)
  | builtin (name : String) (arguments : List Phrase)
  | concat (left right : Phrase)
  /-- Written `[here][i]`. -/
  | register (index : String)
  /-- Written `$name`. -/
  | parameter (name : String)
  /-- Written `[i]`. -/
  | entry (index : String)
  /-- Written `[i][e]`. -/
  | element (index : String) (key : Phrase)
  /-- Written `&[i]`. -/
  | reference (index : String)
  | literal (value : String)
  /-- A blank line, which closes the innermost block. -/
  | close
deriving Inhabited

end TableScript
