import TableScript.Error
import TableScript.Phrase

namespace TableScript

/-! Expressions: phrases put together.  Reading and writing an entry or a
register are different expressions, and a block holds its body. -/

inductive Expr where
  | literal (value : String)
  | read (index : String)
  | write (index : String) (value : Expr)
  | register (index : String)
  | setRegister (index : String) (value : Expr)
  | element (index : String) (key : Expr)
  | append (index : String) (value : Expr)
  | parameter (name : String)
  | reference (index : String)
  | arithmetic (op : Arithmetic) (left right : Expr)
  | concat (left right : Expr)
  | compare (op : Comparison) (left right : Expr)
  | call (callee : Callee) (arguments : List Expr)
  | builtin (name : String) (arguments : List Expr)
  | branch (condition : Expr) (body : List Expr)
  | loop (condition increment : Expr) (body : List Expr)
deriving Inhabited

namespace Expr

/-- The expression that assigns `value` to a target.  Parameters cannot be
assigned. -/
def assign (target : Target) (value : Expr) : Except Error Expr :=
  match target with
  | .entry index => .ok (.write index value)
  | .register index => .ok (.setRegister index value)
  | .append index => .ok (.append index value)
  | .parameter name => .error (.bind [] (.assignedParameter name))

mutual

/-- The expression a phrase stands for.  Headers and blank lines stand for
none; the parts of a phrase are taken from left to right. -/
def ofPhrase : Phrase → Except Error Expr
  | .literal value => .ok (.literal value)
  | .entry index => .ok (.read index)
  | .register index => .ok (.register index)
  | .parameter name => .ok (.parameter name)
  | .reference index => .ok (.reference index)
  | .element index key => do
      let key ← ofPhrase key
      return .element index key
  | .assign target value => do
      let value ← ofPhrase value
      assign target value
  | .arithmetic op left right => do
      let left ← ofPhrase left
      let right ← ofPhrase right
      return .arithmetic op left right
  | .compare op left right => do
      let left ← ofPhrase left
      let right ← ofPhrase right
      return .compare op left right
  | .concat left right => do
      let left ← ofPhrase left
      let right ← ofPhrase right
      return .concat left right
  | .call callee arguments => do
      let arguments ← ofPhrases arguments
      return .call callee arguments
  | .builtin name arguments => do
      let arguments ← ofPhrases arguments
      return .builtin name arguments
  | .ifHeader _ => .error (.tree [] .headerAsValue)
  | .forHeader _ _ => .error (.tree [] .headerAsValue)
  | .close => .error (.tree [] .strayClose)

def ofPhrases : List Phrase → Except Error (List Expr)
  | [] => .ok []
  | phrase :: others => do
      let expr ← ofPhrase phrase
      let exprs ← ofPhrases others
      return expr :: exprs

end

mutual

/-- The phrase that stands for an expression.  Of a block this is the header. -/
def toPhrase : Expr → Phrase
  | literal value => .literal value
  | read index => .entry index
  | write index value => .assign (.entry index) (toPhrase value)
  | register index => .register index
  | setRegister index value => .assign (.register index) (toPhrase value)
  | element index key => .element index (toPhrase key)
  | append index value => .assign (.append index) (toPhrase value)
  | parameter name => .parameter name
  | reference index => .reference index
  | arithmetic op left right => .arithmetic op (toPhrase left) (toPhrase right)
  | concat left right => .concat (toPhrase left) (toPhrase right)
  | compare op left right => .compare op (toPhrase left) (toPhrase right)
  | call callee arguments => .call callee (toPhrases arguments)
  | builtin name arguments => .builtin name (toPhrases arguments)
  | branch condition _ => .ifHeader (toPhrase condition)
  | loop condition increment _ => .forHeader (toPhrase condition) (toPhrase increment)

def toPhrases : List Expr → List Phrase
  | [] => []
  | expr :: others => toPhrase expr :: toPhrases others

end

end Expr

end TableScript
