import TableScript.Declaration

namespace TableScript

/-! Code: expressions that may be run.  A reference to an array is no value, so
code has room for it only as an argument of a built-in function. -/

/-- An argument of a built-in function: code that is run when the function asks
for it, or an array by its index. -/
inductive Argument (α : Type) where
  | value (code : α)
  | reference (index : String)

inductive Code where
  | literal (value : String)
  | read (index : String)
  | write (index : String) (value : Code)
  | register (index : String)
  | setRegister (index : String) (value : Code)
  | element (index : String) (key : Code)
  | append (index : String) (value : Code)
  | parameter (name : String)
  | arithmetic (op : Arithmetic) (left right : Code)
  | concat (left right : Code)
  | compare (op : Comparison) (left right : Code)
  | call (callee : Callee) (arguments : List Code)
  | builtin (name : String) (arguments : List (Argument Code))
  | branch (condition : Code) (body : List Code)
  | loop (condition increment : Code) (body : List Code)

namespace Code

mutual

/-- The code of an expression, unless a reference stands where a value has to
be.  The first such reference from left to right is reported. -/
def ofExpr : Expr → Except BindFault Code
  | .literal value => .ok (.literal value)
  | .read index => .ok (.read index)
  | .write index value => do
      let value ← ofExpr value
      return .write index value
  | .register index => .ok (.register index)
  | .setRegister index value => do
      let value ← ofExpr value
      return .setRegister index value
  | .element index key => do
      let key ← ofExpr key
      return .element index key
  | .append index value => do
      let value ← ofExpr value
      return .append index value
  | .parameter name => .ok (.parameter name)
  | .reference index => .error (.strayReference index)
  | .arithmetic op left right => do
      let left ← ofExpr left
      let right ← ofExpr right
      return .arithmetic op left right
  | .concat left right => do
      let left ← ofExpr left
      let right ← ofExpr right
      return .concat left right
  | .compare op left right => do
      let left ← ofExpr left
      let right ← ofExpr right
      return .compare op left right
  | .call callee arguments => do
      let arguments ← ofExprs arguments
      return .call callee arguments
  | .builtin name arguments => do
      let arguments ← ofArguments arguments
      return .builtin name arguments
  | .branch condition body => do
      let condition ← ofExpr condition
      let body ← ofExprs body
      return .branch condition body
  | .loop condition increment body => do
      let condition ← ofExpr condition
      let increment ← ofExpr increment
      let body ← ofExprs body
      return .loop condition increment body

def ofExprs : List Expr → Except BindFault (List Code)
  | [] => .ok []
  | expr :: others => do
      let code ← ofExpr expr
      let codes ← ofExprs others
      return code :: codes

/-- The arguments of a built-in function, where references are allowed. -/
def ofArguments : List Expr → Except BindFault (List (Argument Code))
  | [] => .ok []
  | .reference index :: others => do
      let arguments ← ofArguments others
      return .reference index :: arguments
  | expr :: others => do
      let code ← ofExpr expr
      let arguments ← ofArguments others
      return .value code :: arguments

end

def ofText (text : List Char) : Except Error Code := do
  let phrase ← (Phrase.read text).mapError (Error.phrase [])
  let expr ← Expr.ofPhrase phrase
  (ofExpr expr).mapError (Error.bind [])

end Code

structure Routine where
  index : String
  params : List String
  body : List Code

/-- Compiles a function; a fault is placed in it. -/
def FunctionTree.compile (tree : FunctionTree) : Except Error Routine :=
  match Code.ofExprs tree.body with
  | .ok body => .ok ⟨tree.index, tree.params, body⟩
  | .error fault => .error ((Error.bind [] fault).within ⟨tree.index, tree.line⟩)

end TableScript
