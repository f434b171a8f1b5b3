import TableScript.Expr
import TableScript.Logged

namespace TableScript

/-! Building the tree of a function body.  A header opens a block and a blank
line closes the innermost one.  The blocks that are still open form a stack,
innermost first; at its bottom lies the body of the function itself, the only
block without a header. -/

inductive Header where
  | branch (condition : Expr)
  | loop (condition increment : Expr)

def Header.enclose (header : Header) (body : List Expr) : Expr :=
  match header with
  | .branch condition => .branch condition body
  | .loop condition increment => .loop condition increment body

structure Block where
  header : Option Header
  body : List Expr

namespace Block

def bottom : List Block := [⟨none, []⟩]

def add (expr : Expr) : List Block → Except TreeFault (List Block)
  | [] => .error .unbalanced
  | block :: outer => .ok (⟨block.header, block.body ++ [expr]⟩ :: outer)

/-- Closes the innermost block, whose expression goes to the block around it. -/
def close : List Block → Except TreeFault (List Block)
  | [] => .error .unbalanced
  | [_] => .error .strayClose
  | block :: outer =>
      match block.header with
      | some header => add (header.enclose block.body) outer
      | none => .error .unbalanced

def ofTree {α : Type} (result : Except TreeFault α) : Except Error α :=
  result.mapError (Error.tree [])

def take (blocks : List Block) : Phrase → Except Error (List Block)
  | .ifHeader condition => do
      let condition ← Expr.ofPhrase condition
      return ⟨some (.branch condition), []⟩ :: blocks
  | .forHeader condition increment => do
      let condition ← Expr.ofPhrase condition
      let increment ← Expr.ofPhrase increment
      return ⟨some (.loop condition increment), []⟩ :: blocks
  | .close => ofTree (close blocks)
  | phrase => do
      let expr ← Expr.ofPhrase phrase
      ofTree (add expr blocks)

def finish : List Block → Except TreeFault (List Expr)
  | [] => .error .unbalanced
  | [block] => .ok block.body
  | _ :: outer => .error (.openBlocks outer.length)

def takeAll (blocks : List Block) : List Phrase → Logged (List Block)
  | [] => .ok blocks
  | phrase :: others => do
      Logged.note (.phraseTaken phrase)
      let blocks ← Logged.ofExcept (take blocks phrase)
      takeAll blocks others

end Block

namespace Expr

def build (phrases : List Phrase) : Logged (List Expr) := do
  let blocks ← Block.takeAll Block.bottom phrases
  Logged.ofExcept (Block.ofTree (Block.finish blocks))

mutual

/-- The phrases of an expression that stands as a statement: a block is its
header, its body and the blank line that closes it. -/
def flatten : Expr → List Phrase
  | branch condition body => .ifHeader condition.toPhrase :: flattenAll body ++ [.close]
  | loop condition increment body =>
      .forHeader condition.toPhrase increment.toPhrase :: flattenAll body ++ [.close]
  | expr => [expr.toPhrase]

def flattenAll : List Expr → List Phrase
  | [] => []
  | expr :: others => flatten expr ++ flattenAll others

end

end Expr

end TableScript
