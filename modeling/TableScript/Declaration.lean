import TableScript.Expr.Block
import TableScript.Phrase.Reader

namespace TableScript

/-! Declarations: the content of a program or of an object, in the order of the
source.  Functions are declared as text first and as trees once their bodies
are read. -/

/-- A function as it is written: its body as lines, trimmed and with constants
replaced. -/
structure FunctionText where
  params : List String
  lines : List String
  line : Nat
deriving DecidableEq, Repr

structure FunctionTree where
  index : String
  params : List String
  body : List Expr
  line : Nat

/-- Something declared under an index.  The type of functions is left open. -/
inductive Declaration (φ : Type) where
  | scalar (index : String) (line : Nat) (value : String)
  | array (index : String) (line : Nat) (items : List String)
  | object (index : String) (line : Nat) (members : List (Declaration φ))
  | function (index : String) (line : Nat) (function : φ)
deriving Repr

inductive Kind where
  | scalar
  | array
  | object
  | function
deriving DecidableEq, Repr

namespace Declaration

variable {φ : Type}

def index : Declaration φ → String
  | scalar index .. | array index .. | object index .. | function index .. => index

def line : Declaration φ → Nat
  | scalar _ line _ | array _ line _ | object _ line _ | function _ line _ => line

def kind : Declaration φ → Kind
  | scalar .. => .scalar
  | array .. => .array
  | object .. => .object
  | function .. => .function

/-- The declaration that an index stands for: the last one. -/
def last? (declarations : List (Declaration φ)) (index : String) : Option (Declaration φ) :=
  declarations.reverse.find? fun declaration => declaration.index == index

def lastOf? (declarations : List (Declaration φ)) (kind : Kind) (index : String) :
    Option (Declaration φ) :=
  declarations.reverse.find? fun declaration =>
    declaration.index == index && declaration.kind == kind

end Declaration

/-- Reads lines as phrases, up to the first that cannot be read. -/
def Phrase.readLines : List String → Logged (List Phrase)
  | [] => .ok []
  | line :: others => do
      Logged.note (.lineTaken (String.ofList (Text.trim line.toList)))
      let phrase ← Logged.ofExcept ((Phrase.readLine line.toList).mapError (Error.phrase []))
      let phrases ← Phrase.readLines others
      return phrase :: phrases

namespace FunctionTree

/-- Reads the body of a function.  All lines are read before any block is built. -/
def ofText (index : String) (text : FunctionText) : Logged FunctionTree :=
  Logged.within ⟨index, text.line⟩ do
    let phrases ← Phrase.readLines text.lines
    let body ← Expr.build phrases
    return ⟨index, text.params, body, text.line⟩

end FunctionTree

namespace Declaration

mutual

/-- Reads the bodies of all functions, those of nested objects included. -/
def parse : Declaration FunctionText → Logged (Declaration FunctionTree)
  | scalar index line value => .ok (.scalar index line value)
  | array index line items => .ok (.array index line items)
  | object index line members => do
      let members ← parseAll members
      return .object index line members
  | function index line text => do
      let tree ← FunctionTree.ofText index text
      return .function index line tree

def parseAll : List (Declaration FunctionText) → Logged (List (Declaration FunctionTree))
  | [] => .ok []
  | declaration :: others => do
      let declaration ← parse declaration
      let declarations ← parseAll others
      return declaration :: declarations

end

end Declaration

end TableScript
