import TableScript.Declaration

namespace TableScript

open Text

/-! The layout of a program text.  The text is taken line by line by a reader
that knows which parts are open: the preamble with its constants, the body, a
function, or nothing more once the body is closed.  A fault is kept as a part
of its own, so that the reader is a total function of the lines. -/

/-- An object whose closing bracket has not been met. -/
structure OpenObject where
  index : String
  line : Nat
  members : List (Declaration FunctionText)

/-- A function whose closing brace has not been met. -/
structure OpenFunction where
  index : String
  line : Nat
  params : List String
  lines : List String
  commented : Bool

inductive Phase where
  | preamble
  | body
  | function (opened : OpenFunction)
  | closed (trailing : Nat)
  | failed (line : Nat) (fault : LayoutFault)

structure Constant where
  name : List Char
  value : List Char

structure Layout where
  line : Nat
  /-- The constants, in the order in which they are tried. -/
  constants : List Constant
  /-- Whether a block comment is open outside functions. -/
  commented : Bool
  phase : Phase
  /-- The open objects, innermost first. -/
  objects : List OpenObject
  members : List (Declaration FunctionText)
  journal : Journal

namespace Layout

/-- The name `MAIN` stands for the index of the default entry function. -/
def predefined : List Constant := [⟨['M', 'A', 'I', 'N'], ['6', '6', '6']⟩]

def start : Layout := ⟨0, predefined, false, .preamble, [], [], #[]⟩

def fail (layout : Layout) (fault : LayoutFault) : Layout :=
  { layout with phase := .failed layout.line fault }

def note (layout : Layout) (event : Event) : Layout :=
  { layout with journal := layout.journal.push event }

/-! ### Parts of a line -/

def isCommentMark (line : List Char) : Bool :=
  ['~', '~', '~'].isPrefixOf line

/-- The word `def` followed by a blank. -/
def isDefinition (line : List Char) : Bool :=
  match ['d', 'e', 'f'].isPrefixOf? line with
  | some (c :: _) => isBlank c
  | _ => false

def constant? (line : List Char) : Option Constant :=
  match cutAt? isBlank (trim (line.drop 3)) with
  | some (name, value) =>
      if name.isEmpty || (trim value).isEmpty then none else some ⟨name, trim value⟩
  | none => none

/-- Replaces the first constant that occurs in a line.  Later constants are left
alone even if they occur too. -/
def substitute (constants : List Constant) (line : List Char) : List Char :=
  match constants.find? fun constant => occursIn constant.name line with
  | some constant => replaceAll constant.name constant.value line
  | none => line

/-- The two sides of `index => value`. -/
def sides? (line : List Char) : Option (List Char × List Char) :=
  cutAtPattern? ['=', '>'] line

def objectStart? (line : List Char) : Option (List Char) :=
  match sides? line with
  | some (index, value) => if trim value = ['['] then some index else none
  | none => none

def readIndex (text : List Char) : Except LayoutFault String :=
  if isIndex (trim text) then .ok (String.ofList (trim text))
  else .error (.invalidIndex (String.ofList (trim text)))

def readSides (line : List Char) : Except LayoutFault (String × List Char) :=
  match sides? line with
  | some (index, value) => do
      let index ← readIndex index
      return (index, trim value)
  | none => .error (.expectedDeclaration (String.ofList line))

/-- A parameter may be written with or without its dollar sign. -/
def param? (text : List Char) : Option String :=
  let name := match trim text with
    | '$' :: name => name
    | name => name
  if isIndex name then some (String.ofList name) else none

/-- The parameters of a signature such as `(a, b)` with an opening brace. -/
def params? (signature : List Char) : Option (List String) :=
  if signature.getLast? = some '\x7b' then
    match between? '(' ')' (trimEnd signature.dropLast) with
    | some inside =>
        if (trim inside).isEmpty then some [] else (inside.splitOn ',').mapM param?
    | none => none
  else none

/-- The items of an array such as `['a', b]`. -/
def items? (value : List Char) : Option (List String) :=
  match between? '[' ']' value with
  | some inside =>
      if (trim inside).isEmpty then some []
      else some ((inside.splitOn ',').map fun item => String.ofList (unquote (trim item)))
  | none => none

/-! ### One line after the other -/

/-- The declarations of the innermost open object, or of the program. -/
def siblings (layout : Layout) : List (Declaration FunctionText) :=
  match layout.objects with
  | object :: _ => object.members
  | [] => layout.members

/-- Adds a declaration, with a warning if it replaces one of the same kind. -/
def add (layout : Layout) (declaration : Declaration FunctionText) : Layout :=
  let layout :=
    match Declaration.lastOf? layout.siblings declaration.kind declaration.index with
    | some previous =>
        layout.note (.redeclared declaration.line declaration.index previous.line)
    | none => layout
  match layout.objects with
  | object :: outer =>
      let object := { object with members := object.members ++ [declaration] }
      { layout with objects := object :: outer }
  | [] => { layout with members := layout.members ++ [declaration] }

def define (layout : Layout) (line : List Char) : Layout :=
  match constant? line with
  | some constant =>
      let layout := { layout with constants := layout.constants ++ [constant] }
      layout.note (.constantDefined (String.ofList constant.name) (String.ofList constant.value))
  | none => layout.fail (.malformedConstant (String.ofList line))

def startLine (layout : Layout) (line : List Char) : Layout :=
  if line = ['['] then { layout with phase := .body }
  else if line = [']'] then layout.fail .endBeforeStart
  else layout.fail (.expectedStart (String.ofList line))

def openObject (layout : Layout) (index : List Char) : Layout :=
  match readIndex index with
  | .ok index =>
      let layout := { layout with objects := ⟨index, layout.line, []⟩ :: layout.objects }
      layout.note (.objectStarted index)
  | .error fault => layout.fail fault

/-- Closes the innermost object, or the program if no object is open. -/
def closeBracket (layout : Layout) : Layout :=
  match layout.objects with
  | object :: outer =>
      let layout := { layout with objects := outer }.note (.objectFinished object.index)
      layout.add (.object object.index object.line object.members)
  | [] => { layout with phase := .closed 0 }

def openFunction (layout : Layout) (line : List Char) : Layout :=
  match readSides line with
  | .ok (index, signature) =>
      match params? signature with
      | some params => { layout with phase := .function ⟨index, layout.line, params, [], false⟩ }
      | none => layout.fail (.malformedHeader (String.ofList signature))
  | .error fault => layout.fail fault

def addEntry (layout : Layout) (line : List Char) : Layout :=
  match readSides line with
  | .ok (index, value) =>
      if value.isEmpty then layout.fail (.missingValue index)
      else match items? value with
        | some items => (layout.note (.arrayRead index items)).add (.array index layout.line items)
        | none =>
            let scalar := String.ofList (unquote value)
            (layout.note (.scalarRead index scalar)).add (.scalar index layout.line scalar)
  | .error fault => layout.fail fault

def bodyLine (layout : Layout) (line : List Char) : Layout :=
  match objectStart? line with
  | some index => layout.openObject index
  | none =>
      if line = [']'] then layout.closeBracket
      else if line = ['['] then layout.fail .startInside
      else if line.getLast? = some '\x7b' then layout.openFunction line
      else layout.addEntry line

def closeFunction (layout : Layout) (opened : OpenFunction) : Layout :=
  let layout := { layout with phase := .body }.note
    (.functionRead opened.index opened.params opened.lines.length)
  layout.add (.function opened.index opened.line ⟨opened.params, opened.lines, opened.line⟩)

/-- A line inside a function.  The closing brace counts even inside a block
comment, and a line that is a comment from its start is left out altogether. -/
def functionLine (layout : Layout) (opened : OpenFunction) (raw : List Char) : Layout :=
  if raw = ['\x7d'] then layout.closeFunction opened
  else if isCommentMark raw then
    { layout with phase := .function { opened with commented := !opened.commented } }
  else if opened.commented || ['/', '/'].isPrefixOf raw then layout
  else
    let line := String.ofList (substitute layout.constants (withoutComment raw))
    { layout with phase := .function { opened with lines := opened.lines ++ [line] } }

/-- Passes a line outside functions on, without its comment, unless it is blank
or commented out. -/
def plainLine (layout : Layout) (raw : List Char) (take : Layout → List Char → Layout) : Layout :=
  if isCommentMark raw then { layout with commented := !layout.commented }
  else if layout.commented || (withoutComment raw).isEmpty then layout
  else take layout (withoutComment raw)

/-- Takes the next line, which has to be trimmed. -/
def step (layout : Layout) (raw : List Char) : Layout :=
  let layout := { layout with line := layout.line + 1 }
  match layout.phase with
  | .preamble =>
      layout.plainLine raw fun layout line =>
        if isDefinition line then layout.define line
        else layout.startLine (substitute layout.constants line)
  | .body =>
      layout.plainLine raw fun layout line =>
        if isDefinition line then layout.fail .lateConstant
        else layout.bodyLine (substitute layout.constants line)
  | .function opened => layout.functionLine opened raw
  | .closed trailing =>
      if (withoutComment raw).isEmpty then layout
      else { layout with phase := .closed (trailing + 1) }
  | .failed .. => layout

/-- What the lines amount to.  A function that is still open is reported before
the object around it. -/
def finish (layout : Layout) : Logged (List (Declaration FunctionText)) :=
  match layout.phase, layout.objects with
  | .failed line fault, _ => ⟨layout.journal, .error (.structural line fault)⟩
  | .function opened, _ =>
      ⟨layout.journal, .error (.structural opened.line (.openFunction opened.index))⟩
  | _, object :: _ =>
      ⟨layout.journal, .error (.structural object.line (.openObject object.index))⟩
  | .preamble, [] => ⟨layout.journal, .error (.structural layout.line .missingStart)⟩
  | .body, [] => ⟨layout.journal.push .bodyNeverClosed, .ok layout.members⟩
  | .closed 0, [] => ⟨layout.journal, .ok layout.members⟩
  | .closed trailing, [] => ⟨layout.journal.push (.trailingLines trailing), .ok layout.members⟩

/-- The lines of a text, each trimmed.  Only the line feed ends a line. -/
def lines (source : List Char) : List (List Char) :=
  (source.splitOn '\n').map trim

def read (source : List Char) : Logged (List (Declaration FunctionText)) :=
  ((lines source).foldl step start).finish

end Layout

end TableScript
