import TableScript.Phrase
import TableScript.Text.Shown

namespace TableScript

open Text (shown shownList)

/-! Two ways to write a phrase: `render` gives the canonical source text, and
`display` the form in which a phrase appears in the journal. -/

def Target.render : Target → List Char
  | .entry index => s!"[{index}]".toList
  | .register index => s!"[here][{index}]".toList
  | .append index => s!"[{index}][]".toList
  | .parameter name => s!"${name}".toList

/-- Items separated by a comma and a blank. -/
def commaSeparated : List (List Char) → List Char
  | [] => []
  | [item] => item
  | item :: others => item ++ [',', ' '] ++ commaSeparated others

/-- Two operands around an operator, with one blank on each side of it. -/
def spaced (left symbol right : List Char) : List Char :=
  left ++ [' '] ++ symbol ++ [' '] ++ right

namespace Phrase

mutual

def render : Phrase → List Char
  | ifHeader condition => ['i', 'f', ' ', '('] ++ render condition ++ [')']
  | forHeader condition increment =>
      ['f', 'o', 'r', ' ', '('] ++ render condition ++ [';', ' '] ++ render increment ++ [')']
  | assign target value => spaced target.render ['='] (render value)
  | arithmetic op left right => spaced (render left) [op.symbol] (render right)
  | compare op left right => spaced (render left) op.symbol (render right)
  | call callee arguments =>
      callee.render.toList ++ ['('] ++ commaSeparated (renderAll arguments) ++ [')']
  | builtin name arguments =>
      name.toList ++ ['('] ++ commaSeparated (renderAll arguments) ++ [')']
  | concat left right => spaced (render left) ['^'] (render right)
  | register index => s!"[here][{index}]".toList
  | parameter name => s!"${name}".toList
  | entry index => s!"[{index}]".toList
  | element index key => s!"[{index}]".toList ++ ['['] ++ render key ++ [']']
  | reference index => s!"&[{index}]".toList
  | literal value => ['\''] ++ value.toList ++ ['\'']
  | close => []

def renderAll : List Phrase → List (List Char)
  | [] => []
  | phrase :: others => render phrase :: renderAll others

end

end Phrase

/-- A constructor with one unnamed field, as the journal shows it. -/
def displayOne (constructor field : String) : String :=
  s!"{constructor}({field})"

/-- A constructor with named fields, as the journal shows it. -/
def displayFields (constructor : String) (fields : List (String × String)) : String :=
  let shownFields := fields.map fun (name, value) => s!"{name}: {value}"
  constructor ++ " \x7b " ++ ", ".intercalate shownFields ++ " \x7d"

def Target.display : Target → String
  | .entry index => displayOne "Entry" (shown index)
  | .register index => displayOne "Local" (shown index)
  | .append index => displayOne "Append" (shown index)
  | .parameter name => displayOne "Parameter" (shown name)

def Callee.display : Callee → String
  | .entry index => displayOne "Entry" (shown index)
  | .method object function =>
      displayFields "Method" [("object", shown object), ("function", shown function)]

namespace Phrase

mutual

/-- A phrase as the journal shows it, with all its parts on one line. -/
def display : Phrase → String
  | ifHeader condition => displayFields "If" [("condition", display condition)]
  | forHeader condition increment =>
      displayFields "For" [("condition", display condition), ("increment", display increment)]
  | assign target value =>
      displayFields "Assign" [("target", target.display), ("value", display value)]
  | arithmetic op left right =>
      displayFields "Arithmetic" [("op", op.word), ("left", display left), ("right", display right)]
  | compare op left right =>
      displayFields "Compare" [("op", op.word), ("left", display left), ("right", display right)]
  | call callee arguments =>
      displayFields "Call"
        [("callee", callee.display), ("arguments", shownList (displayAll arguments))]
  | builtin name arguments =>
      displayFields "Builtin" [("name", shown name), ("arguments", shownList (displayAll arguments))]
  | concat left right =>
      displayFields "Concat" [("left", display left), ("right", display right)]
  | register index => displayOne "Local" (shown index)
  | parameter name => displayOne "Parameter" (shown name)
  | entry index => displayOne "Entry" (shown index)
  | element index key =>
      displayFields "Element" [("index", shown index), ("element", display key)]
  | reference index => displayOne "Reference" (shown index)
  | literal value => displayOne "Literal" (shown value)
  | close => "Terminator"

def displayAll : List Phrase → List String
  | [] => []
  | phrase :: others => display phrase :: displayAll others

end

end Phrase

end TableScript
