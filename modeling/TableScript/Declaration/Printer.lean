import TableScript.Declaration

namespace TableScript

/-! The canonical layout of a program: one line for a scalar or an array, and a
block of lines for an object or a function. -/

def quotedText (text : String) : List Char :=
  ['\''] ++ text.toList ++ ['\'']

def declarationHead (index : String) : List Char :=
  index.toList ++ [' ', '=', '>', ' ']

def FunctionText.print (text : FunctionText) (index : String) : List (List Char) :=
  let params := commaSeparated (text.params.map String.toList)
  (declarationHead index ++ ['('] ++ params ++ [')', ' ', '\x7b']) ::
    text.lines.map String.toList ++ [['\x7d']]

namespace Declaration

mutual

def print : Declaration FunctionText → List (List Char)
  | scalar index _ value => [declarationHead index ++ quotedText value]
  | array index _ items =>
      [declarationHead index ++ ['['] ++ commaSeparated (items.map quotedText) ++ [']']]
  | object index _ members => (declarationHead index ++ ['[']) :: printAll members ++ [[']']]
  | function index _ text => text.print index

def printAll : List (Declaration FunctionText) → List (List Char)
  | [] => []
  | declaration :: others => print declaration ++ printAll others

end

def printProgram (declarations : List (Declaration FunctionText)) : List Char :=
  List.intercalate ['\n'] ([['[']] ++ printAll declarations ++ [[']']])

end Declaration

end TableScript
