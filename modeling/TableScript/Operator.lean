namespace TableScript

/-! The operators of the language and their spelling. -/

inductive Arithmetic where
  | add
  | subtract
  | modulo
  | divide
deriving DecidableEq, Repr

namespace Arithmetic

def ofSymbol? : Char → Option Arithmetic
  | '+' => some .add
  | '-' => some .subtract
  | '%' => some .modulo
  | '/' => some .divide
  | _ => none

def symbol : Arithmetic → Char
  | add => '+'
  | subtract => '-'
  | modulo => '%'
  | divide => '/'

def word : Arithmetic → String
  | add => "Add"
  | subtract => "Subtract"
  | modulo => "Modulo"
  | divide => "Divide"

theorem ofSymbol?_eq_some_iff {c : Char} {op : Arithmetic} :
    ofSymbol? c = some op ↔ c = op.symbol := by
  constructor
  · intro found
    unfold ofSymbol? at found
    split at found <;> cases found <;> rfl
  · rintro rfl
    cases op <;> rfl

end Arithmetic

inductive Comparison where
  | less
  | greater
  | lessEqual
  | greaterEqual
  | equal
deriving DecidableEq, Repr

namespace Comparison

def symbol : Comparison → List Char
  | less => ['<']
  | greater => ['>']
  | lessEqual => ['<', '=']
  | greaterEqual => ['>', '=']
  | equal => ['=', '=']

def word : Comparison → String
  | less => "Less"
  | greater => "Greater"
  | lessEqual => "LessEqual"
  | greaterEqual => "GreaterEqual"
  | equal => "Equal"

/-- The order in which the comparisons are looked for.  Those of two characters
come first, so that `<=` is never read as `<`. -/
def searchOrder : List Comparison := [lessEqual, greaterEqual, equal, less, greater]

end Comparison

end TableScript
