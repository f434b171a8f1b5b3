import TableScript.Text.Blank

namespace TableScript

/-! The two kinds of identifier: an index names an entry, a register or a
parameter, and a name stands for a built-in function. -/

def isIndexChar (c : Char) : Bool :=
  c.isAlphanum || c == '_' || c == '-'

/-- An index is a non-empty run of ASCII letters, digits, `_` and `-`, other
than `here`, which marks a register. -/
def isIndex (text : List Char) : Bool :=
  !text.isEmpty && text != ['h', 'e', 'r', 'e'] && text.all isIndexChar

/-- A name is an ASCII letter or `_`, followed by letters, digits and `_`. -/
def isName : List Char → Bool
  | [] => false
  | c :: rest => (c.isAlpha || c == '_') && rest.all fun c => c.isAlphanum || c == '_'

end TableScript
