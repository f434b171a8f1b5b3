import TableScript.Text.Blank

namespace TableScript.Text

/-! Values shown in the journal: a text stands in double quotes, with its
control characters spelled out, and a list in square brackets. -/

def isControl (c : Char) : Bool :=
  c.toNat < 0x20 || (0x7F ≤ c.toNat && c.toNat ≤ 0x9F)

/-- The spelling of one character between double quotes.  Blanks other than
the space are written as code points, like the control characters without a
short spelling. -/
def shownChar (c : Char) : String :=
  match c with
  | '"' => "\\\""
  | '\\' => "\\\\"
  | '\t' => "\\t"
  | '\n' => "\\n"
  | '\r' => "\\r"
  | '\x00' => "\\0"
  | c =>
      if isControl c || (isBlank c && c != ' ') then
        "\\u\x7b" ++ String.ofList (Nat.toDigits 16 c.toNat) ++ "\x7d"
      else c.toString

def shown (text : String) : String :=
  "\"" ++ String.join (text.toList.map shownChar) ++ "\""

def shownList (items : List String) : String :=
  "[" ++ ", ".intercalate items ++ "]"

end TableScript.Text
