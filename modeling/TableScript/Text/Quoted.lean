import TableScript.Text.Cut

namespace TableScript.Text

/-! Single quotes: taking a pair of them off a text, and cutting a line comment
that does not start inside them. -/

/-- The text between two single quotes, which may itself hold quotes. -/
def quoted? (text : List Char) : Option (List Char) :=
  between? '\'' '\'' text

/-- A text without one pair of surrounding single quotes. -/
def unquote (text : List Char) : List Char :=
  (quoted? text).getD text

/-- The text before the first `//` outside single quotes, if there is one. -/
def beforeComment? (quoted : Bool) : List Char → Option (List Char)
  | [] => none
  | c :: rest =>
      if c == '\'' then (beforeComment? (!quoted) rest).map (c :: ·)
      else if !quoted && ['/', '/'].isPrefixOf (c :: rest) then some []
      else (beforeComment? quoted rest).map (c :: ·)

/-- A line up to its comment.  Only a line that has one is trimmed at its end. -/
def withoutComment (line : List Char) : List Char :=
  match beforeComment? false line with
  | some before => trimEnd before
  | none => line

theorem unquote_quoted (text : List Char) : unquote ('\'' :: text ++ ['\'']) = text := by
  simp only [unquote, quoted?, between?_append, Option.getD_some]

end TableScript.Text
