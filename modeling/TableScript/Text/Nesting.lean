import TableScript.Text.Cut

namespace TableScript.Text

/-! The surface of a text: the characters outside single quotes, parentheses
and square brackets.  One walk over the text serves all searches; it keeps a
quote flag and a bracket depth, does not tell the two kinds of bracket apart
and forgets a closing bracket that nothing opened. -/

/-- Where a position lies: inside quotes or not, and below how many brackets. -/
structure Nesting where
  quoted : Bool
  depth : Nat
deriving DecidableEq, Repr

namespace Nesting

def outside : Nesting := ⟨false, 0⟩

def step (nesting : Nesting) (c : Char) : Nesting :=
  if c == '\'' then { nesting with quoted := !nesting.quoted }
  else if nesting.quoted then nesting
  else if c == '(' || c == '[' then { nesting with depth := nesting.depth + 1 }
  else if c == ')' || c == ']' then { nesting with depth := nesting.depth - 1 }
  else nesting

def isOutside (nesting : Nesting) : Bool :=
  !nesting.quoted && nesting.depth == 0

def after (nesting : Nesting) (text : List Char) : Nesting :=
  text.foldl step nesting

end Nesting

def isDelimiter (c : Char) : Bool :=
  c == '\'' || c == '(' || c == '[' || c == ')' || c == ']'

def Nesting.surfaces (nesting : Nesting) (c : Char) : Bool :=
  nesting.isOutside && !isDelimiter c

/-- The first position that passes `stop`, as the text before it and the text
from it on.  The test sees the nesting there, the text already read, last
character first, and the text from the position on. -/
def walk? (stop : Nesting → List Char → List Char → Bool) (nesting : Nesting) (read : List Char) :
    List Char → Option (List Char × List Char)
  | [] => none
  | c :: rest =>
      if stop nesting read (c :: rest) then some (read.reverse, c :: rest)
      else walk? stop (nesting.step c) (c :: read) rest

def surfaceCut? (accept : List Char → List Char → Bool) (text : List Char) :
    Option (List Char × List Char) :=
  let stop (nesting : Nesting) (read ahead : List Char) : Bool :=
    match ahead with
    | c :: _ => nesting.surfaces c && accept read ahead
    | [] => false
  walk? stop Nesting.outside [] text

/-- The text before and after the first occurrence of `pattern` that starts on the surface. -/
def surfaceSplit? (pattern text : List Char) : Option (List Char × List Char) :=
  (surfaceCut? (fun _ ahead => pattern.isPrefixOf ahead) text).map fun (before, ahead) =>
    (before, ahead.drop pattern.length)

def byteSize : List Char → Nat
  | [] => 0
  | c :: rest => c.utf8Size + byteSize rest

/-- The byte offset of the first occurrence of `pattern` that starts on the surface. -/
def surfaceOffset? (pattern text : List Char) : Option Nat :=
  (surfaceCut? (fun _ ahead => pattern.isPrefixOf ahead) text).map fun (before, _) =>
    byteSize before

/-- The text before and after the first `(` outside quotes and brackets. -/
def openingParen? (text : List Char) : Option (List Char × List Char) :=
  let stop (nesting : Nesting) (_ ahead : List Char) : Bool :=
    nesting.isOutside && ahead.head? == some '('
  (walk? stop Nesting.outside [] text).map fun (before, ahead) => (before, ahead.drop 1)

/-- The text before and after the `)` that closes a parenthesis already opened,
with `inner` more parentheses open inside it.  Square brackets play no part. -/
def closingParen? (quoted : Bool) (inner : Nat) : List Char → Option (List Char × List Char)
  | [] => none
  | c :: rest =>
      let next (quoted : Bool) (inner : Nat) :=
        (closingParen? quoted inner rest).map fun (before, after) => (c :: before, after)
      if c == '\'' then next (!quoted) inner
      else if quoted then next quoted inner
      else if c == '(' then next quoted (inner + 1)
      else if c == ')' then
        match inner with
        | 0 => some ([], rest)
        | inner + 1 => next quoted inner
      else next quoted inner

/-- The pieces of a text between the separators on its surface. -/
def surfacePieces (separator : Char) (nesting : Nesting) : List Char → List (List Char)
  | [] => [[]]
  | c :: rest =>
      let pieces := surfacePieces separator (nesting.step c) rest
      if nesting.surfaces c && c == separator then [] :: pieces
      else match pieces with
        | piece :: others => (c :: piece) :: others
        | [] => [[c]]

@[simp] theorem byteSize_append (first second : List Char) :
    byteSize (first ++ second) = byteSize first + byteSize second := by
  induction first with
  | nil => simp [byteSize]
  | cons c rest continued => simp [byteSize, continued, Nat.add_assoc]

theorem walk?_eq_append {stop : Nesting → List Char → List Char → Bool} {nesting : Nesting}
    {read text before ahead : List Char}
    (found : walk? stop nesting read text = some (before, ahead)) :
    before ++ ahead = read.reverse ++ text ∧ ahead ≠ [] := by
  induction text generalizing nesting read with
  | nil => simp [walk?] at found
  | cons c rest continued =>
      simp only [walk?] at found
      split at found
      · simp only [Option.some.injEq, Prod.mk.injEq] at found
        simp [← found.1, ← found.2]
      · have parts := continued found
        simpa using parts

theorem surfaceCut?_eq_append {accept : List Char → List Char → Bool}
    {text before ahead : List Char} (found : surfaceCut? accept text = some (before, ahead)) :
    before ++ ahead = text ∧ ahead ≠ [] := by
  simpa using walk?_eq_append found

theorem surfaceSplit?_length {pattern text before after : List Char} (given : pattern ≠ [])
    (found : surfaceSplit? pattern text = some (before, after)) :
    before.length + after.length < text.length := by
  simp only [surfaceSplit?, Option.map_eq_some_iff] at found
  obtain ⟨⟨start, ahead⟩, cut, parts⟩ := found
  obtain ⟨whole, nonempty⟩ := surfaceCut?_eq_append cut
  simp only [Prod.mk.injEq] at parts
  have positive : 0 < ahead.length := List.length_pos_iff.mpr nonempty
  have positivePattern : 0 < pattern.length := List.length_pos_iff.mpr given
  rw [← parts.1, ← parts.2, ← whole]
  simp only [List.length_append, List.length_drop]
  omega

theorem openingParen?_length {text before after : List Char}
    (found : openingParen? text = some (before, after)) :
    before.length + after.length < text.length := by
  simp only [openingParen?, Option.map_eq_some_iff] at found
  obtain ⟨⟨start, ahead⟩, cut, parts⟩ := found
  obtain ⟨whole, nonempty⟩ := walk?_eq_append cut
  simp only [Prod.mk.injEq] at parts
  have positive : 0 < ahead.length := List.length_pos_iff.mpr nonempty
  rw [← parts.1, ← parts.2]
  have total := congrArg List.length whole
  simp only [List.reverse_nil, List.nil_append, List.length_append] at total
  simp only [List.length_drop]
  omega

theorem closingParen?_eq_append {quoted : Bool} {inner : Nat} {text before after : List Char}
    (found : closingParen? quoted inner text = some (before, after)) :
    text = before ++ ')' :: after := by
  induction text generalizing quoted inner before with
  | nil => simp [closingParen?] at found
  | cons c rest continued =>
      have carried : ∀ {quoted : Bool} {inner : Nat},
          ((closingParen? quoted inner rest).map fun parts => (c :: parts.1, parts.2)) =
            some (before, after) → c :: rest = before ++ ')' :: after := by
        intro quoted inner mapped
        simp only [Option.map_eq_some_iff, Prod.mk.injEq] at mapped
        obtain ⟨⟨start, stopped⟩, earlier, rfl, rfl⟩ := mapped
        rw [continued earlier]
        rfl
      simp only [closingParen?] at found
      split at found
      · exact carried found
      · split at found
        · exact carried found
        · split at found
          · exact carried found
          · split at found
            · rename_i _ _ _ closing
              cases inner with
              | zero =>
                  simp only [Option.some.injEq, Prod.mk.injEq] at found
                  rw [← found.1, ← found.2, beq_iff_eq.mp closing]
                  rfl
              | succ inner => exact carried found
            · exact carried found

/-- The length of texts with one separator in front of each. -/
def totalLength : List (List Char) → Nat
  | [] => 0
  | text :: others => text.length + 1 + totalLength others

/-- The pieces and the separators between them make up the text. -/
theorem totalLength_surfacePieces (separator : Char) (nesting : Nesting) (text : List Char) :
    totalLength (surfacePieces separator nesting text) = text.length + 1 := by
  induction text generalizing nesting with
  | nil => rfl
  | cons c rest continued =>
      have shorter := continued (nesting.step c)
      simp only [surfacePieces]
      split
      · simp only [totalLength, List.length_nil, List.length_cons]
        omega
      · cases pieces : surfacePieces separator (nesting.step c) rest with
        | nil =>
            rw [pieces] at shorter
            simp only [totalLength] at shorter
            omega
        | cons piece others =>
            rw [pieces] at shorter
            simp only [totalLength, List.length_cons] at shorter ⊢
            omega

end TableScript.Text
