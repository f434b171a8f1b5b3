import TableScript.Fault
import TableScript.Index
import TableScript.Phrase
import TableScript.Text.Nesting
import TableScript.Text.Quoted

namespace TableScript

open Text

/-! Reading phrases.  A text is read in two steps: `shape` recognises the
outermost construct and cuts the texts of its operands out, and `read` reads
these in turn.  The recognisers run in a fixed order and the first match wins,
so the order is the precedence of the operators. -/

def registerMark : List Char := ['[', 'h', 'e', 'r', 'e', ']']

/-- The index `i` of a text `[i]`. -/
def bracketedIndex? (text : List Char) : Option String :=
  match wholeBracket? text with
  | some index => if isIndex index then some (String.ofList index) else none
  | none => none

def Target.read (text : List Char) : Except PhraseFault Target :=
  let text := trim text
  let invalid : Except PhraseFault Target := .error (.invalidTarget (String.ofList text))
  match registerMark.isPrefixOf? text with
  | some rest =>
      match bracketedIndex? rest with
      | some index => .ok (.register index)
      | none => invalid
  | none =>
      match text with
      | '$' :: name => .ok (.parameter (String.ofList name))
      | _ =>
          match firstBracket? text with
          | some (index, rest) =>
              if !isIndex index then invalid
              else if rest = [] then .ok (.entry (String.ofList index))
              else if rest = ['[', ']'] then .ok (.append (String.ofList index))
              else invalid
          | none => invalid

/-- The outermost construct of a phrase, with the texts of its operands. -/
inductive Shape where
  | leaf (phrase : Phrase)
  | assign (target : Target) (value : List Char)
  | arithmetic (op : Arithmetic) (left right : List Char)
  | compare (op : Comparison) (left right : List Char)
  | concat (left right : List Char)
  | call (callee : Callee) (arguments : List (List Char))
  | builtin (name : String) (arguments : List (List Char))
  | element (index : String) (key : List Char)

namespace Shape

/-- A lone `=`, which is no part of `==`, `<=`, `>=` or `!=`. -/
def isAssignment (read ahead : List Char) : Bool :=
  match ahead with
  | '=' :: rest =>
      !(read.head?.any fun c => c == '=' || c == '<' || c == '>' || c == '!') &&
        rest.head? != some '='
  | _ => false

/-- The characters after which a sign belongs to a literal. -/
def operatorChars : List Char := ['+', '-', '%', '/', '^', '<', '>', '=']

/-- An arithmetic operator with an operand on its left. -/
def isOperator (read ahead : List Char) : Bool :=
  match ahead with
  | c :: _ =>
      (Arithmetic.ofSymbol? c).isSome &&
        (trimStart read).head?.any fun last => !operatorChars.contains last
  | [] => false

def assignment? (text : List Char) : Option (List Char × List Char) :=
  (surfaceCut? isAssignment text).map fun (before, ahead) => (before, ahead.drop 1)

def arithmetic? (text : List Char) : Option (Arithmetic × List Char × List Char) :=
  match surfaceCut? isOperator text with
  | some (left, c :: right) => (Arithmetic.ofSymbol? c).map fun op => (op, left, right)
  | _ => none

/-- The first comparison in search order, wherever it stands, and its operands. -/
def comparison? (text : List Char) : Option (Comparison × List Char × List Char) :=
  Comparison.searchOrder.findSome? fun op =>
    (surfaceSplit? op.symbol text).map fun (left, right) => (op, left, right)

def arguments (inside : List Char) : List (List Char) :=
  if (trim inside).isEmpty then [] else surfacePieces ',' Nesting.outside inside

/-- The forms `[f]`, `[object][f]` and a name, applied to arguments. -/
def applied? (callee : List Char) (arguments : List (List Char)) : Option Shape :=
  match firstBracket? callee with
  | some (index, rest) =>
      if !isIndex index then none
      else if rest = [] then some (.call (.entry (String.ofList index)) arguments)
      else (bracketedIndex? rest).map fun function =>
        .call (.method (String.ofList index) function) arguments
  | none => if isName callee then some (.builtin (String.ofList callee) arguments) else none

/-- A call, whose parentheses have to end with the text. -/
def call? (text : List Char) : Option Shape :=
  match openingParen? text with
  | some (callee, rest) =>
      match closingParen? false 0 rest with
      | some (inside, []) => applied? (trim callee) (arguments inside)
      | _ => none
  | none => none

def unrecognized (text : List Char) : Except PhraseFault Shape :=
  .error (.unrecognized (String.ofList text))

/-- The forms `[i]` and `[i][e]`, where `e` is a key or any phrase. -/
def entry (text : List Char) : Except PhraseFault Shape :=
  match firstBracket? text with
  | some (index, rest) =>
      if !isIndex index then unrecognized text
      else if rest = [] then .ok (.leaf (.entry (String.ofList index)))
      else match wholeBracket? rest with
        | some inside =>
            if isIndex inside then
              .ok (.leaf (.element (String.ofList index) (.literal (String.ofList inside))))
            else .ok (.element (String.ofList index) inside)
        | none => unrecognized text
  | none => unrecognized text

/-- A quoted text, or an integer as it is written. -/
def literal (text : List Char) : Except PhraseFault Shape :=
  match quoted? text with
  | some value => .ok (.leaf (.literal (String.ofList value)))
  | none =>
      if (Number.read? text).isSome then .ok (.leaf (.literal (String.ofList text)))
      else unrecognized text

def atom (text : List Char) : Except PhraseFault Shape :=
  match registerMark.isPrefixOf? text with
  | some rest =>
      match bracketedIndex? rest with
      | some index => .ok (.leaf (.register index))
      | none => unrecognized text
  | none =>
      match text with
      | '$' :: name =>
          if isIndex name then .ok (.leaf (.parameter (String.ofList name)))
          else unrecognized text
      | '[' :: _ => entry text
      | '&' :: rest =>
          match bracketedIndex? rest with
          | some index => .ok (.leaf (.reference index))
          | none => unrecognized text
      | _ => literal text

end Shape

/-- The outermost construct of a trimmed text. -/
def shape (text : List Char) : Except PhraseFault Shape :=
  if text.isEmpty then .error .missingOperand
  else match Shape.assignment? text with
    | some (target, value) =>
        match Target.read target with
        | .ok target => .ok (.assign target value)
        | .error fault => .error fault
    | none =>
        match Shape.arithmetic? text with
        | some (op, left, right) => .ok (.arithmetic op left right)
        | none =>
            match Shape.comparison? text with
            | some (op, left, right) => .ok (.compare op left right)
            | none =>
                match Shape.call? text with
                | some call => .ok call
                | none =>
                    match surfaceSplit? ['^'] text with
                    | some (left, right) => .ok (.concat left right)
                    | none => Shape.atom text

/-! Every operand is shorter than the text it was cut out of. -/

namespace Shape

/-- The total length of the operands, each argument of a call counted with the
separator before it. -/
def weight : Shape → Nat
  | leaf _ => 0
  | assign _ value => value.length
  | arithmetic _ left right => left.length + right.length
  | compare _ left right => left.length + right.length
  | concat left right => left.length + right.length
  | call _ arguments => totalLength arguments
  | builtin _ arguments => totalLength arguments
  | element _ key => key.length

theorem length_assignment? {text target value : List Char}
    (found : assignment? text = some (target, value)) : value.length < text.length := by
  simp only [assignment?, Option.map_eq_some_iff, Prod.mk.injEq] at found
  obtain ⟨⟨before, ahead⟩, cut, _, rfl⟩ := found
  obtain ⟨whole, nonempty⟩ := surfaceCut?_eq_append cut
  have positive : 0 < ahead.length := List.length_pos_iff.mpr nonempty
  simp only [← whole, List.length_append, List.length_drop]
  omega

theorem length_arithmetic? {text left right : List Char} {op : Arithmetic}
    (found : arithmetic? text = some (op, left, right)) :
    left.length + right.length < text.length := by
  unfold arithmetic? at found
  split at found
  · rename_i before c after cut
    simp only [Option.map_eq_some_iff, Prod.mk.injEq] at found
    obtain ⟨_, _, _, rfl, rfl⟩ := found
    have whole := (surfaceCut?_eq_append cut).1
    simp only [← whole, List.length_append, List.length_cons]
    omega
  · cases found

theorem length_comparison? {text left right : List Char} {op : Comparison}
    (found : comparison? text = some (op, left, right)) :
    left.length + right.length < text.length := by
  obtain ⟨tried, _, cut⟩ := List.exists_of_findSome?_eq_some found
  simp only [Option.map_eq_some_iff, Prod.mk.injEq] at cut
  obtain ⟨⟨before, after⟩, cut, _, rfl, rfl⟩ := cut
  exact surfaceSplit?_length (by cases tried <;> simp [Comparison.symbol]) cut

theorem totalLength_arguments (inside : List Char) :
    totalLength (arguments inside) ≤ inside.length + 1 := by
  unfold arguments
  split
  · exact Nat.zero_le _
  · exact Nat.le_of_eq (totalLength_surfacePieces ',' Nesting.outside inside)

theorem weight_applied? {callee : List Char} {arguments : List (List Char)} {shape : Shape}
    (found : applied? callee arguments = some shape) :
    shape.weight = totalLength arguments := by
  unfold applied? at found
  split at found
  · split at found
    · cases found
    · split at found
      · cases found; rfl
      · simp only [Option.map_eq_some_iff] at found
        obtain ⟨_, _, rfl⟩ := found
        rfl
  · split at found
    · cases found; rfl
    · cases found

theorem weight_call? {text : List Char} {shape : Shape} (found : call? text = some shape) :
    shape.weight < text.length := by
  unfold call? at found
  split at found
  · rename_i callee rest opened
    split at found
    · rename_i inside closed
      have outer := openingParen?_length opened
      have inner := congrArg List.length (closingParen?_eq_append closed)
      simp only [List.length_append, List.length_cons, List.length_nil] at inner
      rw [weight_applied? found]
      have pieces := totalLength_arguments inside
      omega
    · cases found
  · cases found

theorem weight_entry {text : List Char} {shape : Shape} (found : entry text = .ok shape)
    (nonempty : 0 < text.length) : shape.weight < text.length := by
  unfold entry at found
  split at found
  · rename_i index rest bracket
    split at found
    · cases found
    · split at found
      · cases found; exact nonempty
      · split at found
        · rename_i inside whole
          split at found
          · cases found; exact nonempty
          · cases found
            simp only [weight]
            simp only [wholeBracket?, Option.map_eq_some_iff] at whole
            obtain ⟨held, enclosed, rfl⟩ := whole
            have shorter := length_trim_le held
            have size := congrArg List.length (between?_eq_some enclosed)
            cases text with
            | nil => simp at nonempty
            | cons c tail =>
                unfold firstBracket? at bracket
                split at bracket
                · rename_i beyond same
                  simp only [Option.map_eq_some_iff, Prod.mk.injEq] at bracket
                  obtain ⟨⟨before, after⟩, cut, _, rfl⟩ := bracket
                  obtain ⟨_, _, whole⟩ := cutAt?_eq_append cut
                  simp only [List.cons.injEq] at same
                  have total := congrArg List.length (same.2.trans whole)
                  simp only [List.length_append, List.length_cons, List.length_nil] at *
                  omega
                · cases bracket
        · cases found
  · cases found

theorem weight_literal {text : List Char} {shape : Shape} (found : literal text = .ok shape) :
    shape.weight = 0 := by
  unfold literal at found
  split at found
  · cases found; rfl
  · split at found
    · cases found; rfl
    · cases found

theorem weight_atom {text : List Char} {shape : Shape} (found : atom text = .ok shape)
    (nonempty : 0 < text.length) : shape.weight < text.length := by
  unfold atom at found
  split at found
  · split at found
    · cases found; exact nonempty
    · cases found
  · split at found
    · split at found
      · cases found; exact nonempty
      · cases found
    · exact weight_entry found nonempty
    · split at found
      · cases found; exact nonempty
      · cases found
    · rw [weight_literal found]; exact nonempty

theorem weight_shape {text : List Char} {construct : Shape} (found : shape text = .ok construct) :
    construct.weight < text.length := by
  unfold shape at found
  split at found
  · cases found
  · rename_i given
    have nonempty : 0 < text.length := by
      simpa [List.length_pos_iff] using given
    split at found
    · rename_i assigned
      split at found
      · cases found; exact length_assignment? assigned
      · cases found
    · split at found
      · rename_i operated
        cases found; exact length_arithmetic? operated
      · split at found
        · rename_i compared
          cases found; exact length_comparison? compared
        · split at found
          · rename_i called
            cases found; exact weight_call? called
          · split at found
            · rename_i joined
              cases found
              exact surfaceSplit?_length (by simp) joined
            · exact weight_atom found nonempty

theorem weight_shape_trim {text : List Char} {construct : Shape}
    (found : shape (trim text) = .ok construct) : construct.weight < text.length :=
  Nat.lt_of_lt_of_le (weight_shape found) (length_trim_le text)

end Shape

namespace Phrase

mutual

/-- Reads an expression.  Of two faulty operands the left one is reported. -/
def read (text : List Char) : Except PhraseFault Phrase :=
  match _found : shape (trim text) with
  | .error fault => .error fault
  | .ok (.leaf phrase) => .ok phrase
  | .ok (.assign target value) => do
      let value ← read value
      return .assign target value
  | .ok (.arithmetic op left right) => do
      let left ← read left
      let right ← read right
      return .arithmetic op left right
  | .ok (.compare op left right) => do
      let left ← read left
      let right ← read right
      return .compare op left right
  | .ok (.concat left right) => do
      let left ← read left
      let right ← read right
      return .concat left right
  | .ok (.call callee arguments) => do
      let arguments ← readAll arguments
      return .call callee arguments
  | .ok (.builtin name arguments) => do
      let arguments ← readAll arguments
      return .builtin name arguments
  | .ok (.element index key) => do
      let key ← read key
      return .element index key
termination_by text.length
decreasing_by
  all_goals
    have bounded := Shape.weight_shape_trim _found
    simp only [Shape.weight] at bounded
    omega

def readAll (texts : List (List Char)) : Except PhraseFault (List Phrase) :=
  match texts with
  | [] => .ok []
  | text :: others => do
      let phrase ← read text
      let phrases ← readAll others
      return phrase :: phrases
termination_by totalLength texts
decreasing_by
  all_goals
    simp only [totalLength]
    omega

end

/-- Reads the condition of a block, which has to be a comparison. -/
def readClause (text : List Char) : Except PhraseFault Phrase :=
  match read text with
  | .error fault => .error fault
  | .ok (.compare op left right) => .ok (.compare op left right)
  | .ok _ => .error (.invalidClause (String.ofList (trim text)))

/-- What follows `word` at the start of a line, if a blank or `(` comes next. -/
def afterKeyword? (word line : List Char) : Option (List Char) :=
  match word.isPrefixOf? line with
  | some (c :: rest) => if isBlank c || c == '(' then some (trim (c :: rest)) else none
  | _ => none

/-- The text `x` of `(x)`, if the parentheses enclose the whole text. -/
def withoutParens (text : List Char) : List Char :=
  match text with
  | '(' :: rest =>
      match closingParen? false 0 rest with
      | some (inside, []) => inside
      | _ => text
  | _ => text

/-- Reads `(condition; increment)`, the part of `line` after its keyword. -/
def readForHeader (line header : List Char) : Except PhraseFault Phrase :=
  match (between? '(' ')' header).bind (surfaceSplit? [';']) with
  | some (condition, increment) => do
      let condition ← readClause condition
      let increment ← read increment
      return .forHeader condition increment
  | none => .error (.malformedFor (String.ofList line))

/-- Reads a whole line.  Headers and the blank line are recognised only here,
never inside an expression. -/
def readLine (line : List Char) : Except PhraseFault Phrase :=
  let line := trim line
  match afterKeyword? ['i', 'f'] line with
  | some clause => do
      let condition ← readClause (withoutParens clause)
      return .ifHeader condition
  | none =>
      match afterKeyword? ['f', 'o', 'r'] line with
      | some header => readForHeader line header
      | none => if line.isEmpty then .ok .close else read line

end Phrase

end TableScript
