import TableScript.Text.Blank

namespace TableScript.Text

/-! Cutting a text in parts: at a character, at a pattern, between two
enclosing characters.  Every cut returns the parts themselves, so that no
position has to be carried along. -/

/-- The text before and after the first character that passes `stop`. -/
def cutAt? (stop : Char → Bool) : List Char → Option (List Char × List Char)
  | [] => none
  | c :: rest =>
      if stop c then some ([], rest)
      else (cutAt? stop rest).map fun (before, after) => (c :: before, after)

/-- The text before and after the first occurrence of `pattern`. -/
def cutAtPattern? (pattern : List Char) : List Char → Option (List Char × List Char)
  | [] => (pattern.isPrefixOf? []).map fun after => ([], after)
  | c :: rest =>
      match pattern.isPrefixOf? (c :: rest) with
      | some after => some ([], after)
      | none => (cutAtPattern? pattern rest).map fun (before, after) => (c :: before, after)

def occursIn (pattern text : List Char) : Bool :=
  (cutAtPattern? pattern text).isSome

/-- Replaces the occurrences of `pattern` from left to right.  The next `skip`
characters belong to an occurrence that has been replaced already. -/
def replaceFrom (pattern replacement : List Char) : Nat → List Char → List Char
  | _, [] => []
  | skip + 1, _ :: rest => replaceFrom pattern replacement skip rest
  | 0, c :: rest =>
      if pattern.isPrefixOf (c :: rest) then
        replacement ++ replaceFrom pattern replacement (pattern.length - 1) rest
      else c :: replaceFrom pattern replacement 0 rest

/-- Replaces every occurrence of `pattern`; of two that overlap, the left one. -/
def replaceAll (pattern replacement text : List Char) : List Char :=
  replaceFrom pattern replacement 0 text

/-- The text between two characters that stand at its two ends. -/
def between? (opening closing : Char) : List Char → Option (List Char)
  | [] => none
  | c :: rest =>
      if c == opening && rest.getLast? == some closing then some rest.dropLast else none

/-- The trimmed `a` and the `rest` of `[a]rest`, the bracket closing at the first `]`. -/
def firstBracket? : List Char → Option (List Char × List Char)
  | '[' :: text => (cutAt? (· == ']') text).map fun (inside, rest) => (trim inside, rest)
  | _ => none

/-- The trimmed `a` of `[a]`, which may hold further brackets. -/
def wholeBracket? (text : List Char) : Option (List Char) :=
  (between? '[' ']' text).map trim

theorem cutAt?_eq_append {stop : Char → Bool} {text before after : List Char}
    (cut : cutAt? stop text = some (before, after)) :
    ∃ c, stop c = true ∧ text = before ++ c :: after := by
  induction text generalizing before with
  | nil => simp [cutAt?] at cut
  | cons c rest continued =>
      by_cases found : stop c = true
      · simp only [cutAt?, found, if_true, Option.some.injEq, Prod.mk.injEq] at cut
        exact ⟨c, found, by simp [← cut.1, ← cut.2]⟩
      · simp only [cutAt?, found, Bool.false_eq_true, if_false, Option.map_eq_some_iff,
          Prod.mk.injEq] at cut
        obtain ⟨⟨start, stopped⟩, earlier, rfl, rfl⟩ := cut
        obtain ⟨separator, passes, same⟩ := continued earlier
        exact ⟨separator, passes, by rw [same]; rfl⟩

theorem between?_eq_some {opening closing : Char} {text inside : List Char}
    (found : between? opening closing text = some inside) :
    text = opening :: inside ++ [closing] := by
  cases text with
  | nil => simp [between?] at found
  | cons c rest =>
      simp only [between?, Bool.and_eq_true, beq_iff_eq, Option.ite_none_right_eq_some,
        Option.some.injEq] at found
      obtain ⟨⟨rfl, last⟩, rfl⟩ := found
      obtain ⟨init, rfl⟩ := List.getLast?_eq_some_iff.mp last
      simp

theorem between?_append (opening closing : Char) (inside : List Char) :
    between? opening closing (opening :: inside ++ [closing]) = some inside := by
  simp [between?]

end TableScript.Text
