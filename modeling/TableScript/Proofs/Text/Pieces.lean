import TableScript.Proofs.Text.Surface

namespace TableScript.Text

/-! Pieces.  A text falls into pieces at the separators on its surface: nothing is lost,
every separator counts, and no piece falls apart again. -/

theorem exists_surfacePieces (separator : Char) (nesting : Nesting) (text : List Char) :
    ∃ piece others, surfacePieces separator nesting text = piece :: others := by
  cases text with
  | nil => exact ⟨[], [], rfl⟩
  | cons c rest =>
      simp only [surfacePieces]
      split
      · exact ⟨_, _, rfl⟩
      · split <;> exact ⟨_, _, rfl⟩

section

variable {separator c : Char} {nesting : Nesting} {rest : List Char}

/-- A separator on the surface ends a piece. -/
theorem surfacePieces_separator (separated : (nesting.surfaces c && c == separator) = true) :
    surfacePieces separator nesting (c :: rest) =
      [] :: surfacePieces separator (nesting.step c) rest := by
  rw [surfacePieces, if_pos separated]

/-- Any other character belongs to the piece that follows. -/
theorem surfacePieces_inside {piece : List Char} {others : List (List Char)}
    (inside : ¬ (nesting.surfaces c && c == separator) = true)
    (later : surfacePieces separator (nesting.step c) rest = piece :: others) :
    surfacePieces separator nesting (c :: rest) = (c :: piece) :: others := by
  simp only [surfacePieces, if_neg inside, later]

end

theorem intercalate_surfacePieces (separator : Char) (nesting : Nesting) (text : List Char) :
    [separator].intercalate (surfacePieces separator nesting text) = text := by
  induction text generalizing nesting with
  | nil => rfl
  | cons c rest continued =>
      obtain ⟨piece, others, later⟩ := exists_surfacePieces separator (nesting.step c) rest
      have joined := continued (nesting.step c)
      rw [later] at joined
      by_cases separated : (nesting.surfaces c && c == separator) = true
      · have same : c = separator := beq_iff_eq.mp (Bool.and_eq_true_iff.mp separated).2
        rw [surfacePieces_separator separated, later, List.intercalate_cons_cons, joined, same]
        rfl
      · rw [surfacePieces_inside separated later, List.intercalate_cons_cons_left, joined]

/-- The first piece stays whole when the walk comes to it as it came to the text, and
the others when it starts anew. -/
theorem surfacePieces_pieces {separator : Char} {nesting : Nesting} {text first : List Char}
    {others : List (List Char)}
    (pieces : surfacePieces separator nesting text = first :: others) :
    surfacePieces separator nesting first = [first] ∧
      ∀ piece ∈ others, surfacePieces separator .outside piece = [piece] := by
  induction text generalizing nesting first others with
  | nil =>
      cases pieces
      exact ⟨rfl, List.forall_mem_nil _⟩
  | cons c rest continued =>
      obtain ⟨piece, after, later⟩ := exists_surfacePieces separator (nesting.step c) rest
      obtain ⟨whole, wholes⟩ := continued later
      by_cases separated : (nesting.surfaces c && c == separator) = true
      · rw [surfacePieces_separator separated, later] at pieces
        cases pieces
        -- The walk is outside everything, and the separator leaves it there.
        obtain ⟨rfl, plain⟩ := Nesting.surfaces_iff.mp (Bool.and_eq_true_iff.mp separated).1
        rw [Nesting.step_of_plain plain] at whole
        exact ⟨rfl, List.forall_mem_cons.mpr ⟨whole, wholes⟩⟩
      · rw [surfacePieces_inside separated later] at pieces
        cases pieces
        exact ⟨surfacePieces_inside separated whole, wholes⟩

/-- The number of separators that the walk meets outside quotes and brackets, when it
comes to a text with `nesting`. -/
def separatorCount (separator : Char) (nesting : Nesting) (text : List Char) : Nat :=
  (List.range text.length).countP fun position =>
    (nesting.after (text.take position)).isOutside && text[position]? == some separator

theorem separatorCount_cons (separator : Char) (nesting : Nesting) (c : Char) (rest : List Char) :
    separatorCount separator nesting (c :: rest) =
      separatorCount separator (nesting.step c) rest +
        if nesting.isOutside && c == separator then 1 else 0 := by
  rw [separatorCount, List.length_cons, List.range_succ_eq_map, List.countP_cons, List.countP_map]
  rfl

/-- One piece more than separators. -/
theorem length_surfacePieces {separator : Char} (plain : isDelimiter separator = false)
    (nesting : Nesting) (text : List Char) :
    (surfacePieces separator nesting text).length =
      separatorCount separator nesting text + 1 := by
  induction text generalizing nesting with
  | nil => rfl
  | cons c rest continued =>
      have shown : (nesting.isOutside && c == separator) =
          (nesting.surfaces c && c == separator) := by
        by_cases same : c = separator
        · rw [Nesting.surfaces, same, plain, Bool.not_false, Bool.and_true]
        · rw [beq_eq_false_iff_ne.mpr same, Bool.and_false, Bool.and_false]
      have later := continued (nesting.step c)
      rw [separatorCount_cons, shown]
      by_cases separated : (nesting.surfaces c && c == separator) = true
      · rw [surfacePieces_separator separated, List.length_cons, later, if_pos separated]
      · obtain ⟨piece, others, split⟩ := exists_surfacePieces separator (nesting.step c) rest
        rw [split, List.length_cons] at later
        rw [surfacePieces_inside separated split, List.length_cons, later, if_neg separated]

/-- What a text falls into at a separator. -/
structure Separated (separator : Char) (text : List Char) (pieces : List (List Char)) : Prop where
  given : pieces ≠ []
  joined : [separator].intercalate pieces = text
  counted : pieces.length = separatorCount separator .outside text + 1
  whole : ∀ piece ∈ pieces, surfacePieces separator .outside piece = [piece]

theorem separated_surfacePieces {separator : Char} (plain : isDelimiter separator = false)
    (text : List Char) : Separated separator text (surfacePieces separator .outside text) := by
  obtain ⟨first, others, pieces⟩ := exists_surfacePieces separator .outside text
  refine ⟨?_, intercalate_surfacePieces separator .outside text,
    length_surfacePieces plain .outside text, ?_⟩
  · rw [pieces]
    exact List.cons_ne_nil first others
  · rw [pieces, List.forall_mem_cons]
    exact surfacePieces_pieces pieces

theorem infix_of_mem_intercalate (separator : List Char) {piece : List Char}
    {pieces : List (List Char)} (member : piece ∈ pieces) :
    piece <:+: separator.intercalate pieces := by
  induction pieces with
  | nil => cases member
  | cons first others continued =>
      cases others with
      | nil => simp [List.mem_singleton.mp member]
      | cons next later =>
          rw [List.intercalate_cons_cons]
          rcases List.mem_cons.mp member with rfl | member
          · rw [List.append_assoc]
            exact (List.prefix_append _ _).isInfix
          · exact (continued member).trans (List.suffix_append _ _).isInfix

/-- Every piece stands somewhere in the text. -/
theorem infix_of_mem_surfacePieces {separator : Char} {nesting : Nesting} {text piece : List Char}
    (member : piece ∈ surfacePieces separator nesting text) : piece <:+: text := by
  have within := infix_of_mem_intercalate [separator] member
  rwa [intercalate_surfacePieces] at within

end TableScript.Text
