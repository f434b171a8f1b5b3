import TableScript.Layout

namespace TableScript

open Text

/-! Texts that differ in one line.  What the reader notes, and how many lines it
passes over once the program is closed, decides nothing; so two texts are read
with the same result if the reader takes the same step on the lines in which
they differ, up to what decides nothing. -/

namespace Phase

def bare : Phase → Phase
  | closed _ => closed 0
  | phase => phase

@[simp] theorem bare_bare (phase : Phase) : phase.bare.bare = phase.bare := by
  cases phase <;> rfl

end Phase

namespace Layout

/-- A layout without what has no influence on the result. -/
def bare (layout : Layout) : Layout :=
  { layout with phase := layout.phase.bare, journal := #[] }

theorem result_finish (layout : Layout) : layout.finish.result = layout.bare.finish.result := by
  obtain ⟨line, constants, commented, phase, objects, members, journal⟩ := layout
  cases phase with
  | preamble | body | function opened | failed number fault => cases objects <;> rfl
  | closed trailing => cases objects <;> cases trailing <;> rfl

/-! ### One step -/

section

variable (layout : Layout)

theorem bare_add (declaration : Declaration FunctionText) :
    (layout.add declaration).bare = (layout.bare.add declaration).bare := by
  have siblings : layout.bare.siblings = layout.siblings := rfl
  unfold add
  rw [siblings]
  obtain ⟨line, constants, commented, phase, objects, members, journal⟩ := layout
  split <;> cases objects <;> simp [bare, note]

/-- A declaration that comes with a note. -/
theorem bare_note_add (event : Event) (declaration : Declaration FunctionText) :
    ((layout.note event).add declaration).bare =
      ((layout.bare.note event).add declaration).bare := by
  have same : (layout.note event).bare = (layout.bare.note event).bare := by simp [bare, note]
  rw [bare_add, same, ← bare_add]

theorem bare_define (line : List Char) :
    (layout.define line).bare = (layout.bare.define line).bare := by
  unfold define
  cases constant? line with
  | none => rfl
  | some constant => simp [bare, note]

theorem bare_startLine (line : List Char) :
    (layout.startLine line).bare = (layout.bare.startLine line).bare := by
  unfold startLine
  split
  · rfl
  · split <;> rfl

theorem bare_openObject (index : List Char) :
    (layout.openObject index).bare = (layout.bare.openObject index).bare := by
  unfold openObject
  cases readIndex index with
  | error fault => rfl
  | ok index => simp [bare, note]

theorem bare_closeBracket : layout.closeBracket.bare = layout.bare.closeBracket.bare := by
  obtain ⟨line, constants, commented, phase, objects, members, journal⟩ := layout
  cases objects with
  | nil => rfl
  | cons object outer => exact bare_note_add _ _ _

theorem bare_openFunction (line : List Char) :
    (layout.openFunction line).bare = (layout.bare.openFunction line).bare := by
  unfold openFunction
  cases readSides line with
  | error fault => rfl
  | ok sides =>
      simp only
      cases params? sides.2 <;> rfl

theorem bare_addEntry (line : List Char) :
    (layout.addEntry line).bare = (layout.bare.addEntry line).bare := by
  unfold addEntry
  cases readSides line with
  | error fault => rfl
  | ok sides =>
      simp only
      split
      · rfl
      · cases items? sides.2 <;> exact bare_note_add _ _ _

theorem bare_bodyLine (line : List Char) :
    (layout.bodyLine line).bare = (layout.bare.bodyLine line).bare := by
  unfold bodyLine
  cases objectStart? line with
  | some index => exact bare_openObject layout index
  | none =>
      simp only
      split
      · exact bare_closeBracket layout
      · split
        · rfl
        · split
          · exact bare_openFunction layout line
          · exact bare_addEntry layout line

theorem bare_functionLine (opened : OpenFunction) (raw : List Char) :
    (layout.functionLine opened raw).bare = (layout.bare.functionLine opened raw).bare := by
  unfold functionLine
  split
  · exact bare_note_add _ _ _
  · split
    · rfl
    · split
      · simp [bare]
      · rfl

theorem bare_plainLine (raw : List Char) {take : Layout → List Char → Layout}
    (taken : ∀ line, (take layout line).bare = (take layout.bare line).bare) :
    (layout.plainLine raw take).bare = (layout.bare.plainLine raw take).bare := by
  have commented : layout.bare.commented = layout.commented := rfl
  unfold plainLine
  rw [commented]
  split
  · simp [bare]
  · split
    · simp [bare]
    · exact taken _

theorem bare_step (raw : List Char) :
    (layout.step raw).bare = (layout.bare.step raw).bare := by
  obtain ⟨line, constants, commented, phase, objects, members, journal⟩ := layout
  cases phase with
  | preamble =>
      refine bare_plainLine _ raw fun line => ?_
      split
      · exact bare_define _ line
      · exact bare_startLine _ _
  | body =>
      refine bare_plainLine _ raw fun line => ?_
      split
      · rfl
      · exact bare_bodyLine _ _
  | function opened => exact bare_functionLine _ opened raw
  | closed trailing =>
      simp only [step, bare, Phase.bare]
      split <;> rfl
  | failed number fault => rfl

end

/-- Taking the same lines, layouts that differ in nothing that counts stay so. -/
theorem bare_foldl {first second : Layout} (same : first.bare = second.bare)
    (lines : List (List Char)) :
    (lines.foldl step first).bare = (lines.foldl step second).bare := by
  induction lines generalizing first second with
  | nil => exact same
  | cons raw later continued =>
      apply continued
      rw [bare_step, same, ← bare_step]

/-! ### Replacing a line -/

/-- The text with another line in the place of the one after `count` lines. -/
def replaceLine (source : List Char) (count : Nat) (other : List Char) : List Char :=
  ['\n'].intercalate ((source.splitOn '\n').set count other)

/-- The reader after so many lines of a text. -/
def reached (source : List Char) (count : Nat) : Layout :=
  ((lines source).take count).foldl step start

theorem reached_succ {source line : List Char} {count : Nat}
    (here : (lines source)[count]? = some line) :
    reached source (count + 1) = (reached source count).step line := by
  rw [reached, List.take_add_one, here, Option.toList_some, List.foldl_append]
  rfl

theorem feed_not_mem_of_splitOn {source line : List Char} (member : line ∈ source.splitOn '\n') :
    '\n' ∉ line := by
  induction source generalizing line with
  | nil =>
      cases List.mem_singleton.mp member
      simp
  | cons c rest continued =>
      rw [List.splitOn_cons_eq_if_modifyHead] at member
      by_cases feed : (c == '\n') = true
      · rw [if_pos feed, List.mem_cons] at member
        rcases member with rfl | later
        · simp
        · exact continued later
      · rw [if_neg feed] at member
        obtain ⟨first, others, split⟩ := List.exists_cons_of_ne_nil (List.splitOn_ne_nil '\n' rest)
        rw [split] at continued member
        rcases List.mem_cons.mp member with rfl | later
        · have here := continued List.mem_cons_self
          rw [List.mem_cons, not_or]
          exact ⟨fun same => feed (beq_iff_eq.mpr same.symm), here⟩
        · exact continued (List.mem_cons_of_mem first later)

theorem lines_replaceLine (source : List Char) (count : Nat) {other : List Char}
    (single : '\n' ∉ other) :
    lines (replaceLine source count other) = (lines source).set count (trim other) := by
  have separate : ∀ line ∈ (source.splitOn '\n').set count other, '\n' ∉ line := by
    intro line member
    rcases List.mem_or_eq_of_mem_set member with kept | rfl
    · exact feed_not_mem_of_splitOn kept
    · exact single
  have given : (source.splitOn '\n').set count other ≠ [] := by simp
  rw [lines, replaceLine, List.splitOn_intercalate '\n' separate given, List.map_set, lines]

theorem result_read {source line : List Char} {before after : List (List Char)}
    (whole : lines source = before ++ line :: after) :
    (read source).result =
      (after.foldl step ((before.foldl step start).step line)).bare.finish.result := by
  rw [read, whole, List.foldl_append, List.foldl_cons, result_finish]

/-- A line may be replaced by one on which the reader takes the same step. -/
theorem result_replaceLine {source : List Char} {count : Nat} {line other : List Char}
    (here : (lines source)[count]? = some line) (single : '\n' ∉ other)
    (same : ((reached source count).step (trim other)).bare =
      ((reached source count).step line).bare) :
    (read (replaceLine source count other)).result = (read source).result := by
  obtain ⟨within, found⟩ := List.getElem?_eq_some_iff.mp here
  have whole : lines source =
      (lines source).take count ++ line :: (lines source).drop (count + 1) := by
    rw [← found, List.getElem_cons_drop, List.take_append_drop]
  have replaced : lines (replaceLine source count other) =
      (lines source).take count ++ trim other :: (lines source).drop (count + 1) := by
    rw [lines_replaceLine source count single, List.set_eq_take_append_cons_drop, if_pos within]
  have agree := bare_foldl same ((lines source).drop (count + 1))
  rw [result_read replaced, result_read whole]
  exact congrArg (fun layout => layout.finish.result) agree

end Layout

end TableScript
