import TableScript.Proofs.Layout.Moves

namespace TableScript.Layout

open Text

/-! The end of a program.  The bracket that closes the program is met outside functions
and comments and with no object open, so nothing is missing if it is left away; and once
it is met, no line changes anything any more. -/

/-- The line after `count` others is the bracket that closes the program. -/
def ClosedBy (source : List Char) (count : Nat) : Prop :=
  (∀ trailing, (reached source count).phase ≠ .closed trailing) ∧
    ∃ trailing, (reached source (count + 1)).phase = .closed trailing

/-- The text up to the end of a line, without the line feed there. -/
def firstLines (source : List Char) (count : Nat) : List Char :=
  ['\n'].intercalate ((source.splitOn '\n').take count)

/-! ### Lines of a shortened text -/

theorem lines_append (first second : List Char) :
    lines (first ++ '\n' :: second) = lines first ++ lines second := by
  simp only [lines, List.splitOn_append_cons_self, List.map_append]

theorem lines_firstLines (source : List Char) {count : Nat} (some : count ≠ 0) :
    lines (firstLines source count) = (lines source).take count := by
  have separate : ∀ line ∈ (source.splitOn '\n').take count, '\n' ∉ line :=
    fun line member => feed_not_mem_of_splitOn (List.mem_of_mem_take member)
  have given : (source.splitOn '\n').take count ≠ [] := by
    rw [Ne, List.take_eq_nil_iff, not_or]
    exact ⟨some, List.splitOn_ne_nil '\n' source⟩
  rw [lines, firstLines, List.splitOn_intercalate '\n' separate given, List.map_take, lines]

theorem read_firstLines (source : List Char) {count : Nat} (some : count ≠ 0) :
    read (firstLines source count) = (reached source count).finish := by
  rw [read, lines_firstLines source some, reached]

/-- After the lines that are kept, the reader goes on with those that follow. -/
theorem read_firstLines_append (source : List Char) {count : Nat} (some : count ≠ 0)
    (rest : List Char) :
    read (firstLines source count ++ '\n' :: rest) =
      ((lines rest).foldl step (reached source count)).finish := by
  rw [read, lines_append, lines_firstLines source some, List.foldl_append, reached]

theorem read_eq_foldl_reached (source : List Char) (count : Nat) :
    read source = (((lines source).drop count).foldl step (reached source count)).finish := by
  rw [read, reached, ← List.foldl_append, List.take_append_drop]

/-! ### The closing bracket -/

/-- A program is closed by a line of its body, while no object is open, or has been
closed before. -/
theorem Move.closed_cases {raw : List Char} {layout after : Layout} (move : Move raw layout after)
    {trailing : Nat} (closed : after.phase = .closed trailing) :
    layout.phase = .closed trailing ∨
      layout.phase = .body ∧ layout.objects = [] ∧
        after = { layout with phase := .closed 0 } := by
  cases move with
  | pass | mark | define | openObject => exact .inl closed
  | closeObject inBody innermost | scalar inBody valid | array inBody valid =>
      rw [insert_phase] at closed
      exact .inl closed
  | closeFunction inside brace =>
      rw [insert_phase] at closed
      cases closed
  | begin | openFunction | take | fail => cases closed
  | close inBody nothingOpen => exact .inr ⟨inBody, nothingOpen, rfl⟩

theorem bare_eq_closed {phase : Phase} :
    phase.bare = .closed 0 ↔ ∃ trailing, phase = .closed trailing := by
  cases phase <;> simp [Phase.bare]

theorem bare_eq_body {phase : Phase} : phase.bare = .body ↔ phase = .body := by
  cases phase <;> simp [Phase.bare]

theorem closed_by_step {layout : Layout} {raw : List Char}
    (unclosed : ∀ trailing, layout.phase ≠ .closed trailing)
    (closed : ∃ trailing, (layout.step raw).phase = .closed trailing) :
    layout.phase = .body ∧ layout.objects = [] ∧ (layout.step raw).objects = [] ∧
      (layout.step raw).members = layout.members := by
  have bared : (layout.step raw).bare.phase = .closed 0 := bare_eq_closed.mpr closed
  rcases (move_step layout raw).closed_cases bared with before | ⟨inBody, nothingOpen, same⟩
  · obtain ⟨trailing, before⟩ := bare_eq_closed.mp before
    exact absurd before (unclosed trailing)
  · have objects := congrArg Layout.objects same
    have members := congrArg Layout.members same
    exact ⟨bare_eq_body.mp inBody, nothingOpen, objects.trans nothingOpen, members⟩

/-- After the closing bracket every line is passed over. -/
theorem result_foldl_closed {layout : Layout} {trailing : Nat}
    (closed : layout.phase = .closed trailing) (nothingOpen : layout.objects = [])
    (later : List (List Char)) :
    (later.foldl step layout).finish.result = .ok layout.members := by
  induction later generalizing layout trailing with
  | nil =>
      simp only [List.foldl_nil, finish, closed, nothingOpen]
      cases trailing <;> rfl
  | cons raw later continued =>
      obtain ⟨line, constants, commented, phase, objects, members, journal⟩ := layout
      cases closed
      rw [List.foldl_cons]
      simp only [step]
      split <;> exact continued rfl nothingOpen

/-- A program whose closing bracket is missing is complete where it could stand. -/
theorem result_finish_body {layout : Layout} (inBody : layout.phase = .body)
    (nothingOpen : layout.objects = []) : layout.finish.result = .ok layout.members := by
  simp only [finish, inBody, nothingOpen]

theorem step_blank {layout : Layout} (inBody : layout.phase = .body) :
    layout.step [] = { layout with line := layout.line + 1 } := by
  obtain ⟨line, constants, commented, phase, objects, members, journal⟩ := layout
  cases inBody
  cases commented <;> rfl

theorem ClosedBy.cases {source : List Char} {count : Nat} (closes : ClosedBy source count) :
    count ≠ 0 ∧ (reached source count).phase = .body ∧ (reached source count).objects = [] ∧
      (reached source (count + 1)).objects = [] ∧
      (reached source (count + 1)).members = (reached source count).members := by
  obtain ⟨unclosed, closed⟩ := closes
  cases here : (lines source)[count]? with
  | none =>
      -- Without a line there is no step that could close anything.
      obtain ⟨trailing, closed⟩ := closed
      rw [reached, List.take_add_one, here, Option.toList_none, List.append_nil] at closed
      exact absurd closed (unclosed trailing)
  | some line =>
      rw [reached_succ here] at closed ⊢
      obtain ⟨inBody, rest⟩ := closed_by_step unclosed closed
      refine ⟨?_, inBody, rest⟩
      rintro rfl
      cases inBody

/-- Only the text before the closing bracket of a program counts.  The bracket may be left
away with all that follows it, and whatever follows it may be replaced by any text; the
program is read, and it is the same. -/
theorem text_after_end_ignored {source : List Char} {count : Nat}
    (closes : ClosedBy source count) :
    ∃ declarations, (read source).result = .ok declarations ∧
      (read (firstLines source count)).result = .ok declarations ∧
      (read (firstLines source count ++ ['\n'])).result = .ok declarations ∧
      (read (firstLines source (count + 1))).result = .ok declarations ∧
      ∀ rest, (read (firstLines source (count + 1) ++ '\n' :: rest)).result = .ok declarations := by
  obtain ⟨positive, inBody, nothingOpen, stillNothing, same⟩ := closes.cases
  obtain ⟨_, trailing, closed⟩ := closes
  have ended := result_foldl_closed closed stillNothing
  rw [same] at ended
  refine ⟨(reached source count).members, ?_, ?_, ?_, ?_, fun rest => ?_⟩
  · rw [read_eq_foldl_reached source (count + 1), ended]
  · rw [read_firstLines source positive, result_finish_body inBody nothingOpen]
  · have blank : lines [] = [[]] := rfl
    rw [read_firstLines_append source positive, blank, List.foldl_cons, step_blank inBody]
    exact result_finish_body inBody nothingOpen
  · rw [read_firstLines source count.succ_ne_zero]
    exact ended []
  · rw [read_firstLines_append source count.succ_ne_zero, ended]

/-- A constant stands for the bracket, and a function, a comment and a late constant are
opened after it. -/
theorem text_after_end_ignored_constant :
    ClosedBy "def END ]\n[\n0 => 'a'\nEND // over\n]".toList 3 ∧
      (read "def END ]\n[\n0 => 'a'".toList).result = .ok [.scalar "0" 3 "a"] ∧
      (read (firstLines "def END ]\n[\n0 => 'a'\nEND // over\n]".toList 4 ++
        '\n' :: "1 => () \x7b\n~~~\ndef A 1\n[".toList)).result = .ok [.scalar "0" 3 "a"] := by
  have closes : ClosedBy "def END ]\n[\n0 => 'a'\nEND // over\n]".toList 3 :=
    ⟨fun _ => nofun, 0, rfl⟩
  have laid : (read "def END ]\n[\n0 => 'a'".toList).result = .ok [.scalar "0" 3 "a"] := rfl
  have cut : firstLines "def END ]\n[\n0 => 'a'\nEND // over\n]".toList 3 =
      "def END ]\n[\n0 => 'a'".toList := by decide
  obtain ⟨declarations, _, shortened, _, _, replaced⟩ := text_after_end_ignored closes
  rw [cut, laid] at shortened
  cases shortened
  exact ⟨closes, laid, replaced _⟩

end TableScript.Layout
