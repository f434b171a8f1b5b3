import TableScript.Proofs.Layout.Bodies

namespace TableScript

open Text

/-! Where things are found.  The outline of a layout is in the order of the lines:
each entry has the line it starts on, and a function that is open starts behind all
of them.  So does what comes out in the end, an object and its members before
whatever follows the object. -/

namespace Declaration

/-- The program itself, and the content of every object in it. -/
def ProgramIn (declarations program : List (Declaration FunctionText)) : Prop :=
  program = declarations ∨ ∃ index line, .object index line program ∈ entriesAll declarations

theorem mem_entries_self (declaration : Declaration FunctionText) :
    declaration ∈ entries declaration := by
  cases declaration <;> exact List.mem_cons_self

/-- The entries of a program are among all. -/
theorem sublist_entriesAll (declarations : List (Declaration FunctionText)) :
    declarations.Sublist (entriesAll declarations) := by
  induction declarations with
  | nil => exact .slnil
  | cons declaration others continued =>
      exact (List.singleton_sublist.mpr (mem_entries_self declaration)).append continued

mutual

/-- The members of an object follow it. -/
theorem sublist_of_mem_entries {index : String} {line : Nat}
    {members : List (Declaration FunctionText)} (declaration : Declaration FunctionText)
    (member : .object index line members ∈ entries declaration) :
    (entriesAll members).Sublist (entries declaration) := by
  cases declaration with
  | scalar _ _ _ | array _ _ _ | function _ _ _ => cases List.mem_singleton.mp member
  | object outer start others =>
      rcases List.mem_cons.mp member with same | inside
      · cases same
        exact List.sublist_cons_self _ _
      · exact (sublist_of_mem_entriesAll others inside).cons _

theorem sublist_of_mem_entriesAll {index : String} {line : Nat}
    {members : List (Declaration FunctionText)} (declarations : List (Declaration FunctionText))
    (member : .object index line members ∈ entriesAll declarations) :
    (entriesAll members).Sublist (entriesAll declarations) := by
  cases declarations with
  | nil => cases member
  | cons declaration others =>
      rcases List.mem_append.mp member with here | there
      · exact (sublist_of_mem_entries declaration here).trans (List.sublist_append_left _ _)
      · exact (sublist_of_mem_entriesAll others there).trans (List.sublist_append_right _ _)

end

theorem ProgramIn.sublist {declarations program : List (Declaration FunctionText)}
    (within : ProgramIn declarations program) :
    (entriesAll program).Sublist (entriesAll declarations) := by
  rcases within with rfl | ⟨index, line, member⟩
  · exact List.Sublist.refl _
  · exact sublist_of_mem_entriesAll declarations member

end Declaration

namespace Layout

open Declaration

/-! ### The order of the outline -/

/-- Entries, and the function that is open, are in the order of their lines, which
have been taken; and so has been the line of a fault. -/
structure Located (layout : Layout) : Prop where
  ascending : layout.outline.Pairwise fun first second => first.line < second.line
  entries : ∀ entry ∈ layout.outline,
    isIndex entry.index.toList = true ∧ 1 ≤ entry.line ∧ entry.line ≤ layout.line
  opened : ∀ opened, layout.phase = .function opened →
    (isIndex opened.index.toList = true ∧ 1 ≤ opened.line ∧ opened.line ≤ layout.line) ∧
      ∀ entry ∈ layout.outline, entry.line < opened.line
  failed : ∀ number fault, layout.phase = .failed number fault →
    1 ≤ number ∧ number ≤ layout.line

namespace Located

variable {layout : Layout}

/-- What a line adds stands behind all that was there. -/
theorem added (located : Located layout) {raw : List Char} {last : Declaration FunctionText}
    (added : Added raw { layout with line := layout.line + 1 }.bare last) :
    (isIndex last.index.toList = true ∧ 1 ≤ last.line ∧ last.line ≤ layout.line + 1) ∧
      ∀ entry ∈ layout.outline, entry.line < last.line := by
  cases added with
  | line other valid here =>
      have number : last.line = layout.line + 1 := here
      refine ⟨⟨valid, by omega, by omega⟩, fun entry member => ?_⟩
      have bound := (located.entries entry member).2.2
      omega
  | function inside brace =>
      obtain ⟨⟨valid, least, most⟩, behind⟩ :=
        located.opened _ (Phase.bare_eq_function.mp inside)
      exact ⟨⟨valid, least, Nat.le_succ_of_le most⟩, behind⟩

theorem grown (layout : Layout) (raw : List Char) :
    (layout.step raw).outline = layout.outline ∨
      ∃ last, (layout.step raw).outline = layout.outline ++ [last] ∧
        Added raw { layout with line := layout.line + 1 }.bare last :=
  (move_step layout raw).outline_eq

theorem ascending_step (located : Located layout) (raw : List Char) :
    (layout.step raw).outline.Pairwise fun first second => first.line < second.line := by
  rcases grown layout raw with same | ⟨last, same, added⟩
  · rw [same]
    exact located.ascending
  · rw [same, List.pairwise_append]
    refine ⟨located.ascending, List.pairwise_singleton _ _, fun entry member other here => ?_⟩
    cases List.mem_singleton.mp here
    exact (located.added added).2 entry member

theorem entries_step (located : Located layout) (raw : List Char) :
    ∀ entry ∈ (layout.step raw).outline,
      isIndex entry.index.toList = true ∧ 1 ≤ entry.line ∧ entry.line ≤ layout.line + 1 := by
  have earlier : ∀ entry ∈ layout.outline,
      isIndex entry.index.toList = true ∧ 1 ≤ entry.line ∧ entry.line ≤ layout.line + 1 := by
    intro entry member
    obtain ⟨valid, least, most⟩ := located.entries entry member
    exact ⟨valid, least, Nat.le_succ_of_le most⟩
  rcases grown layout raw with same | ⟨last, same, added⟩
  · rwa [same]
  · rw [same]
    exact List.forall_mem_append.mpr
      ⟨earlier, List.forall_mem_singleton.mpr (located.added added).1⟩

theorem opened_step (located : Located layout) {raw : List Char} {opened : OpenFunction}
    (inside : (layout.step raw).phase = .function opened) :
    (isIndex opened.index.toList = true ∧ 1 ≤ opened.line ∧ opened.line ≤ layout.line + 1) ∧
      ∀ entry ∈ (layout.step raw).outline, entry.line < opened.line := by
  obtain ⟨kept, _, cause⟩ :=
    (move_step layout raw).function_cases (Phase.bare_eq_function.mpr inside)
  have same : (layout.step raw).outline = layout.outline := kept
  rw [same]
  rcases cause with ⟨index, params, valid, _, rfl⟩ | ⟨earlier, within, _, rfl⟩
  · -- The header stands on the line itself, behind all that has been taken.
    refine ⟨⟨valid, Nat.succ_pos _, Nat.le_refl _⟩, fun entry member => ?_⟩
    exact Nat.lt_succ_of_le (located.entries entry member).2.2
  · obtain ⟨⟨valid, least, most⟩, behind⟩ :=
      located.opened earlier (Phase.bare_eq_function.mp within)
    rw [OpenFunction.take_index, OpenFunction.take_line]
    exact ⟨⟨valid, least, Nat.le_succ_of_le most⟩, behind⟩

theorem failed_step (located : Located layout) {raw : List Char} {number : Nat}
    {fault : LayoutFault} (failed : (layout.step raw).phase = .failed number fault) :
    1 ≤ number ∧ number ≤ layout.line + 1 := by
  rcases (move_step layout raw).failed_cases (Phase.bare_eq_failed.mpr failed) with here | before
  · have same : number = layout.line + 1 := here
    omega
  · have bounds := located.failed number fault (Phase.bare_eq_failed.mp before)
    omega

theorem step (located : Located layout) (raw : List Char) : Located (layout.step raw) := by
  have counted := line_step layout raw
  refine ⟨located.ascending_step raw, ?_, ?_, ?_⟩ <;> rw [counted]
  · exact located.entries_step raw
  · exact fun opened => located.opened_step
  · exact fun number fault => located.failed_step

end Located

theorem located_start : Located start :=
  ⟨.nil, fun _ member => absurd member List.not_mem_nil, fun _ => nofun, fun _ _ => nofun⟩

theorem located_foldl {layout : Layout} (located : Located layout) (later : List (List Char)) :
    Located (later.foldl step layout) := by
  induction later generalizing layout with
  | nil => exact located
  | cons raw later continued => exact continued (located.step raw)

/-! ### Errors -/

/-- Whatever is wrong is reported at a line that has been taken. -/
theorem Located.of_refused {layout : Layout} (located : Located layout) (begun : 1 ≤ layout.line)
    {error : Error} (refused : layout.finish.result = .error error) :
    ∃ number fault, error = .structural number fault ∧ 1 ≤ number ∧ number ≤ layout.line := by
  have objects : ∀ object ∈ layout.objects, 1 ≤ object.line ∧ object.line ≤ layout.line := by
    intro object member
    have recorded : .object object.index object.line [] ∈ layout.outline := by
      refine List.mem_append_right _ (List.mem_flatMap.mpr ⟨object, ?_, List.mem_cons_self⟩)
      exact List.mem_reverse.mpr member
    exact (located.entries _ recorded).2
  unfold finish at refused
  split at refused <;> cases refused
  · exact ⟨_, _, rfl, located.failed _ _ ‹_›⟩
  · exact ⟨_, _, rfl, (located.opened _ ‹_›).1.2⟩
  · rename_i object others innermost _ _
    exact ⟨_, _, rfl, objects object (by rw [innermost]; exact List.mem_cons_self)⟩
  · exact ⟨_, _, rfl, begun, Nat.le_refl _⟩

/-! ### What comes out -/

/-- A program that is in order: its entries follow each other, with all that is nested
in one before the next, and its functions are taken from the lines of the text. -/
structure WellPlaced (lines : List (List Char)) (program : List (Declaration FunctionText)) :
    Prop where
  indexed : ∀ entry ∈ program, isIndex entry.index.toList = true
  ascending : program.Pairwise fun first second => first.line < second.line
  within : ∀ entry ∈ program, 1 ≤ entry.line ∧ entry.line ≤ lines.length
  nested : ∀ before index line members after,
    program = before ++ .object index line members :: after →
      ∀ entry ∈ entriesAll members, line < entry.line ∧ ∀ next ∈ after, entry.line < next.line
  functions : ∀ index line text, .function index line text ∈ program →
    text.line = line ∧ (∀ param ∈ text.params, isIndex param.toList = true) ∧
      (∀ body ∈ text.lines, trim body.toList = body.toList) ∧
      ∃ before header inside after,
        lines = before ++ header :: (inside ++ ['\x7d'] :: after) ∧ line = before.length + 1 ∧
          ['\x7d'] ∉ inside ∧ text.lines.count "" = (uncommented false inside).count []

/-- The order of all entries is the order of every program among them. -/
theorem nested_of_ascending {before after members : List (Declaration FunctionText)}
    {index : String} {line : Nat}
    (ascending : (entriesAll (before ++ .object index line members :: after)).Pairwise
      fun first second => first.line < second.line) :
    ∀ entry ∈ entriesAll members, line < entry.line ∧ ∀ next ∈ after, entry.line < next.line := by
  have whole : entriesAll (before ++ .object index line members :: after) =
      entriesAll before ++ (.object index line members :: entriesAll members ++
        entriesAll after) := by
    rw [entriesAll_append, entriesAll, entries]
  rw [whole, List.pairwise_append, List.pairwise_append, List.pairwise_cons] at ascending
  obtain ⟨_, ⟨⟨behind, _⟩, _, apart⟩, _⟩ := ascending
  intro entry member
  refine ⟨behind entry member, fun next follows => ?_⟩
  exact apart entry (List.mem_cons_of_mem _ member) next ((sublist_entriesAll after).subset follows)

theorem trimmed_lines (source : List Char) : ∀ raw ∈ lines source, Trimmed raw :=
  List.forall_mem_map.mpr fun raw _ => trimmed_trim raw

/-- Of trimmed lines a function has trimmed lines, and as many blank ones as there are
outside its comments. -/
theorem Transcribed.blank_lines {lines : List (List Char)} {text : FunctionText}
    (transcribed : Transcribed lines text) (trimmed : ∀ raw ∈ lines, Trimmed raw) :
    (∀ body ∈ text.lines, trim body.toList = body.toList) ∧
      ∃ before header inside after,
        lines = before ++ header :: (inside ++ ['\x7d'] :: after) ∧
          text.line = before.length + 1 ∧ ['\x7d'] ∉ inside ∧
          text.lines.count "" = (uncommented false inside).count [] := by
  obtain ⟨before, header, inside, after, constants, rfl, number, unclosed, sound, written⟩ :=
    transcribed
  have trimmedInside : ∀ raw ∈ inside, Trimmed raw := fun raw member =>
    trimmed raw (by simp [member])
  rw [written]
  refine ⟨fun body member => ?_, before, header, inside, after, rfl, number, unclosed, ?_⟩
  · exact trim_eq_self (trimmed_transcript sound trimmedInside false body member)
  · exact count_blank_transcript sound trimmedInside false

section

variable (source : List Char)

theorem line_read : ((lines source).foldl step start).line = (lines source).length :=
  (line_foldl start (lines source)).trans (Nat.zero_add _)

theorem located_read : Located ((lines source).foldl step start) :=
  located_foldl located_start (lines source)

theorem faithful_read : Faithful (lines source) ((lines source).foldl step start) :=
  faithful_foldl faithful_start rfl (lines source)

end

theorem wellPlaced_of_read {source : List Char} {declarations : List (Declaration FunctionText)}
    (accepted : (read source).result = .ok declarations)
    {program : List (Declaration FunctionText)} (within : ProgramIn declarations program) :
    WellPlaced (lines source) program := by
  have all : ((lines source).foldl step start).outline = (entriesAll declarations).map shallow :=
    outline_finish accepted
  have ascending : (entriesAll declarations).Pairwise
      fun first second => first.line < second.line := by
    have order := (located_read source).ascending
    rw [all, List.pairwise_map] at order
    simpa only [shallow_line] using order
  have recorded : ∀ entry ∈ program,
      entry.shallow ∈ ((lines source).foldl step start).outline := by
    intro entry member
    rw [all]
    exact List.mem_map_of_mem (within.sublist.subset ((sublist_entriesAll program).subset member))
  refine ⟨?_, ?_, ?_, ?_, ?_⟩
  · intro entry member
    simpa only [shallow_index] using ((located_read source).entries _ (recorded entry member)).1
  · exact ascending.sublist ((sublist_entriesAll program).trans within.sublist)
  · intro entry member
    have bounds := ((located_read source).entries _ (recorded entry member)).2
    rwa [shallow_line, line_read] at bounds
  · rintro before index line members after rfl
    exact nested_of_ascending (ascending.sublist within.sublist)
  · intro index line text member
    obtain ⟨rfl, valid, transcribed⟩ :=
      (faithful_read source).functions index line text (recorded _ member)
    exact ⟨rfl, valid, transcribed.blank_lines (trimmed_lines source)⟩

/-- The reader finds things where they are.  An error names a line of the text; in what
is accepted, entries have valid names and follow each other through the lines at every
depth, and functions keep the blank lines of their bodies, because constants make no
line blank and none untrimmed. -/
theorem layout_located (source : List Char) :
    (∀ error, (read source).result = .error error → ∃ number fault,
      error = .structural number fault ∧ 1 ≤ number ∧ number ≤ (source.splitOn '\n').length) ∧
    (∀ declarations, (read source).result = .ok declarations →
      ∀ program, ProgramIn declarations program → WellPlaced (lines source) program) ∧
    ∀ count line, Trimmed line →
      Trimmed (substitute (reached source count).constants line) ∧
        (substitute (reached source count).constants line = [] ↔ line = []) := by
  have length : (lines source).length = (source.splitOn '\n').length := List.length_map _
  refine ⟨fun error refused => ?_, fun _ accepted _ => wellPlaced_of_read accepted, ?_⟩
  · have begun : 1 ≤ ((lines source).foldl step start).line := by
      rw [line_read, length]
      exact List.length_pos_iff.mpr (List.splitOn_ne_nil '\n' source)
    rw [← length, ← line_read]
    exact (located_read source).of_refused begun refused
  · intro count line trimmed
    have sound := (faithful_foldl faithful_start rfl ((lines source).take count)).constants
    exact ⟨trimmed_substitute sound trimmed, substitute_eq_nil_iff sound⟩

/-- A constant, an object, and in it a function with two blank lines, one of them in a
comment. -/
def placedProgram : List Char :=
  "def K x y\n[\no => [\nf => (a) \x7b\n\n K \n~~~\n\n~~~\n'b' // c\n\x7d\n]\nk => 'v'\n]".toList

theorem layout_located_nested :
    (read placedProgram).result = .ok
        [.object "o" 3 [.function "f" 4 ⟨["a"], ["", "x y", "'b'"], 4⟩], .scalar "k" 13 "v"] ∧
      WellPlaced (lines placedProgram) [.function "f" 4 ⟨["a"], ["", "x y", "'b'"], 4⟩] ∧
      Trimmed (substitute (reached placedProgram 4).constants ['K']) ∧
      ∃ number fault, (read "[\nk => [\n".toList).result = .error (.structural number fault) ∧
        1 ≤ number ∧ number ≤ 3 := by
  have accepted : (read placedProgram).result = .ok
      [.object "o" 3 [.function "f" 4 ⟨["a"], ["", "x y", "'b'"], 4⟩], .scalar "k" 13 "v"] := rfl
  have refused : (read "[\nk => [\n".toList).result =
      .error (.structural 2 (.openObject "k")) := rfl
  obtain ⟨_, placed, constant⟩ := layout_located placedProgram
  obtain ⟨number, fault, same, bounds⟩ := (layout_located "[\nk => [\n".toList).1 _ refused
  refine ⟨accepted, placed _ accepted _ (.inr ⟨"o", 3, List.mem_cons_self⟩),
    (constant 4 ['K'] (trimmed_singleton (by decide))).1, number, fault, ?_, bounds⟩
  rw [refused, same]

end Layout

end TableScript
