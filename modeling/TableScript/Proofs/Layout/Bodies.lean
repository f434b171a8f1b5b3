import TableScript.Proofs.Layout.Outline

namespace TableScript

open Text

/-! The bodies of functions.  A function ends at the first line behind its header
that is a closing brace.  Of the lines in between it has those outside block comments
that are no comments as a whole, with constants replaced; this leaves trimmed lines
trimmed and blank lines, and no others, blank. -/

/-! ### Constants in a line -/

/-- A constant that can be put into a line. -/
structure Constant.Sound (constant : Constant) : Prop where
  given : constant.value ≠ []
  trimmed : Trimmed constant.value

namespace Layout

theorem sound_of_constant? {line : List Char} {constant : Constant}
    (defined : constant? line = some constant) : constant.Sound := by
  unfold constant? at defined
  split at defined
  · rename_i name value _
    split at defined
    · cases defined
    · rename_i given
      cases defined
      simp only [Bool.or_eq_true, List.isEmpty_iff, not_or] at given
      exact ⟨given.2, trimmed_trim value⟩
  · cases defined

theorem sound_predefined : ∀ constant ∈ predefined, constant.Sound :=
  List.forall_mem_singleton.mpr ⟨by decide, trimmed_enclosed ['6'] (by decide)⟩

section

variable {constants : List Constant} {line : List Char}

/-- At most one constant is replaced. -/
theorem substitute_cases (constants : List Constant) (line : List Char) :
    substitute constants line = line ∨
      ∃ constant ∈ constants,
        substitute constants line = replaceAll constant.name constant.value line := by
  unfold substitute
  split
  · rename_i constant found
    exact .inr ⟨constant, List.mem_of_find?_eq_some found, rfl⟩
  · exact .inl rfl

theorem trimmed_substitute (sound : ∀ constant ∈ constants, constant.Sound)
    (trimmed : Trimmed line) : Trimmed (substitute constants line) := by
  rcases substitute_cases constants line with same | ⟨constant, member, same⟩
  · rwa [same]
  · rw [same]
    exact trimmed_replaceAll (sound constant member).given (sound constant member).trimmed trimmed

theorem substitute_eq_nil_iff (sound : ∀ constant ∈ constants, constant.Sound) :
    substitute constants line = [] ↔ line = [] := by
  rcases substitute_cases constants line with same | ⟨constant, member, same⟩
  · rw [same]
  · rw [same, replaceAll_eq_nil_iff (sound constant member).given]

end

/-! ### The lines of a function -/

/-- The lines outside block comments, without the marks. -/
def uncommented : Bool → List (List Char) → List (List Char)
  | _, [] => []
  | commented, raw :: later =>
      if isCommentMark raw then uncommented (!commented) later
      else if commented then uncommented commented later
      else raw :: uncommented commented later

/-- What a function has of the lines between its header and its brace. -/
def transcript (constants : List Constant) (commented : Bool) (inside : List (List Char)) :
    List String :=
  ((uncommented commented inside).filter fun raw => !(['/', '/'].isPrefixOf raw)).map fun raw =>
    String.ofList (substitute constants (withoutComment raw))

theorem mem_of_mem_uncommented {commented : Bool} {inside : List (List Char)} {raw : List Char}
    (member : raw ∈ uncommented commented inside) : raw ∈ inside := by
  induction inside generalizing commented with
  | nil => exact member
  | cons first later continued =>
      rw [uncommented] at member
      split at member
      · exact List.mem_cons_of_mem first (continued member)
      · split at member
        · exact List.mem_cons_of_mem first (continued member)
        · rcases List.mem_cons.mp member with rfl | further
          · exact List.mem_cons_self
          · exact List.mem_cons_of_mem first (continued further)

section

variable {constants : List Constant} {inside : List (List Char)}

theorem trimmed_transcript (sound : ∀ constant ∈ constants, constant.Sound)
    (trimmed : ∀ raw ∈ inside, Trimmed raw) (commented : Bool) :
    ∀ line ∈ transcript constants commented inside, Trimmed line.toList := by
  intro line member
  obtain ⟨raw, kept, rfl⟩ := List.mem_map.mp member
  rw [String.toList_ofList]
  have inLines := mem_of_mem_uncommented (List.mem_filter.mp kept).1
  exact trimmed_substitute sound (trimmed_withoutComment (trimmed raw inLines))

/-- A line of the text is blank if and only if what becomes of it is. -/
theorem blank_iff (sound : ∀ constant ∈ constants, constant.Sound) {raw : List Char}
    (trimmed : Trimmed raw) (text : ['/', '/'].isPrefixOf raw = false) :
    String.ofList (substitute constants (withoutComment raw)) = "" ↔ raw = [] := by
  have whole : ¬ ['/', '/'] <+: raw := by
    rw [← List.isPrefixOf_iff_prefix, text]
    exact Bool.false_ne_true
  rw [← String.toList_inj, String.toList_ofList, String.toList_empty,
    substitute_eq_nil_iff sound, withoutComment_eq_nil_iff trimmed, or_iff_left whole]

theorem count_blank_transcript (sound : ∀ constant ∈ constants, constant.Sound)
    (trimmed : ∀ raw ∈ inside, Trimmed raw) (commented : Bool) :
    (transcript constants commented inside).count "" = (uncommented commented inside).count [] := by
  have trimmedLeft : ∀ raw ∈ uncommented commented inside, Trimmed raw := fun raw member =>
    trimmed raw (mem_of_mem_uncommented member)
  rw [transcript]
  generalize uncommented commented inside = left at trimmedLeft
  induction left with
  | nil => rfl
  | cons raw later continued =>
      rw [List.forall_mem_cons] at trimmedLeft
      have rest := continued trimmedLeft.2
      cases comment : ['/', '/'].isPrefixOf raw with
      | true =>
          have given : raw ≠ [] := by
            rintro rfl
            cases comment
          rw [List.filter_cons_of_neg (by simp [comment]), rest, List.count_cons_of_ne given]
      | false =>
          have same := blank_iff sound trimmedLeft.1 comment
          rw [List.filter_cons_of_pos (by simp [comment]), List.map_cons, List.count_cons,
            List.count_cons, rest]
          simp only [beq_iff_eq, same]

end

end Layout

/-! ### Taking them one after the other -/

namespace OpenFunction

variable (opened : OpenFunction) (constants : List Constant)

def takeAll (inside : List (List Char)) : OpenFunction :=
  inside.foldl (fun opened raw => opened.take constants raw) opened

theorem takeAll_line (inside : List (List Char)) :
    (opened.takeAll constants inside).line = opened.line := by
  induction inside generalizing opened with
  | nil => rfl
  | cons raw later continued => exact (continued _).trans (opened.take_line constants raw)

theorem takeAll_params (inside : List (List Char)) :
    (opened.takeAll constants inside).params = opened.params := by
  induction inside generalizing opened with
  | nil => rfl
  | cons raw later continued => exact (continued _).trans (opened.take_params constants raw)

/-- The lines of a function are what its flag lets through. -/
theorem takeAll_lines (inside : List (List Char)) :
    (opened.takeAll constants inside).lines =
      opened.lines ++ Layout.transcript constants opened.commented inside := by
  induction inside generalizing opened with
  | nil => simp [takeAll, Layout.transcript, Layout.uncommented]
  | cons raw later continued =>
      have next : opened.takeAll constants (raw :: later) =
          (opened.take constants raw).takeAll constants later := rfl
      rw [next, continued, take]
      obtain ⟨index, line, params, lines, commented⟩ := opened
      by_cases marked : Layout.isCommentMark raw = true
      · simp [Layout.transcript, Layout.uncommented, marked]
      · cases commented with
        | true => simp [Layout.transcript, Layout.uncommented, marked]
        | false =>
            cases comment : ['/', '/'].isPrefixOf raw with
            | true => simp [Layout.transcript, Layout.uncommented, marked, comment]
            | false => simp [Layout.transcript, Layout.uncommented, marked, comment]

theorem takeAll_concat (inside : List (List Char)) (raw : List Char) :
    opened.takeAll constants (inside ++ [raw]) =
      (opened.takeAll constants inside).take constants raw :=
  List.foldl_append

end OpenFunction

/-! ### Every function of a text -/

namespace Layout

/-- The function has its header at the line whose number it carries, counted from one,
and the lines from there to the first closing brace are its body. -/
def Transcribed (lines : List (List Char)) (text : FunctionText) : Prop :=
  ∃ before header inside after constants,
    lines = before ++ header :: (inside ++ ['\x7d'] :: after) ∧ text.line = before.length + 1 ∧
      ['\x7d'] ∉ inside ∧ (∀ constant ∈ constants, constant.Sound) ∧
      text.lines = transcript constants false inside

theorem Transcribed.append {lines : List (List Char)} {text : FunctionText}
    (transcribed : Transcribed lines text) (more : List (List Char)) :
    Transcribed (lines ++ more) text := by
  obtain ⟨before, header, inside, after, constants, rfl, rest⟩ := transcribed
  exact ⟨before, header, inside, after ++ more, constants, by simp, rest⟩

/-- What holds of a layout that has taken the lines `seen`: constants can be put into
lines, and functions, also one that is open, have their lines from the text. -/
structure Faithful (seen : List (List Char)) (layout : Layout) : Prop where
  constants : ∀ constant ∈ layout.constants, constant.Sound
  functions : ∀ index line text, .function index line text ∈ layout.outline →
    text.line = line ∧ (∀ param ∈ text.params, isIndex param.toList = true) ∧
      Transcribed seen text
  opened : ∀ opened, layout.phase = .function opened → ∃ before header inside index params,
    seen = before ++ header :: inside ∧ ['\x7d'] ∉ inside ∧
      (∀ param ∈ params, isIndex param.toList = true) ∧
      opened = OpenFunction.takeAll ⟨index, before.length + 1, params, [], false⟩
        layout.constants inside

theorem Move.sound_constants {raw : List Char} {layout after : Layout}
    (move : Move raw layout after) (sound : ∀ constant ∈ layout.constants, constant.Sound) :
    ∀ constant ∈ after.constants, constant.Sound := by
  cases move with
  | define inPreamble defined =>
      exact List.forall_mem_append.mpr
        ⟨sound, List.forall_mem_singleton.mpr (sound_of_constant? defined)⟩
  | closeObject inBody innermost | scalar inBody valid | array inBody valid
  | closeFunction inside brace =>
      rw [insert_constants]
      exact sound
  | pass | mark | begin | openObject | close | openFunction | take | fail => exact sound

namespace Faithful

variable {seen : List (List Char)} {layout : Layout}

/-- The brace completes the function that is open. -/
theorem closed (faithful : Faithful seen layout) {opened : OpenFunction}
    (inside : layout.phase = .function opened) :
    (∀ param ∈ opened.params, isIndex param.toList = true) ∧
      Transcribed (seen ++ [['\x7d']]) ⟨opened.params, opened.lines, opened.line⟩ := by
  obtain ⟨before, header, body, index, params, rfl, unclosed, valid, rfl⟩ :=
    faithful.opened opened inside
  constructor
  · rwa [OpenFunction.takeAll_params]
  · refine ⟨before, header, body, [], layout.constants, by simp, ?_, unclosed,
      faithful.constants, ?_⟩
    · exact OpenFunction.takeAll_line _ _ _
    · exact OpenFunction.takeAll_lines _ _ _

/-- A line brings in no function but the one that it closes. -/
theorem functions_step (faithful : Faithful seen layout) {raw : List Char} {index : String}
    {line : Nat} {text : FunctionText}
    (member : .function index line text ∈ (layout.step raw).outline) :
    text.line = line ∧ (∀ param ∈ text.params, isIndex param.toList = true) ∧
      Transcribed (seen ++ [raw]) text := by
  have earlier (recorded : .function index line text ∈ layout.outline) :
      text.line = line ∧ (∀ param ∈ text.params, isIndex param.toList = true) ∧
        Transcribed (seen ++ [raw]) text := by
    obtain ⟨same, valid, transcribed⟩ := faithful.functions index line text recorded
    exact ⟨same, valid, transcribed.append [raw]⟩
  rw [← outline_bare] at member
  rcases (move_step layout raw).outline_eq with same | ⟨last, same, added⟩
  · rw [same] at member
    exact earlier member
  · rw [same, List.mem_append, List.mem_singleton] at member
    rcases member with before | rfl
    · exact earlier before
    · cases added with
      | line other => exact absurd rfl other
      | function inside brace =>
          subst brace
          exact ⟨rfl, faithful.closed (Phase.bare_eq_function.mp inside)⟩

theorem step (faithful : Faithful seen layout) (counted : layout.line = seen.length)
    (raw : List Char) : Faithful (seen ++ [raw]) (layout.step raw) := by
  have move := move_step layout raw
  refine ⟨move.sound_constants faithful.constants,
    fun index line text => faithful.functions_step, fun opened inside => ?_⟩
  obtain ⟨_, kept, header | ⟨earlier, within, unclosed, taken⟩⟩ :=
    move.function_cases (Phase.bare_eq_function.mpr inside)
  · obtain ⟨index, params, _, valid, rfl⟩ := header
    refine ⟨seen, raw, [], index, params, rfl, List.not_mem_nil, valid, ?_⟩
    rw [← counted]
    rfl
  · obtain ⟨before, header, body, index, params, rfl, unfinished, valid, rfl⟩ :=
      faithful.opened earlier (Phase.bare_eq_function.mp within)
    refine ⟨before, header, body ++ [raw], index, params, by simp, ?_, valid, ?_⟩
    · rw [List.mem_append, List.mem_singleton, not_or]
      exact ⟨unfinished, fun same => unclosed same.symm⟩
    · have same : (layout.step raw).constants = layout.constants := kept
      rw [same, OpenFunction.takeAll_concat]
      exact taken

end Faithful

theorem faithful_start : Faithful [] start :=
  ⟨sound_predefined, fun _ _ _ member => absurd member List.not_mem_nil, fun _ same => nomatch same⟩

/-- Line after line, functions are taken from the text. -/
theorem faithful_foldl {seen : List (List Char)} {layout : Layout}
    (faithful : Faithful seen layout) (counted : layout.line = seen.length)
    (later : List (List Char)) : Faithful (seen ++ later) (later.foldl step layout) := by
  induction later generalizing seen layout with
  | nil => rwa [List.append_nil]
  | cons raw later continued =>
      rw [List.append_cons]
      apply continued (faithful.step counted raw)
      rw [line_step, counted, List.length_append, List.length_singleton]

end Layout

end TableScript
