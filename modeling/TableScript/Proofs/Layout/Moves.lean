import TableScript.Proofs.Layout.Replacement

namespace TableScript

open Text

/-! What one line can do.  All that a reader may make of its next line is listed
here once, with what is known about the line in each case; whatever holds of
every reader is then proved by going through the list. -/

/-- A function with one more of its lines, which is not the brace that closes it. -/
def OpenFunction.take (opened : OpenFunction) (constants : List Constant) (raw : List Char) :
    OpenFunction :=
  if Layout.isCommentMark raw then { opened with commented := !opened.commented }
  else if opened.commented || ['/', '/'].isPrefixOf raw then opened
  else
    let line := String.ofList (Layout.substitute constants (withoutComment raw))
    { opened with lines := opened.lines ++ [line] }

namespace OpenFunction

variable (opened : OpenFunction) (constants : List Constant) (raw : List Char)

@[simp] theorem take_index : (opened.take constants raw).index = opened.index := by
  unfold take
  split
  · rfl
  · split <;> rfl

@[simp] theorem take_line : (opened.take constants raw).line = opened.line := by
  unfold take
  split
  · rfl
  · split <;> rfl

@[simp] theorem take_params : (opened.take constants raw).params = opened.params := by
  unfold take
  split
  · rfl
  · split <;> rfl

end OpenFunction

namespace Phase

variable {phase : Phase}

theorem bare_eq_function {opened : OpenFunction} :
    phase.bare = .function opened ↔ phase = .function opened := by
  cases phase <;> simp [bare]

theorem bare_eq_failed {number : Nat} {fault : LayoutFault} :
    phase.bare = .failed number fault ↔ phase = .failed number fault := by
  cases phase <;> simp [bare]

end Phase

namespace Layout

/-- Puts a declaration into the innermost open object, or into the program. -/
def insert (layout : Layout) (declaration : Declaration FunctionText) : Layout :=
  match layout.objects with
  | object :: outer =>
      { layout with
        objects := { object with members := object.members ++ [declaration] } :: outer }
  | [] => { layout with members := layout.members ++ [declaration] }

@[simp] theorem insert_line (layout : Layout) (declaration : Declaration FunctionText) :
    (layout.insert declaration).line = layout.line := by
  unfold insert
  split <;> rfl

@[simp] theorem insert_constants (layout : Layout) (declaration : Declaration FunctionText) :
    (layout.insert declaration).constants = layout.constants := by
  unfold insert
  split <;> rfl

@[simp] theorem insert_phase (layout : Layout) (declaration : Declaration FunctionText) :
    (layout.insert declaration).phase = layout.phase := by
  unfold insert
  split <;> rfl

/-- From a layout that has counted a line, the line leads to another layout.  What
the reader notes, and what has been passed over after the program, is left out. -/
inductive Move (raw : List Char) (layout : Layout) : Layout → Prop
  | pass (outside : ∀ opened, layout.phase ≠ .function opened) : Move raw layout layout
  | mark (outside : ∀ opened, layout.phase ≠ .function opened) :
      Move raw layout { layout with commented := !layout.commented }
  | define {line : List Char} {constant : Constant} (inPreamble : layout.phase = .preamble)
      (defined : constant? line = some constant) :
      Move raw layout { layout with constants := layout.constants ++ [constant] }
  | begin (inPreamble : layout.phase = .preamble) : Move raw layout { layout with phase := .body }
  | openObject {index : String} (inBody : layout.phase = .body)
      (valid : isIndex index.toList = true) :
      Move raw layout { layout with objects := ⟨index, layout.line, []⟩ :: layout.objects }
  | closeObject {object : OpenObject} {outer : List OpenObject} (inBody : layout.phase = .body)
      (innermost : layout.objects = object :: outer) :
      Move raw layout ({ layout with objects := outer }.insert
        (.object object.index object.line object.members))
  | close (inBody : layout.phase = .body) (closed : layout.objects = []) :
      Move raw layout { layout with phase := .closed 0 }
  | scalar {index value : String} (inBody : layout.phase = .body)
      (valid : isIndex index.toList = true) :
      Move raw layout (layout.insert (.scalar index layout.line value))
  | array {index : String} {items : List String} (inBody : layout.phase = .body)
      (valid : isIndex index.toList = true) :
      Move raw layout (layout.insert (.array index layout.line items))
  | openFunction {index : String} {params : List String} (inBody : layout.phase = .body)
      (valid : isIndex index.toList = true)
      (paramsValid : ∀ param ∈ params, isIndex param.toList = true) :
      Move raw layout { layout with phase := .function ⟨index, layout.line, params, [], false⟩ }
  | take {opened : OpenFunction} (inside : layout.phase = .function opened)
      (unclosed : raw ≠ ['\x7d']) :
      Move raw layout { layout with phase := .function (opened.take layout.constants raw) }
  | closeFunction {opened : OpenFunction} (inside : layout.phase = .function opened)
      (brace : raw = ['\x7d']) :
      Move raw layout ({ layout with phase := .body }.insert
        (.function opened.index opened.line ⟨opened.params, opened.lines, opened.line⟩))
  | fail (outside : ∀ opened, layout.phase ≠ .function opened) (fault : LayoutFault) :
      Move raw layout { layout with phase := .failed layout.line fault }

/-! ### Indices and parameters -/

theorem isIndex_of_readIndex {text : List Char} {index : String}
    (accepted : readIndex text = .ok index) : isIndex index.toList = true := by
  unfold readIndex at accepted
  split at accepted
  · cases accepted
    rwa [String.toList_ofList]
  · cases accepted

theorem isIndex_of_readSides {line value : List Char} {index : String}
    (accepted : readSides line = .ok (index, value)) : isIndex index.toList = true := by
  unfold readSides at accepted
  split at accepted
  · rename_i before after _
    cases read : readIndex before with
    | error fault =>
        rw [read] at accepted
        cases accepted
    | ok first =>
        rw [read] at accepted
        cases accepted
        exact isIndex_of_readIndex read
  · cases accepted

theorem isIndex_of_param? {text : List Char} {param : String}
    (accepted : param? text = some param) : isIndex param.toList = true := by
  unfold param? at accepted
  simp only [Option.ite_none_right_eq_some, Option.some.injEq] at accepted
  obtain ⟨valid, rfl⟩ := accepted
  rwa [String.toList_ofList]

theorem isIndex_of_mapM_param? {texts : List (List Char)} {params : List String}
    (accepted : texts.mapM param? = some params) :
    ∀ param ∈ params, isIndex param.toList = true := by
  induction texts generalizing params with
  | nil =>
      cases accepted
      exact List.forall_mem_nil _
  | cons text others continued =>
      rw [List.mapM_cons] at accepted
      obtain ⟨param, first, rest⟩ := Option.bind_eq_some_iff.mp accepted
      obtain ⟨later, read, same⟩ := Option.bind_eq_some_iff.mp rest
      cases same
      exact List.forall_mem_cons.mpr ⟨isIndex_of_param? first, continued read⟩

theorem isIndex_of_params? {signature : List Char} {params : List String}
    (accepted : params? signature = some params) :
    ∀ param ∈ params, isIndex param.toList = true := by
  unfold params? at accepted
  split at accepted
  · split at accepted
    · split at accepted
      · cases accepted
        exact List.forall_mem_nil _
      · exact isIndex_of_mapM_param? accepted
    · cases accepted
  · cases accepted

/-! ### Every step is a move -/

section

variable {layout : Layout} {raw : List Char}

theorem bare_add_eq_insert (layout : Layout) (declaration : Declaration FunctionText) :
    (layout.add declaration).bare = layout.bare.insert declaration := by
  obtain ⟨line, constants, commented, phase, objects, members, journal⟩ := layout
  unfold add
  split <;> cases objects <;> rfl

theorem not_function_bare {phase : Phase} (outside : ∀ opened, phase ≠ .function opened) :
    ∀ opened, phase.bare ≠ .function opened :=
  fun opened same => outside opened (Phase.bare_eq_function.mp same)

theorem move_fail (outside : ∀ opened, layout.phase ≠ .function opened) (fault : LayoutFault) :
    Move raw layout.bare (layout.fail fault).bare :=
  .fail (not_function_bare outside) fault

theorem move_define (inPreamble : layout.phase = .preamble) (line : List Char) :
    Move raw layout.bare (layout.define line).bare := by
  unfold define
  split
  · exact .define (congrArg Phase.bare inPreamble) ‹_›
  · exact move_fail (by simp [inPreamble]) _

theorem move_startLine (inPreamble : layout.phase = .preamble) (line : List Char) :
    Move raw layout.bare (layout.startLine line).bare := by
  unfold startLine
  split
  · exact .begin (congrArg Phase.bare inPreamble)
  · split <;> exact move_fail (by simp [inPreamble]) _

theorem move_openObject (inBody : layout.phase = .body) (index : List Char) :
    Move raw layout.bare (layout.openObject index).bare := by
  unfold openObject
  split
  · exact .openObject (congrArg Phase.bare inBody) (isIndex_of_readIndex ‹_›)
  · exact move_fail (by simp [inBody]) _

theorem move_closeBracket (inBody : layout.phase = .body) :
    Move raw layout.bare layout.closeBracket.bare := by
  unfold closeBracket
  split
  · simp only [bare_add_eq_insert]
    exact .closeObject (congrArg Phase.bare inBody) ‹_›
  · exact .close (congrArg Phase.bare inBody) ‹_›

theorem move_openFunction (inBody : layout.phase = .body) (line : List Char) :
    Move raw layout.bare (layout.openFunction line).bare := by
  unfold openFunction
  split
  · split
    · exact .openFunction (congrArg Phase.bare inBody) (isIndex_of_readSides ‹_›)
        (isIndex_of_params? ‹_›)
    · exact move_fail (by simp [inBody]) _
  · exact move_fail (by simp [inBody]) _

theorem move_addEntry (inBody : layout.phase = .body) (line : List Char) :
    Move raw layout.bare (layout.addEntry line).bare := by
  unfold addEntry
  split
  · have valid := isIndex_of_readSides ‹_›
    split
    · exact move_fail (by simp [inBody]) _
    · split <;> simp only [bare_add_eq_insert]
      · exact .array (congrArg Phase.bare inBody) valid
      · exact .scalar (congrArg Phase.bare inBody) valid
  · exact move_fail (by simp [inBody]) _

theorem move_bodyLine (inBody : layout.phase = .body) (line : List Char) :
    Move raw layout.bare (layout.bodyLine line).bare := by
  unfold bodyLine
  split
  · exact move_openObject inBody _
  · split
    · exact move_closeBracket inBody
    · split
      · exact move_fail (by simp [inBody]) _
      · split
        · exact move_openFunction inBody line
        · exact move_addEntry inBody line

theorem functionLine_eq {opened : OpenFunction} (unclosed : raw ≠ ['\x7d'])
    (inside : layout.phase = .function opened) :
    layout.functionLine opened raw =
      { layout with phase := .function (opened.take layout.constants raw) } := by
  obtain ⟨line, constants, commented, phase, objects, members, journal⟩ := layout
  cases inside
  simp only [functionLine, if_neg unclosed, OpenFunction.take]
  split
  · rfl
  · split <;> rfl

theorem move_functionLine {opened : OpenFunction} (inside : layout.phase = .function opened) :
    Move raw layout.bare (layout.functionLine opened raw).bare := by
  by_cases brace : raw = ['\x7d']
  · simp only [functionLine, if_pos brace, closeFunction, bare_add_eq_insert]
    exact .closeFunction (congrArg Phase.bare inside) brace
  · rw [functionLine_eq brace inside]
    exact .take (congrArg Phase.bare inside) brace

theorem move_plainLine (outside : ∀ opened, layout.phase ≠ .function opened)
    {take : Layout → List Char → Layout}
    (taken : Move raw layout.bare (take layout (withoutComment raw)).bare) :
    Move raw layout.bare (layout.plainLine raw take).bare := by
  unfold plainLine
  split
  · exact .mark (not_function_bare outside)
  · split
    · exact .pass (not_function_bare outside)
    · exact taken

/-- A line does nothing but what is listed. -/
theorem move_step (layout : Layout) (raw : List Char) :
    Move raw { layout with line := layout.line + 1 }.bare (layout.step raw).bare := by
  obtain ⟨line, constants, commented, phase, objects, members, journal⟩ := layout
  cases phase with
  | preamble =>
      refine move_plainLine (by simp) ?_
      split
      · exact move_define rfl _
      · exact move_startLine rfl _
  | body =>
      refine move_plainLine (by simp) ?_
      split
      · exact move_fail (by simp) _
      · exact move_bodyLine rfl _
  | function opened => exact move_functionLine rfl
  | closed trailing =>
      have same : (step ⟨line, constants, commented, .closed trailing, objects, members, journal⟩
          raw).bare =
            bare ⟨line + 1, constants, commented, .closed trailing, objects, members, journal⟩ := by
        unfold step
        simp only
        split <;> rfl
      rw [same]
      exact .pass fun _ => nofun
  | failed number fault => exact .pass fun _ => nofun

end

/-! ### Counting lines -/

theorem Move.line_eq {raw : List Char} {layout after : Layout} (move : Move raw layout after) :
    after.line = layout.line := by
  cases move with
  | closeObject inBody innermost | scalar inBody valid | array inBody valid
  | closeFunction inside brace => exact insert_line _ _
  | pass | mark | define | begin | openObject | close | openFunction | take | fail => rfl

theorem line_step (layout : Layout) (raw : List Char) :
    (layout.step raw).line = layout.line + 1 :=
  (move_step layout raw).line_eq

theorem line_foldl (layout : Layout) (later : List (List Char)) :
    (later.foldl step layout).line = layout.line + later.length := by
  induction later generalizing layout with
  | nil => rfl
  | cons raw later continued =>
      rw [List.foldl_cons, continued, line_step, List.length_cons]
      omega

theorem line_reached {source : List Char} {count : Nat} (within : count ≤ (lines source).length) :
    (reached source count).line = count := by
  rw [reached, line_foldl, List.length_take, Nat.min_eq_left within]
  exact Nat.zero_add count

end Layout

end TableScript
