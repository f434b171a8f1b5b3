import TableScript.Proofs.Program.Identifiers

namespace TableScript

open Text Layout

/-! Text that comes through unchanged.  A text is declared as a scalar, quoted once
more in an argument, written to the output and returned.  On its way it passes the
layout, the reader of phrases and the run; between its quotes none of them looks for
anything, whatever the text holds. -/

namespace Program

/-- The entry function may be given more arguments than it has parameters; all that
this leaves behind is a note. -/
theorem executes_of_returned_surplus {settings : Settings} {source : String}
    {arguments : List String} {state : State} {routine : Routine}
    {result : Except Error String} {output : String}
    (compiled : (compile settings source).result = .ok ⟨settings, state⟩)
    (found : state.store.function settings.entry = .ok routine)
    (returned : ∀ journal, ∃ after, after.session.output = output ∧
      routine.Returns (arguments.take routine.params.length)
        ⟨state.store, { state.session with journal := journal }⟩ result after) :
    Executes settings source arguments (result.map fun value => ⟨value, output⟩) := by
  generalize begun : (if arguments.length - routine.params.length = 0 then state
    else state.note (.surplusDropped (arguments.length - routine.params.length) routine.index)) =
      first
  have noted : first =
      ⟨state.store, { state.session with journal := first.session.journal }⟩ := by
    rw [← begun]
    split <;> rfl
  obtain ⟨after, written, enough, ends⟩ := returned first.session.journal
  rw [← noted] at ends
  refine ⟨enough, fun fuel more =>
    ⟨(compile settings source).journal ++ after.session.journal, ?_⟩⟩
  have ended : (Run.call (eval fuel) routine (arguments.take routine.params.length)
      first).ended? = some (result, after) := ends fuel more
  simp only [execute, compiled, callEntry, found, begun, ended, Option.map_some, written]

end Program

/-! ### The program -/

/-- Declares a text, writes it twice and returns it. -/
def textProgram (name value : String) : String :=
  "\n".intercalate ["[", s!"{name} => '{value}'", "666 => () \x7b",
    s!"out([{name}] ^ '{value}')", s!"[{name}]", "\x7d", "]"]

/-- Writes an entry with a text behind it. -/
def writingPhrase (name value : String) : Phrase :=
  .builtin "out" [.concat (.entry name) (.literal value)]

section

variable {name value : String}

theorem toList_textProgram (name value : String) :
    (textProgram name value).toList = Declaration.printProgram
      [.scalar name 0 value,
        .function "666" 0 ⟨[], [s!"out([{name}] ^ '{value}')", s!"[{name}]"], 0⟩] := by
  simp [textProgram, Declaration.printProgram, Declaration.printAll, Declaration.print,
    FunctionText.print, declarationHead, quotedText, commaSeparated, List.intercalate, toString]

theorem toList_writing (name value : String) :
    s!"out([{name}] ^ '{value}')".toList = "out([".toList ++ name.toList ++ "] ^ ".toList ++
      '\'' :: (value.toList ++ ['\'', ')']) := by
  simp [toString]

theorem render_writingPhrase (name value : String) :
    (writingPhrase name value).render = s!"out([{name}] ^ '{value}')".toList := by
  simp [writingPhrase, Phrase.render, Phrase.renderAll, commaSeparated, spaced, toString]

theorem wellFormed_writingPhrase (valid : isIndex name.toList = true)
    (unquoted : '\'' ∉ value.toList) : (writingPhrase name value).WellFormed := by
  intro node member
  simp only [writingPhrase, Phrase.nodes, Phrase.nodesAll, List.append_nil, List.mem_cons,
    List.mem_append, List.not_mem_nil, or_false] at member
  rcases member with rfl | rfl | rfl | rfl
  · exact ⟨(by decide : isName "out".toList = true), by decide, by decide⟩
  · exact ⟨⟨Nat.le_refl 4, Nat.le_succ 3⟩, trivial⟩
  · exact ⟨valid, trivial⟩
  · exact ⟨trivial, unquoted⟩

theorem readLine_writing (valid : isIndex name.toList = true) (unquoted : '\'' ∉ value.toList) :
    Phrase.readLine s!"out([{name}] ^ '{value}')".toList = .ok (writingPhrase name value) := by
  have formed := wellFormed_writingPhrase valid unquoted
  have trimmed := (Phrase.written_render _ formed).trimmed
  have reads := (Phrase.reads_render _ formed).read_eq_ok
  rw [render_writingPhrase, toList_writing] at trimmed reads
  rw [toList_writing, ← reads]
  exact Phrase.readLine_of_sign (by decide) trimmed

/-- What looks like a comment inside the quotes is none. -/
theorem bodyLine_writing (valid : isIndex name.toList = true) (unquoted : '\'' ∉ value.toList)
    (single : '\n' ∉ value.toList) : BodyLine s!"out([{name}] ^ '{value}')".toList := by
  have trimmed := (Phrase.written_render _ (wellFormed_writingPhrase valid unquoted)).trimmed
  rw [render_writingPhrase] at trimmed
  have unbroken : '\n' ∉ name.toList := not_mem_of_isIndex valid (by decide)
  have plain : ∀ c ∈ "out([".toList ++ name.toList ++ "] ^ ".toList, c ≠ '\'' ∧ c ≠ '/' := by
    have inside : ∀ c ∈ name.toList, c ≠ '\'' ∧ c ≠ '/' := fun c member =>
      ⟨fun same => not_mem_of_isIndex valid (by decide : isIndexChar '\'' = false) (same ▸ member),
        fun same => not_mem_of_isIndex valid (by decide : isIndexChar '/' = false)
          (same ▸ member)⟩
    rw [List.forall_mem_append, List.forall_mem_append]
    exact ⟨⟨by simp, inside⟩, by simp⟩
  rw [bodyLine_iff, trim_eq_self trimmed, toList_writing]
  refine ⟨rfl, ?_, by simp, by simp, ?_⟩
  · simp [unbroken, single]
  · exact beforeComment?_plain plain (beforeComment?_quoted unquoted rfl)

theorem absent_writing (unnamed : ¬ ['M', 'A', 'I', 'N'] <:+: name.toList)
    (unspoken : ¬ ['M', 'A', 'I', 'N'] <:+: value.toList) :
    ¬ ['M', 'A', 'I', 'N'] <:+: s!"out([{name}] ^ '{value}')".toList := by
  have whole : s!"out([{name}] ^ '{value}')".toList =
      "out(".toList ++ '[' :: (name.toList ++ ']' :: (" ^ ".toList ++
        '\'' :: (value.toList ++ '\'' :: [')']))) := by
    simp [toString]
  rw [whole]
  intro found
  rcases infix_append_cons (by decide) found with early | later
  · exact absent_of_letter (by decide) early
  · rcases infix_append_cons (by decide) later with within | late
    · exact unnamed within
    · exact absent_enclosed (by decide) (by decide) unspoken (by decide) late

theorem result_read_textProgram (named : Named name)
    (unnamed : ¬ ['M', 'A', 'I', 'N'] <:+: name.toList) (unquoted : '\'' ∉ value.toList)
    (single : '\n' ∉ value.toList) (unspoken : ¬ ['M', 'A', 'I', 'N'] <:+: value.toList) :
    (Layout.read (textProgram name value).toList).result =
      .ok [.scalar name 2 value,
        .function "666" 3 ⟨[], [s!"out([{name}] ^ '{value}')", s!"[{name}]"], 3⟩] := by
  rw [toList_textProgram, result_read_print]
  · rfl
  · have body : ∀ line ∈ [s!"out([{name}] ^ '{value}')", s!"[{name}]"], BodyLine line.toList :=
      List.forall_mem_cons.mpr ⟨bodyLine_writing named.1 unquoted single,
        List.forall_mem_singleton.mpr (bodyLine_entry named.1)⟩
    exact ⟨⟨named, unquoted, single⟩, ⟨by decide, List.forall_mem_nil _, body⟩, trivial⟩
  · have header := absent_of_letter (by decide : 'M' ∉ "666 => () \x7b".toList)
    have brace := absent_of_letter (by decide : 'M' ∉ ['\x7d'])
    exact List.forall_mem_cons.mpr ⟨absent_scalar unnamed unspoken,
      List.forall_mem_cons.mpr ⟨header, List.forall_mem_cons.mpr ⟨absent_writing unnamed unspoken,
        List.forall_mem_cons.mpr ⟨absent_entry unnamed, List.forall_mem_singleton.mpr brace⟩⟩⟩⟩

/-! ### Running it -/

/-- The code of the two lines of the function. -/
def textBody (name value : String) : List Code :=
  [.builtin "out" [.value (.concat (.read name) (.literal value))], .read name]

theorem code_textProgram (valid : isIndex name.toList = true) (unquoted : '\'' ∉ value.toList)
    (number : Nat) :
    FunctionText.code ⟨[], [s!"out([{name}] ^ '{value}')", s!"[{name}]"], number⟩ =
      .ok (textBody name value) := by
  simp only [FunctionText.code, FunctionText.tree, Phrase.result_readLines, List.mapM_cons,
    List.mapM_nil, readLine_writing valid unquoted, Phrase.readLine_entry valid]
  rfl

theorem eval_writing {state : State} {held : String} (known : state.store.get name = .ok held) :
    eval 3 (.builtin "out" [.value (.concat (.read name) (.literal value))]) state =
      .done "" (state.write (held ++ value)) := by
  have entry : eval 1 (.read name) state = .done held state := by
    simp only [eval, known, Outcome.ofExcept]
  have joined : eval 2 (.concat (.read name) (.literal value)) state =
      .done (held ++ value) state := by
    rw [eval, entry]
    rfl
  have written : Run.out (eval 2) [.value (.concat (.read name) (.literal value))] state =
      .done "" (state.write (held ++ value)) := by
    rw [Run.out, joined]
    rfl
  rw [eval, ← written]
  rfl

/-- The function writes the entry with the text behind it and returns the entry. -/
theorem body_textBody {state : State} {held : String} (known : state.store.get name = .ok held) :
    Run.body (eval 3) (textBody name value) "" state =
      .done held (state.write (held ++ value)) := by
  have later : (state.write (held ++ value)).store.get name = .ok held := known
  have entry : eval 3 (.read name) (state.write (held ++ value)) =
      .done held (state.write (held ++ value)) := by
    simp only [eval, later, Outcome.ofExcept]
  rw [textBody, Run.body, eval_writing known]
  simp only [Outcome.andThen, Run.body, entry]

namespace Program

theorem returns_textBody (name value : String) (journal : Journal) :
    ∃ after, after.session.output = value ++ value ∧
      Routine.Returns ⟨"666", [], textBody name value⟩ []
        ⟨(loaded (Table.empty.insert name value) ⟨"666", [], textBody name value⟩).store,
          { Session.fresh Settings.default.maxCallDepth with journal := journal }⟩
        (.ok value) after := by
  let store := (loaded (Table.empty.insert name value) ⟨"666", [], textBody name value⟩).store
  let session : Session :=
    ⟨"", 1, Settings.default.maxCallDepth, journal.push (.called "666" [])⟩
  have known : (store.pushScope (Run.scope [] [])).get name = .ok value := by
    simp only [store, loaded, Store.pushScope, Store.get, Table.get?_insert_self]
  have called : Run.call (eval 3) ⟨"666", [], textBody name value⟩ []
      ⟨store, { Session.fresh Settings.default.maxCallDepth with journal := journal }⟩ =
        Run.leave (Run.body (eval 3) (textBody name value) ""
          ⟨store.pushScope (Run.scope [] []), session⟩) := rfl
  have ran := @body_textBody name value ⟨store.pushScope (Run.scope [] []), session⟩ value known
  rw [ran] at called
  refine ⟨⟨store, ((session.note (.written (value ++ value))).write (value ++ value)).leaveCall⟩,
    ?_, Routine.returns_of_ended (congrArg Outcome.ended? called)⟩
  exact String.empty_append

end Program

/-- Whatever a text holds but quotes and line feeds, its declaration, its use in an
argument and its output leave it as it was written. -/
theorem text_comes_through (valid : isIndex name.toList = true) (other : name ≠ "def")
    (unnamed : ¬ ['M', 'A', 'I', 'N'] <:+: name.toList) (unquoted : '\'' ∉ value.toList)
    (single : '\n' ∉ value.toList) (unspoken : ¬ ['M', 'A', 'I', 'N'] <:+: value.toList)
    (arguments : List String) :
    Program.Executes .default (textProgram name value) arguments
      (.ok ⟨value, value ++ value⟩) := by
  let routine : Routine := ⟨"666", [], textBody name value⟩
  let state := Program.loaded (Table.empty.insert name value) routine
  have laid := result_read_textProgram ⟨valid, other⟩ unnamed unquoted single unspoken
  have compiled : (Program.compile .default (textProgram name value)).result =
      .ok ⟨.default, state⟩ := by
    rw [@Program.result_compile_function .default _ [.scalar name 2 value] _ _ _ _ _ laid rfl rfl,
      code_textProgram valid unquoted]
    rfl
  have found : state.store.function Settings.default.entry = .ok routine := by
    simp only [state, routine, Program.loaded, Store.function, Table.get?_insert_self]
  exact Program.executes_of_returned_surplus compiled found (Program.returns_textBody name value)

end

/-- A text that looks like everything the readers search for, and arguments that the
function has no parameters for. -/
theorem text_comes_through_marks :
    isIndex "a-b".toList = true ∧
      Program.Executes .default (textProgram "a-b" " ], [x] => ) // ^ == \x7d ") ["one", "two"]
        (.ok ⟨" ], [x] => ) // ^ == \x7d ",
          " ], [x] => ) // ^ == \x7d " ++ " ], [x] => ) // ^ == \x7d "⟩) := by
  have valid : isIndex "a-b".toList = true := by decide
  have unnamed := absent_of_letter (by decide : 'M' ∉ "a-b".toList)
  have unspoken := absent_of_letter (by decide : 'M' ∉ " ], [x] => ) // ^ == \x7d ".toList)
  exact ⟨valid, text_comes_through valid (by decide) unnamed (by decide) (by decide) unspoken
    ["one", "two"]⟩

end TableScript
