import TableScript.Proofs.Layout.RoundTrip
import TableScript.Proofs.Phrase.Parameters
import TableScript.Proofs.Program.Stages
import TableScript.Proofs.Run.Fuel
import TableScript.Proofs.State.Tables

namespace TableScript

open Text Layout

/-! Names in use.  What the layout accepts as an index has to be found again by
the lines that use it: a scalar by an entry `[name]` and a parameter by `$name`.
Two kinds of names are lost on the way.  A line that starts with `def` defines a
constant, and a `-` in the name of a parameter is read as an operator. -/

/-! ### Executing a text -/

namespace Program

variable {settings : Settings} {source : String} {arguments : List String}

/-- With enough fuel, a text is executed with this result, whatever is noted on the
way. -/
def Executes (settings : Settings) (source : String) (arguments : List String)
    (result : Except Error Execution) : Prop :=
  ∃ enough, ∀ fuel, enough ≤ fuel →
    ∃ journal, execute fuel settings source arguments = some ⟨journal, result⟩

theorem Executes.unique {first second : Except Error Execution}
    (one : Executes settings source arguments first)
    (other : Executes settings source arguments second) : first = second := by
  obtain ⟨enough, reached⟩ := one
  obtain ⟨plenty, arrived⟩ := other
  obtain ⟨journal, executed⟩ := reached (max enough plenty) (Nat.le_max_left _ _)
  obtain ⟨later, again⟩ := arrived (max enough plenty) (Nat.le_max_right _ _)
  cases executed.symm.trans again
  rfl

theorem executes_of_refused {error : Error}
    (refused : (compile settings source).result = .error error) (arguments : List String) :
    Executes settings source arguments (.error error) := by
  refine ⟨0, fun fuel _ => ⟨(compile settings source).journal, ?_⟩⟩
  simp only [execute, refused]

theorem executes_of_returned {state after : State} {routine : Routine}
    {result : Except Error String}
    (compiled : (compile settings source).result = .ok ⟨settings, state⟩)
    (found : state.store.function settings.entry = .ok routine)
    (fits : arguments.length ≤ routine.params.length)
    (returned : routine.Returns arguments state result after) :
    Executes settings source arguments
      (result.map fun value => ⟨value, after.session.output⟩) := by
  obtain ⟨enough, ends⟩ := returned
  refine ⟨enough, fun fuel more =>
    ⟨(compile settings source).journal ++ after.session.journal, ?_⟩⟩
  have noSurplus : arguments.length - routine.params.length = 0 := Nat.sub_eq_zero_of_le fits
  have ended : (Run.call (eval fuel) routine arguments state).ended? = some (result, after) :=
    ends fuel more
  simp only [execute, compiled, callEntry, found, noSurplus, if_true, List.take_of_length_le fits,
    ended, Option.map_some]

end Program

/-! ### Programs with one function -/

theorem Declaration.result_parseAll_append (first second : List (Declaration FunctionText)) :
    (parseAll (first ++ second)).result = do
      let trees ← (parseAll first).result
      let others ← (parseAll second).result
      return trees ++ others := by
  induction first with
  | nil =>
      rw [List.nil_append]
      cases (parseAll second).result <;> rfl
  | cons declaration first continued =>
      simp only [List.cons_append, parseAll, Logged.result_bind, Logged.result_pure, continued]
      cases (parse declaration).result with
      | error error => rfl
      | ok tree =>
          cases (parseAll first).result with
          | error error => rfl
          | ok trees => cases (parseAll second).result <;> rfl

theorem Declaration.result_parseAll_function (index : String) (line : Nat) (text : FunctionText) :
    (parseAll [.function index line text]).result =
      (text.tree.mapError (Error.within ⟨index, text.line⟩)).map fun body =>
        [.function index line ⟨index, text.params, body, text.line⟩] := by
  have read : (FunctionTree.ofText index text).result = _ := FunctionTree.ofFound_eq index text
  simp only [parseAll, parse, Logged.result_bind, Logged.result_pure, read]
  cases text.tree <;> rfl

theorem State.declareAll_append_function {trees : List (Declaration FunctionTree)}
    {before state : State} (compiles : declareAll trees before = (.ok (), state))
    (index : String) (line : Nat) (tree : FunctionTree) :
    declareAll (trees ++ [.function index line tree]) before =
      state.defineFunction index tree := by
  have all : Declaration.AllCompile trees := by
    rw [← declareAll_eq_ok_iff trees before, compiles]
  rw [declareAll_append all, compiles]
  simp only [declareAll, declare]
  rcases state.defineFunction index tree with ⟨_ | _, after⟩ <;> rfl

namespace Program

/-- A function that comes last is compiled into the state that the declarations
before it lead to. -/
theorem result_compile_function {settings : Settings} {source : String}
    {front : List (Declaration FunctionText)} {trees : List (Declaration FunctionTree)}
    {state : State} {index : String} {line : Nat} {text : FunctionText}
    (laid : (Layout.read source.toList).result = .ok (front ++ [.function index line text]))
    (parsed : (Declaration.parseAll front).result = .ok trees)
    (compiles : State.declareAll trees (.fresh settings.maxCallDepth) = (.ok (), state)) :
    (compile settings source).result =
      (text.code.mapError (Error.within ⟨index, text.line⟩)).map fun body =>
        ⟨settings, ⟨state.store.setFunction index ⟨index, text.params, body⟩,
          { state.session with journal := #[] }⟩⟩ := by
  rw [result_compile, laid]
  change ((Declaration.parseAll _).result >>= _) = _
  rw [Declaration.result_parseAll_append, parsed, Declaration.result_parseAll_function,
    FunctionText.code]
  cases text.tree with
  | error error => rfl
  | ok body =>
      have entered := State.declareAll_append_function compiles index line
        ⟨index, text.params, body, text.line⟩
      simp only [bind, Except.bind, Except.mapError, Except.map, pure, Except.pure, entered,
        State.defineFunction, FunctionTree.compile]
      cases Code.ofExprs body <;> rfl

end Program

/-! ### The two programs -/

/-- Declares a scalar and reads it. -/
def entryProgram (name value : String) : String :=
  "\n".intercalate ["[", s!"{name} => '{value}'", "666 => () \x7b", s!"[{name}]", "\x7d", "]"]

/-- Returns its argument. -/
def parameterProgram (name : String) : String :=
  "\n".intercalate ["[", s!"666 => ({name}) \x7b", s!"${name}", "\x7d", "]"]

section

variable {name value : String}

theorem toList_entryProgram (name value : String) :
    (entryProgram name value).toList = Declaration.printProgram
      [.scalar name 0 value, .function "666" 0 ⟨[], [s!"[{name}]"], 0⟩] := by
  simp [entryProgram, Declaration.printProgram, Declaration.printAll, Declaration.print,
    FunctionText.print, declarationHead, quotedText, commaSeparated, List.intercalate, toString]

theorem toList_parameterProgram (name : String) :
    (parameterProgram name).toList =
      Declaration.printProgram [.function "666" 0 ⟨[name], [s!"${name}"], 0⟩] := by
  simp [parameterProgram, Declaration.printProgram, Declaration.printAll, Declaration.print,
    FunctionText.print, declarationHead, commaSeparated, List.intercalate, toString]

/-- Characters that decide nothing about a line of a function. -/
theorem bodyLine_of_plain {line : List Char} (trimmed : Trimmed line)
    (plain : ∀ c ∈ line, c ∉ ['\n', '\x7d', '~', '/']) : BodyLine line where
  trimmed := trimmed
  single member := plain '\n' member (by simp)
  unclosed same := plain '\x7d' (by simp [same]) (by simp)
  unmarked starts := plain '~' (starts.subset (by simp)) (by simp)
  uncommented before after whole := absurd (by simp) (plain '/' (by simp [whole]))

theorem plain_of_isIndex {text : List Char} (valid : isIndex text = true) :
    ∀ c ∈ text, c ∉ ['\n', '\x7d', '~', '/'] := by
  have foreign : ∀ c ∈ ['\n', '\x7d', '~', '/'], isIndexChar c = false := by
    simp only [List.forall_mem_cons, List.not_mem_nil, false_implies, implies_true]
    decide
  intro c member sign
  exact not_mem_of_isIndex valid (foreign c sign) member

theorem bodyLine_entry (valid : isIndex name.toList = true) : BodyLine s!"[{name}]".toList := by
  rw [toList_bracketed]
  apply bodyLine_of_plain (trimmed_enclosed _ (by decide))
  have inside := plain_of_isIndex valid
  simpa [or_imp, forall_and] using inside

theorem bodyLine_parameter (valid : isIndex name.toList = true) :
    BodyLine s!"${name}".toList := by
  rw [toList_dollar]
  apply bodyLine_of_plain (trimmed_dollar fun c member => isIndexChar_of_mem valid member)
  have inside := plain_of_isIndex valid
  simpa [or_imp, forall_and] using inside

theorem absent_of_letter {line : List Char} (letter : 'M' ∉ line) :
    ¬ ['M', 'A', 'I', 'N'] <:+: line :=
  fun found => letter (found.subset (by simp))

/-- The name of a constant does not reach beyond brackets or quotes. -/
theorem absent_enclosed {front inner back : List Char} {opening closing : Char}
    (apart : opening ∉ ['M', 'A', 'I', 'N'] ∧ closing ∉ ['M', 'A', 'I', 'N'])
    (before : 'M' ∉ front) (inside : ¬ ['M', 'A', 'I', 'N'] <:+: inner) (after : 'M' ∉ back) :
    ¬ ['M', 'A', 'I', 'N'] <:+: front ++ opening :: (inner ++ closing :: back) := by
  intro found
  rcases infix_append_cons apart.1 found with early | later
  · exact absent_of_letter before early
  · rcases infix_append_cons apart.2 later with within | late
    · exact inside within
    · exact absent_of_letter after late

theorem absent_scalar (unnamed : ¬ ['M', 'A', 'I', 'N'] <:+: name.toList)
    (unspoken : ¬ ['M', 'A', 'I', 'N'] <:+: value.toList) :
    ¬ ['M', 'A', 'I', 'N'] <:+: declarationHead name ++ quotedText value := by
  rw [declarationHead_append]
  intro found
  rcases infix_append_cons (by decide) found with early | later
  · exact unnamed early
  · exact absent_enclosed (by decide) (by decide : 'M' ∉ ['=', '>', ' ']) unspoken
      List.not_mem_nil later

theorem absent_entry (unnamed : ¬ ['M', 'A', 'I', 'N'] <:+: name.toList) :
    ¬ ['M', 'A', 'I', 'N'] <:+: s!"[{name}]".toList := by
  rw [toList_bracketed]
  exact absent_enclosed (by decide) List.not_mem_nil unnamed List.not_mem_nil

theorem absent_parameter (unnamed : ¬ ['M', 'A', 'I', 'N'] <:+: name.toList) :
    ¬ ['M', 'A', 'I', 'N'] <:+: s!"${name}".toList := by
  rw [toList_dollar, ← List.nil_append ('$' :: name.toList)]
  intro found
  rcases infix_append_cons (by decide) found with early | later
  · exact absent_of_letter List.not_mem_nil early
  · exact unnamed later

theorem result_read_print {declarations : List (Declaration FunctionText)}
    (printable : Declaration.PrintableAll declarations)
    (absent : ∀ line ∈ Declaration.printAll declarations, ¬ ['M', 'A', 'I', 'N'] <:+: line) :
    (Layout.read (Declaration.printProgram declarations)).result =
      .ok (Declaration.locateAll 2 declarations) := by
  obtain ⟨journal, reached⟩ := Declaration.leads_program printable absent #[]
  have begun : start = Place.layout ⟨0, .preamble, [], []⟩ #[] := rfl
  rw [Layout.read, Declaration.lines_printProgram printable, begun, reached]
  rfl

theorem result_read_entryProgram (named : Named name)
    (unnamed : ¬ ['M', 'A', 'I', 'N'] <:+: name.toList) (unquoted : '\'' ∉ value.toList)
    (single : '\n' ∉ value.toList) (unspoken : ¬ ['M', 'A', 'I', 'N'] <:+: value.toList) :
    (Layout.read (entryProgram name value).toList).result =
      .ok [.scalar name 2 value, .function "666" 3 ⟨[], [s!"[{name}]"], 3⟩] := by
  rw [toList_entryProgram, result_read_print]
  · rfl
  · have body : ∀ line ∈ [s!"[{name}]"], BodyLine line.toList :=
      List.forall_mem_singleton.mpr (bodyLine_entry named.1)
    exact ⟨⟨named, unquoted, single⟩, ⟨by decide, List.forall_mem_nil _, body⟩, trivial⟩
  · have header := absent_of_letter (by decide : 'M' ∉ "666 => () \x7b".toList)
    have brace := absent_of_letter (by decide : 'M' ∉ ['\x7d'])
    exact List.forall_mem_cons.mpr ⟨absent_scalar unnamed unspoken,
      List.forall_mem_cons.mpr ⟨header, List.forall_mem_cons.mpr ⟨absent_entry unnamed,
        List.forall_mem_singleton.mpr brace⟩⟩⟩

theorem result_read_parameterProgram (valid : isIndex name.toList = true)
    (unnamed : ¬ ['M', 'A', 'I', 'N'] <:+: name.toList) :
    (Layout.read (parameterProgram name).toList).result =
      .ok [.function "666" 2 ⟨[name], [s!"${name}"], 2⟩] := by
  rw [toList_parameterProgram, result_read_print]
  · rfl
  · have param : ∀ param ∈ [name], isIndex param.toList = true :=
      List.forall_mem_singleton.mpr valid
    have body : ∀ line ∈ [s!"${name}"], BodyLine line.toList :=
      List.forall_mem_singleton.mpr (bodyLine_parameter valid)
    exact ⟨⟨by decide, param, body⟩, trivial⟩
  · have header : ¬ ['M', 'A', 'I', 'N'] <:+: declarationHead "666" ++ ['('] ++
        commaSeparated [name.toList] ++ [')', ' ', '\x7b'] := by
      have enclosed := absent_enclosed (by decide : '(' ∉ _ ∧ ')' ∉ _)
        (by decide : 'M' ∉ declarationHead "666") unnamed (by decide : 'M' ∉ [' ', '\x7b'])
      simpa [commaSeparated] using enclosed
    have brace := absent_of_letter (by decide : 'M' ∉ ['\x7d'])
    exact List.forall_mem_cons.mpr ⟨header, List.forall_mem_cons.mpr ⟨absent_parameter unnamed,
      List.forall_mem_singleton.mpr brace⟩⟩

/-- The code of a body of one line. -/
theorem code_line {params : List String} {line : String} {number : Nat} {phrase : Phrase}
    (read : Phrase.readLine line.toList = .ok phrase) :
    FunctionText.code ⟨params, [line], number⟩ =
      (Expr.build [phrase]).result >>= fun body =>
        (Code.ofExprs body).mapError (Error.bind []) := by
  simp only [FunctionText.code, FunctionText.tree, Phrase.result_readLines, List.mapM_cons,
    List.mapM_nil, read]
  rfl

/-- A parameter before an operator comes first in the code. -/
theorem code_arithmetic {params : List String} {line : String} {number : Nat} {op : Arithmetic}
    {part : String} {right : Phrase} {body : List Code}
    (read : Phrase.readLine line.toList = .ok (.arithmetic op (.parameter part) right))
    (made : FunctionText.code ⟨params, [line], number⟩ = .ok body) :
    ∃ second, body = [.arithmetic op (.parameter part) second] := by
  rw [code_line read] at made
  obtain ⟨exprs, built, checked⟩ := bind_eq_ok made
  simp only [Expr.build, Block.takeAll, Block.take, Expr.ofPhrase, Logged.result_bind] at built
  cases parsed : Expr.ofPhrase right with
  | error error =>
      rw [parsed] at built
      cases built
  | ok expr =>
      rw [parsed] at built
      cases built
      obtain ⟨code, compiled, alone⟩ := bind_eq_ok (mapError_eq_ok checked)
      cases alone
      obtain ⟨first, leftMost, compiled⟩ := bind_eq_ok compiled
      cases leftMost
      obtain ⟨second, _, same⟩ := bind_eq_ok compiled
      cases same
      exact ⟨second, rfl⟩

/-- A name is cut at its first `-`, so the parameter in the code has another one. -/
theorem code_dashed {params : List String} {number : Nat} {body : List Code}
    (valid : isIndex name.toList = true) (dashed : '-' ∈ name.toList)
    (made : FunctionText.code ⟨params, [s!"${name}"], number⟩ = .ok body) :
    ∃ op part second, body = [.arithmetic op (.parameter part) second] ∧ part ≠ name := by
  cases read : Phrase.readLine s!"${name}".toList with
  | error fault =>
      simp only [FunctionText.code, FunctionText.tree, Phrase.result_readLines, List.mapM_cons,
        read] at made
      cases made
  | ok phrase =>
      have accepted := read
      rw [Phrase.readLine_dollar valid, Phrase.read_eq_ok_iff] at accepted
      rcases accepted.of_dollar fun c => isIndexChar_of_mem valid with
        ⟨_, dashless⟩ | ⟨op, part, right, rfl, dashless⟩
      · exact absurd dashed dashless
      · obtain ⟨second, same⟩ := code_arithmetic read made
        refine ⟨op, part, second, same, ?_⟩
        rintro rfl
        exact dashless dashed

/-! ### Running the two programs -/

namespace Program

/-- A program with scalars and its entry function only. -/
def loaded (scalars : Table String) (routine : Routine) : State :=
  ⟨⟨scalars, .empty, .empty, Table.empty.insert Settings.default.entry routine, .empty, [.empty]⟩,
    .fresh Settings.default.maxCallDepth⟩

/-- The state in which the body of the entry function runs. -/
def inEntry (scalars : Table String) (routine : Routine) (arguments : List String) : State :=
  ⟨(loaded scalars routine).store.pushScope (Run.scope routine.params arguments),
    ⟨"", 1, Settings.default.maxCallDepth, #[.called routine.index arguments]⟩⟩

/-- A function of one statement has the result of the statement. -/
theorem executes_loaded {source : String} {scalars : Table String} {routine : Routine}
    {code : Code} {arguments : List String} {result : Except Error String} {fuel : Nat}
    (compiled : (compile .default source).result = .ok ⟨.default, loaded scalars routine⟩)
    (single : routine.body = [code]) (fits : arguments.length ≤ routine.params.length)
    (evaluated : eval fuel code (inEntry scalars routine arguments) =
      .ofExcept result (inEntry scalars routine arguments)) :
    Executes .default source arguments (result.map fun value => ⟨value, ""⟩) := by
  have found : (loaded scalars routine).store.function Settings.default.entry = .ok routine := by
    simp only [loaded, Store.function, Table.get?_insert_self]
  have called : Run.call (eval fuel) routine arguments (loaded scalars routine) =
      Run.leave (Run.body (eval fuel) routine.body "" (inEntry scalars routine arguments)) := by
    simp only [Run.call, if_neg (Nat.not_lt.mpr fits)]
    rfl
  have ended : (Run.call (eval fuel) routine arguments (loaded scalars routine)).ended? =
      some (result, (loaded scalars routine).note (.called routine.index arguments)) := by
    rw [called, single, Run.body, evaluated]
    cases result <;> rfl
  exact executes_of_returned compiled found fits (Routine.returns_of_ended ended)

theorem executes_entryProgram (named : Named name)
    (unnamed : ¬ ['M', 'A', 'I', 'N'] <:+: name.toList) (unquoted : '\'' ∉ value.toList)
    (single : '\n' ∉ value.toList) (unspoken : ¬ ['M', 'A', 'I', 'N'] <:+: value.toList) :
    Executes .default (entryProgram name value) [] (.ok ⟨value, ""⟩) := by
  have laid := result_read_entryProgram named unnamed unquoted single unspoken
  have code : FunctionText.code ⟨[], [s!"[{name}]"], 3⟩ = .ok [.read name] := by
    rw [code_line (Phrase.readLine_entry named.1)]
    rfl
  have compiled : (compile .default (entryProgram name value)).result =
      .ok ⟨.default, loaded (Table.empty.insert name value) ⟨"666", [], [.read name]⟩⟩ := by
    rw [@result_compile_function .default _ [.scalar name 2 value] _ _ _ _ _ laid rfl rfl, code]
    rfl
  refine @executes_loaded _ _ _ _ _ (.ok value) 1 compiled rfl (Nat.zero_le 0) ?_
  simp only [eval, inEntry, loaded, Store.pushScope, Store.get, Table.get?_insert_self]

/-- The entry function of a program with a parameter, whatever its code. -/
theorem result_compile_parameterProgram (valid : isIndex name.toList = true)
    (unnamed : ¬ ['M', 'A', 'I', 'N'] <:+: name.toList) :
    (compile .default (parameterProgram name)).result =
      ((FunctionText.code ⟨[name], [s!"${name}"], 2⟩).mapError (Error.within ⟨"666", 2⟩)).map
        fun body => ⟨.default, loaded .empty ⟨"666", [name], body⟩⟩ :=
  @result_compile_function .default _ [] _ _ _ _ _ (result_read_parameterProgram valid unnamed)
    rfl rfl

theorem executes_parameterProgram (valid : isIndex name.toList = true)
    (unnamed : ¬ ['M', 'A', 'I', 'N'] <:+: name.toList) (dashless : '-' ∉ name.toList)
    (value : String) :
    Executes .default (parameterProgram name) [value] (.ok ⟨value, ""⟩) := by
  have code : FunctionText.code ⟨[name], [s!"${name}"], 2⟩ = .ok [.parameter name] := by
    rw [code_line (Phrase.readLine_parameter valid dashless)]
    rfl
  have compiled := result_compile_parameterProgram valid unnamed
  rw [code] at compiled
  refine @executes_loaded _ _ _ _ _ (.ok value) 1 compiled rfl (Nat.le_refl 1) ?_
  simp [eval, inEntry, loaded, Store.pushScope, Store.parameter, Run.scope, Table.ofPairs]

theorem eval_arithmetic_unknown {part : String} {state : State} {error : Error} (op : Arithmetic)
    (second : Code) (unknown : state.store.parameter part = .error error) :
    eval 2 (.arithmetic op (.parameter part) second) state = .ofExcept (.error error) state := by
  have first : eval 1 (.parameter part) state = .failed error state := by
    simp only [eval, unknown, Outcome.ofExcept]
  rw [eval, Run.integer, first]
  rfl

/-- A `-` in the name makes a difference of which the first operand is an unknown
parameter, if it can be read at all. -/
theorem refused_parameterProgram (valid : isIndex name.toList = true)
    (unnamed : ¬ ['M', 'A', 'I', 'N'] <:+: name.toList) (dashed : '-' ∈ name.toList)
    (value : String) :
    ∃ error, Executes .default (parameterProgram name) [value] (.error error) := by
  have compiled := result_compile_parameterProgram valid unnamed
  -- If both operands can be read, the run asks for the left one first; it is a part of the
  -- name, and the scope holds nothing but the whole name.
  cases made : FunctionText.code ⟨[name], [s!"${name}"], 2⟩ with
  | error error =>
      rw [made] at compiled
      exact ⟨_, executes_of_refused compiled [value]⟩
  | ok body =>
      obtain ⟨op, part, second, rfl, other⟩ := code_dashed valid dashed made
      rw [made] at compiled
      refine ⟨_, @executes_loaded _ _ _ _ _ (.error (.bind [] (.unknownParameter part))) 2
        compiled rfl (Nat.le_refl 1) (eval_arithmetic_unknown op second ?_)⟩
      simp [inEntry, loaded, Store.pushScope, Store.parameter, Run.scope, Table.ofPairs,
        Table.get?_insert_of_ne _ _ other]

end Program

/-! ### The word that defines constants -/

namespace Layout

theorem lines_append_feed {first : List Char} (single : '\n' ∉ first) (rest : List Char) :
    lines (first ++ '\n' :: rest) = trim first :: lines rest := by
  rw [lines, List.splitOn_append_cons_self_of_not_mem single, List.map_cons, lines]

/-- A fault is kept whatever follows. -/
theorem result_foldl_failed {layout : Layout} {number : Nat} {fault : LayoutFault}
    (failed : layout.phase = .failed number fault) (later : List (List Char)) :
    (later.foldl step layout).finish.result = .error (.structural number fault) := by
  induction later generalizing layout with
  | nil => simp only [List.foldl_nil, finish, failed]
  | cons line later continued =>
      apply continued
      simp only [step, failed]

theorem step_definition {line : List Char} (unmarked : isCommentMark line = false)
    (uncommented : beforeComment? false line = none) (definition : isDefinition line = true)
    {layout : Layout} (inBody : layout.phase = .body) (clear : layout.commented = false) :
    (layout.step line).phase = .failed (layout.line + 1) .lateConstant := by
  have given : line.isEmpty = false := by
    cases line with
    | nil => cases definition
    | cons c rest => rfl
  simp [step, inBody, plainLine, unmarked, clear, withoutComment_eq_self uncommented, given,
    definition, fail]

end Layout

theorem result_read_definition (unquoted : '\'' ∉ value.toList) (single : '\n' ∉ value.toList) :
    (Layout.read (entryProgram "def" value).toList).result =
      .error (.structural 2 .lateConstant) := by
  have valid : isIndex "def".toList = true := by decide
  have trimmed : Trimmed (declarationHead "def" ++ quotedText value) :=
    trimmed_head valid (trimmed_enclosed value.toList (by decide)) (by simp [quotedText])
  have unbroken : '\n' ∉ declarationHead "def" ++ quotedText value :=
    feed_not_mem_head valid (by simpa [quotedText] using single)
  have uncommented : beforeComment? false (declarationHead "def" ++ quotedText value) = none := by
    apply beforeComment?_plain (by simp [declarationHead])
    simpa [quotedText] using beforeComment?_quoted unquoted rfl
  have whole : (entryProgram "def" value).toList = ['['] ++ '\n' ::
      (declarationHead "def" ++ quotedText value ++ '\n' ::
        "666 => () \x7b\n[def]\n\x7d\n]".toList) := by
    simp [entryProgram, declarationHead, quotedText, toString]
  rw [Layout.read, whole, lines_append_feed (by decide), lines_append_feed unbroken,
    trim_eq_self trimmed]
  exact result_foldl_failed (step_definition rfl uncommented rfl rfl rfl) _

namespace Program

theorem refused_entryProgram (unquoted : '\'' ∉ value.toList) (single : '\n' ∉ value.toList) :
    Executes .default (entryProgram "def" value) []
      (.error (.structural 2 .lateConstant)) := by
  apply executes_of_refused
  rw [result_compile, result_read_definition unquoted single]
  rfl

end Program

/-! ### Names in use -/

/-- A scalar is found under every index but `def`, and a parameter under every index
without `-`.  A program that uses one of the others fails. -/
theorem identifiers_usable (valid : isIndex name.toList = true)
    (unnamed : ¬ ['M', 'A', 'I', 'N'] <:+: name.toList) (unquoted : '\'' ∉ value.toList)
    (single : '\n' ∉ value.toList) (unspoken : ¬ ['M', 'A', 'I', 'N'] <:+: value.toList) :
    (name ≠ "def" → Program.Executes .default (entryProgram name value) [] (.ok ⟨value, ""⟩)) ∧
    (name = "def" → Program.Executes .default (entryProgram name value) []
      (.error (.structural 2 .lateConstant))) ∧
    ('-' ∉ name.toList →
      Program.Executes .default (parameterProgram name) [value] (.ok ⟨value, ""⟩)) ∧
    ('-' ∈ name.toList →
      ∃ error, Program.Executes .default (parameterProgram name) [value] (.error error)) := by
  refine ⟨fun other => ?_, ?_, fun dashless => ?_, fun dashed => ?_⟩
  · exact Program.executes_entryProgram ⟨valid, other⟩ unnamed unquoted single unspoken
  · rintro rfl
    exact Program.refused_entryProgram unquoted single
  · exact Program.executes_parameterProgram valid unnamed dashless value
  · exact Program.refused_parameterProgram valid unnamed dashed value

end

/-- The keywords of function bodies are good names, and a value may look like a
comment. -/
theorem identifiers_usable_keyword :
    isIndex "if".toList = true ∧
      Program.Executes .default (entryProgram "if" "] // $if") [] (.ok ⟨"] // $if", ""⟩) ∧
      Program.Executes .default (parameterProgram "if") ["] // $if"] (.ok ⟨"] // $if", ""⟩) := by
  have valid : isIndex "if".toList = true := by decide
  have unnamed := absent_of_letter (by decide : 'M' ∉ "if".toList)
  have unspoken := absent_of_letter (by decide : 'M' ∉ "] // $if".toList)
  obtain ⟨entry, _, parameter, _⟩ :=
    identifiers_usable valid unnamed (by decide) (by decide) unspoken
  exact ⟨valid, entry (by decide), parameter (by decide)⟩

/-- Two indices that cannot be used, one for a scalar and one for a parameter. -/
theorem identifiers_lost :
    (isIndex "def".toList = true ∧ ¬ ['M', 'A', 'I', 'N'] <:+: "def".toList ∧
      ∀ output, ¬ Program.Executes .default (entryProgram "def" "x") [] (.ok ⟨"x", output⟩)) ∧
    isIndex "a-b".toList = true ∧ ¬ ['M', 'A', 'I', 'N'] <:+: "a-b".toList ∧
      ∀ output, ¬ Program.Executes .default (parameterProgram "a-b") ["x"] (.ok ⟨"x", output⟩) := by
  have valid : isIndex "a-b".toList = true := by decide
  have unnamed := absent_of_letter (by decide : 'M' ∉ "a-b".toList)
  refine ⟨⟨by decide, absent_of_letter (by decide), fun output executed => ?_⟩,
    valid, unnamed, fun output executed => ?_⟩
  · have refused : Program.Executes .default (entryProgram "def" "x") [] _ :=
      Program.refused_entryProgram (by decide) (by decide)
    cases executed.unique refused
  · obtain ⟨error, refused⟩ :=
      Program.refused_parameterProgram valid unnamed (by decide) "x"
    cases executed.unique refused

end TableScript
