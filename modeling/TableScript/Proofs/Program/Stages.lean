import TableScript.Program
import TableScript.Proofs.Expr.Conditions
import TableScript.Proofs.Layout.Headers
import TableScript.Proofs.Phrase.Faults

namespace TableScript

/-! Compiling stage by stage.  The declarations of a program form a tree, but the
bodies of its functions are read, and later checked, one after the other in the
order of the source; so a program fails to compile where the first of its
functions does. -/

/-! ### Function bodies -/

theorem Phrase.result_readLines (lines : List String) :
    (readLines lines).result =
      lines.mapM fun line => (readLine line.toList).mapError (Error.phrase []) := by
  induction lines with
  | nil => rfl
  | cons line others continued =>
      simp only [readLines, Logged.result_bind, Logged.result_note, Logged.result_ofExcept,
        Logged.result_pure, continued, List.mapM_cons]
      rfl

theorem Phrase.ofLines_of_readLines {lines : List String} {phrases : List Phrase}
    (accepted : (readLines lines).result = .ok phrases) : Expr.OfLines phrases := by
  rw [result_readLines] at accepted
  intro phrase member
  obtain ⟨line, _, read⟩ := (exists_of_mapM accepted).2 phrase member
  exact ⟨line.toList, mapError_eq_ok read⟩

/-- The errors for which the body of a function is refused, as they are before
they are placed. -/
inductive Error.OfBody : Error → Prop where
  | phrase {fault : PhraseFault} (own : fault.own = true) : OfBody (.phrase [] fault)
  | strayClose : OfBody (.tree [] .strayClose)
  | openBlocks (count : Nat) : OfBody (.tree [] (.openBlocks count))
  | assignedParameter (name : String) : OfBody (.bind [] (.assignedParameter name))
  | strayReference (index : String) : OfBody (.bind [] (.strayReference index))

namespace FunctionText

/-- The tree of a body.  A fault in it is not placed. -/
def tree (text : FunctionText) : Except Error (List Expr) := do
  let phrases ← (Phrase.readLines text.lines).result
  (Expr.build phrases).result

/-- The code of a body.  A fault in it is not placed. -/
def code (text : FunctionText) : Except Error (List Code) := do
  let body ← text.tree
  (Code.ofExprs body).mapError (Error.bind [])

variable {text : FunctionText}

theorem tests_of_tree {body : List Expr} (read : text.tree = .ok body) :
    ∀ test ∈ Expr.testsAll body, test.isComparison = true := by
  obtain ⟨phrases, accepted, built⟩ := bind_eq_ok read
  exact Expr.tests_of_build (Phrase.ofLines_of_readLines accepted) built

theorem failsOnly_tree (text : FunctionText) : FailsOnly Error.OfBody text.tree := by
  intro error refused
  obtain unread | ⟨phrases, accepted, refused⟩ := bind_eq_error refused
  · rw [Phrase.result_readLines] at unread
    obtain ⟨line, first⟩ := firstFailure_of_mapM unread
    obtain ⟨fault, faulty, same⟩ := mapError_eq_error first.failed
    subst same
    exact .phrase (Phrase.owned_readLine line.toList fault faulty)
  · obtain same | ⟨count, same⟩ | ⟨name, same⟩ :=
      Expr.build_eq_error (Phrase.ofLines_of_readLines accepted) refused
    · subst same
      exact .strayClose
    · subst same
      exact .openBlocks count
    · subst same
      exact .assignedParameter name

theorem failsOnly_code (text : FunctionText) : FailsOnly Error.OfBody text.code := by
  apply (failsOnly_tree text).bind
  intro body error refused
  obtain ⟨fault, stray, same⟩ := mapError_eq_error refused
  obtain ⟨index, reference⟩ := Code.failsOnly_ofExprs body fault stray
  subst same reference
  exact .strayReference index

end FunctionText

/-! ### Functions -/

/-- Reads a function that is declared under an index. -/
def FunctionTree.ofFound (found : String × FunctionText) : Except Error FunctionTree :=
  (FunctionTree.ofText found.1 found.2).result

/-- Reads and checks a function that is declared under an index. -/
def Routine.ofFound (found : String × FunctionText) : Except Error Routine :=
  FunctionTree.ofFound found >>= FunctionTree.compile

variable {index : String} {text : FunctionText} {error : Error}

theorem FunctionTree.ofFound_eq (index : String) (text : FunctionText) :
    ofFound (index, text) =
      (text.tree.mapError (Error.within ⟨index, text.line⟩)).map fun body =>
        ⟨index, text.params, body, text.line⟩ := by
  simp only [ofFound, ofText, Logged.result_within, Logged.result_bind, Logged.result_pure,
    FunctionText.tree]
  cases (Phrase.readLines text.lines).result with
  | error error => rfl
  | ok phrases =>
      simp only [bind, Except.bind]
      cases (Expr.build phrases).result <;> rfl

/-- A function that is refused is named once in the error. -/
theorem FunctionTree.ofFound_eq_error (refused : ofFound (index, text) = .error error) :
    ∃ bare, text.tree = .error bare ∧ error = bare.within ⟨index, text.line⟩ := by
  rw [ofFound_eq] at refused
  exact mapError_eq_error (map_eq_error refused)

theorem FunctionTree.compile_eq_ok {tree : FunctionTree} {routine : Routine}
    (made : tree.compile = .ok routine) : Code.ofExprs tree.body = .ok routine.body := by
  unfold compile at made
  split at made
  · rename_i checked
    cases made
    exact checked
  · cases made

theorem FunctionTree.compile_eq_error {tree : FunctionTree}
    (refused : tree.compile = .error error) :
    ∃ fault, Code.ofExprs tree.body = .error fault ∧
      error = (Error.bind [] fault).within ⟨tree.index, tree.line⟩ := by
  unfold compile at refused
  split at refused
  · cases refused
  · rename_i fault unchecked
    cases refused
    exact ⟨fault, unchecked, rfl⟩

theorem Routine.ofFound_eq_error (refused : ofFound (index, text) = .error error) :
    ∃ bare, text.code = .error bare ∧ error = bare.within ⟨index, text.line⟩ := by
  obtain unread | ⟨tree, read, unchecked⟩ := bind_eq_error refused
  · obtain ⟨bare, broken, same⟩ := FunctionTree.ofFound_eq_error unread
    refine ⟨bare, ?_, same⟩
    rw [FunctionText.code, broken]
    rfl
  · rw [FunctionTree.ofFound_eq] at read
    obtain ⟨body, built, same⟩ := map_eq_ok read
    subst same
    obtain ⟨fault, stray, same⟩ := FunctionTree.compile_eq_error unchecked
    refine ⟨.bind [] fault, ?_, same⟩
    rw [FunctionText.code, mapError_eq_ok built]
    exact congrArg (Except.mapError (Error.bind [])) stray

namespace Declaration

mutual

/-- The functions of a program are read in the order of the source. -/
theorem mapM_functions (declaration : Declaration FunctionText) :
    declaration.functions.mapM FunctionTree.ofFound =
      (parse declaration).result.map fun parsed => parsed.functions.map Prod.snd := by
  cases declaration with
  | scalar _ _ _ | array _ _ _ => rfl
  | object index line members =>
      simp only [functions, parse, mapM_functionsAll members, Logged.result_bind,
        Logged.result_pure]
      cases (parseAll members).result <;> rfl
  | function index line text =>
      simp only [functions, FunctionTree.ofFound, parse, List.mapM_cons, List.mapM_nil,
        Logged.result_bind, Logged.result_pure]
      cases (FunctionTree.ofText index text).result <;> rfl

theorem mapM_functionsAll (declarations : List (Declaration FunctionText)) :
    (functionsAll declarations).mapM FunctionTree.ofFound =
      (parseAll declarations).result.map fun parsed => (functionsAll parsed).map Prod.snd := by
  cases declarations with
  | nil => rfl
  | cons declaration others =>
      simp only [functionsAll, parseAll, List.mapM_append, mapM_functions declaration,
        mapM_functionsAll others, Logged.result_bind, Logged.result_pure]
      cases (parse declaration).result with
      | error error => rfl
      | ok parsed =>
          cases (parseAll others).result with
          | error error => rfl
          | ok rest => simp [Except.map, bind, Except.bind, pure, Except.pure, functionsAll]

end

end Declaration

namespace State

open Declaration

mutual

/-- Functions are compiled in the order of the source, whatever is entered
besides. -/
theorem result_declare (declaration : Declaration FunctionTree) (state : State) :
    (declare declaration state).1 =
      ((declaration.functions.map Prod.snd).mapM FunctionTree.compile).map fun _ => () := by
  cases declaration with
  | scalar _ _ _ | array _ _ _ => rfl
  | object index line members =>
      have inner := result_declareAll members ⟨.fresh, state.session⟩
      simp only [functions, ← inner, declare]
      split
      · rename_i entered
        rw [entered]
      · rename_i entered
        rw [entered]
  | function index line tree =>
      simp only [functions, declare, defineFunction, List.map_cons, List.map_nil,
        List.mapM_cons, List.mapM_nil]
      cases tree.compile <;> rfl

theorem result_declareAll (declarations : List (Declaration FunctionTree)) (state : State) :
    (declareAll declarations state).1 =
      (((functionsAll declarations).map Prod.snd).mapM FunctionTree.compile).map fun _ => () := by
  cases declarations with
  | nil => rfl
  | cons declaration others =>
      have first := result_declare declaration state
      simp only [functionsAll, List.map_append, List.mapM_append, declareAll]
      split
      · rename_i after entered
        rw [entered] at first
        rw [result_declareAll others after]
        obtain ⟨routines, here, _⟩ := map_eq_ok first.symm
        rw [here]
        cases ((functionsAll others).map Prod.snd).mapM FunctionTree.compile <;> rfl
      · rename_i error after entered
        rw [entered] at first
        rw [map_eq_error first.symm]
        rfl

end

end State

/-- A layout is refused for a fault on one of its lines. -/
theorem Layout.failsOnly_read (source : List Char) :
    FailsOnly (fun error => ∃ line fault, error = .structural line fault)
      (Layout.read source).result := by
  unfold Layout.read Layout.finish
  split
  · exact .error ⟨_, _, rfl⟩
  · exact .error ⟨_, _, rfl⟩
  · exact .error ⟨_, _, rfl⟩
  · exact .error ⟨_, _, rfl⟩
  · exact .ok _
  · exact .ok _
  · exact .ok _

namespace Program

theorem result_compile (settings : Settings) (source : String) :
    (compile settings source).result = do
      let declarations ← (Layout.read source.toList).result
      let trees ← (Declaration.parseAll declarations).result
      let entered := State.declareAll trees (.fresh settings.maxCallDepth)
      let _ ← entered.1
      return ⟨settings, entered.2.takeJournal.2⟩ := by
  simp only [compile, State.readProgram, Logged.result_bind]
  cases (Layout.read source.toList).result with
  | error error => rfl
  | ok declarations =>
      simp only [bind, Except.bind]
      cases (Declaration.parseAll declarations).result with
      | error error => rfl
      | ok trees =>
          simp only
          rcases State.declareAll trees (.fresh settings.maxCallDepth) with ⟨_ | _, state⟩ <;> rfl

/-- A program whose layout is read fails at the first function that cannot be
read, or else at the first one that cannot be checked. -/
theorem compile_eq_error {settings : Settings} {source : String}
    {declarations : List (Declaration FunctionText)} {error : Error}
    (laid : (Layout.read source.toList).result = .ok declarations)
    (refused : (compile settings source).result = .error error) :
    ∃ found,
      FirstFailure FunctionTree.ofFound (Declaration.functionsAll declarations) found error ∨
      (∀ other ∈ Declaration.functionsAll declarations,
        ∃ tree, FunctionTree.ofFound other = .ok tree) ∧
      FirstFailure Routine.ofFound (Declaration.functionsAll declarations) found error := by
  have read := Declaration.mapM_functionsAll declarations
  rw [result_compile, laid] at refused
  change ((Declaration.parseAll declarations).result >>= _) = _ at refused
  obtain unread | ⟨trees, parsed, refused⟩ := bind_eq_error refused
  · rw [unread] at read
    obtain ⟨found, first⟩ := firstFailure_of_mapM read
    exact ⟨found, .inl first⟩
  · obtain unchecked | ⟨_, _, impossible⟩ := bind_eq_error refused
    · rw [parsed] at read
      -- All functions are read before any is checked, so the second pass fails where
      -- reading and checking each function at once would.
      rw [State.result_declareAll] at unchecked
      have checked :
          (Declaration.functionsAll declarations).mapM Routine.ofFound = .error error :=
        (mapM_bind read).trans (map_eq_error unchecked)
      obtain ⟨found, first⟩ := firstFailure_of_mapM checked
      exact ⟨found, .inr ⟨(exists_of_mapM read).1, first⟩⟩
    · cases impossible

end Program

end TableScript
