import TableScript.Proofs.Program.Stages
import TableScript.Proofs.Run.Errors

namespace TableScript

/-! Programs as their texts make them.  A tree built from lines has comparisons
for conditions, and compiling keeps them; entering functions keeps every object
idle.  So a compiled program, after any calls, has all that a run relies on, and
the faults that would tell of a fault in the language itself do not occur. -/

/-- The errors that would tell of a fault in the language itself, and those that
it leaves to the words of the host. -/
inductive Error.Internal : Error → Prop where
  | unbalanced (sites : List Site) : Internal (.tree sites .unbalanced)
  | headerAsValue (sites : List Site) : Internal (.tree sites .headerAsValue)
  | reportedTree (sites : List Site) (words : String) : Internal (.tree sites (.reported words))
  | notBoolean (value : String) : Internal (.runtime (.notBoolean value))
  | outermostScope : Internal (.runtime .outermostScope)
  | noScope : Internal (.runtime .noScope)
  | reportedRun (words : String) : Internal (.runtime (.reported words))

theorem Error.OfBody.not_internal {error : Error} (ofBody : error.OfBody) (site : Site) :
    ¬ (error.within site).Internal := by
  intro internal
  cases ofBody <;> cases internal

theorem Error.Ordinary.not_internal {error : Error} (ordinary : error.Ordinary) :
    ¬ error.Internal := by
  intro internal
  cases internal <;> cases ordinary <;> contradiction

/-! ### Compiled programs -/

namespace State

open Declaration

variable {holds : Routine → Prop}

mutual

/-- What holds of the functions that are declared, and of those already there,
holds of all functions afterwards. -/
theorem everyRoutine_declare (declaration : Declaration FunctionTree) {state : State}
    (every : state.store.EveryRoutine holds)
    (declared : ∀ tree ∈ declaration.functions.map Prod.snd, ∀ routine,
      tree.compile = .ok routine → holds routine) :
    (declare declaration state).2.store.EveryRoutine holds := by
  cases declaration with
  | scalar index line value => exact every.of_eq rfl rfl
  | array index line items => exact every.of_eq rfl rfl
  | function index line tree =>
      simp only [declare, defineFunction]
      cases compiled : tree.compile with
      | error error => exact every
      | ok routine =>
          exact every.setFunction index (declared tree List.mem_cons_self routine compiled)
  | object index line members =>
      have start : (State.mk .fresh state.session).store.EveryRoutine holds :=
        Store.everyRoutine_fresh holds
      have inner := everyRoutine_declareAll members start declared
      simp only [declare]
      split
      · rename_i reached entered
        rw [entered] at inner
        exact every.setObject inner index
      · exact every

theorem everyRoutine_declareAll (declarations : List (Declaration FunctionTree)) {state : State}
    (every : state.store.EveryRoutine holds)
    (declared : ∀ tree ∈ (functionsAll declarations).map Prod.snd, ∀ routine,
      tree.compile = .ok routine → holds routine) :
    (declareAll declarations state).2.store.EveryRoutine holds := by
  cases declarations with
  | nil => exact every
  | cons declaration others =>
      rw [functionsAll, List.map_append, List.forall_mem_append] at declared
      have first := everyRoutine_declare declaration every declared.1
      simp only [declareAll]
      split
      · rename_i reached entered
        rw [entered] at first
        exact everyRoutine_declareAll others first declared.2
      · rename_i error reached entered
        rw [entered] at first
        exact first

end

end State

namespace Program

variable {settings : Settings} {source : String} {program later : Program}

/-- The trees of a program come from its texts. -/
theorem exists_of_parseAll {declarations : List (Declaration FunctionText)}
    {trees : List (Declaration FunctionTree)}
    (parsed : (Declaration.parseAll declarations).result = .ok trees) :
    ∀ tree ∈ (Declaration.functionsAll trees).map Prod.snd,
      ∃ text, FunctionText.tree text = .ok tree.body := by
  have read := Declaration.mapM_functionsAll declarations
  rw [parsed] at read
  intro tree member
  obtain ⟨⟨index, text⟩, _, made⟩ := (exists_of_mapM read).2 tree member
  rw [FunctionTree.ofFound_eq] at made
  obtain ⟨body, built, same⟩ := map_eq_ok made
  subst same
  exact ⟨text, mapError_eq_ok built⟩

theorem consistent_compile (compiled : (compile settings source).result = .ok program) :
    Run.Consistent program.state := by
  refine ⟨(resting_compile compiled).2.framed, ?_⟩
  rw [result_compile] at compiled
  obtain ⟨declarations, _, compiled⟩ := bind_eq_ok compiled
  obtain ⟨trees, parsed, compiled⟩ := bind_eq_ok compiled
  obtain ⟨_, _, same⟩ := bind_eq_ok compiled
  cases same
  have start : (State.fresh settings.maxCallDepth).store.EveryRoutine Run.GuardedRoutine :=
    Store.everyRoutine_fresh _
  apply State.everyRoutine_declareAll trees start
  intro tree member routine made
  obtain ⟨text, read⟩ := exists_of_parseAll parsed tree member
  exact Code.guarded_ofExprs (FunctionTree.compile_eq_ok made) (FunctionText.tests_of_tree read)

theorem consistent_called (compiled : (compile settings source).result = .ok program)
    (called : Relation.ReflTransGen Called program later) : Run.Consistent later.state := by
  induction called with
  | refl => exact consistent_compile compiled
  | tail _ last consistent => exact consistent.preserved (last.related Run.respects_preserved)

theorem ordinary_callEntry (consistent : Run.Consistent program.state) (fuel : Nat)
    (arguments : List String) : (program.callEntry fuel arguments).Ordinary := by
  have proper := eval_proper fuel
  simp only [callEntry]
  cases found : program.state.store.function program.settings.entry with
  | error error => exact Store.ordinary_function found
  | ok routine =>
      have guarded := consistent.guarded.function found
      simp only
      split
      · exact proper.callRoutine guarded _ consistent
      · exact proper.callRoutine guarded _
          (consistent.preserved (Run.respects_preserved.note program.state _))

theorem ordinary_callFunction (consistent : Run.Consistent program.state) (fuel : Nat)
    (index : String) (arguments : List String) :
    (program.callFunction fuel index arguments).Ordinary :=
  (eval_proper fuel).callEntry index arguments consistent

theorem not_internal_compile {error : Error}
    (refused : (compile settings source).result = .error error) : ¬ error.Internal := by
  cases laid : (Layout.read source.toList).result with
  | error fault =>
      obtain ⟨line, fault, same⟩ := Layout.failsOnly_read source.toList fault laid
      subst same
      rw [result_compile, laid] at refused
      cases refused
      intro internal
      cases internal
  | ok declarations =>
      obtain ⟨⟨index, text⟩, unread | ⟨_, unchecked⟩⟩ := compile_eq_error laid refused
      · obtain ⟨bare, broken, same⟩ := FunctionTree.ofFound_eq_error unread.failed
        subst same
        exact (text.failsOnly_tree bare broken).not_internal _
      · obtain ⟨bare, broken, same⟩ := Routine.ofFound_eq_error unchecked.failed
        subst same
        exact (text.failsOnly_code bare broken).not_internal _

end Program

/-- The faults of the language itself do not occur.  The stack of open blocks is
never empty and only its bottom has no header, so a text that is not compiled is
at fault itself; and after any calls of a program that is, a call fails for
nothing but what the program does, the conditions of whose functions have no
other values than the two truth values. -/
theorem internal_faults_unreachable :
    (∀ phrases blocks, (Block.takeAll Block.bottom phrases).result = .ok blocks →
      ∃ room, Block.Standing room blocks) ∧
    (∀ settings source error, (Program.compile settings source).result = .error error →
      ¬ error.Internal) ∧
    (∀ settings source program later,
      (Program.compile settings source).result = .ok program →
      Relation.ReflTransGen Program.Called program later →
      (∀ fuel arguments error after,
        (later.callEntry fuel arguments).ended? = some (.error error, after) →
        ¬ error.Internal) ∧
      (∀ fuel index arguments error after,
        (later.callFunction fuel index arguments).ended? = some (.error error, after) →
        ¬ error.Internal) ∧
      later.state.store.EveryRoutine fun routine =>
        ∀ test ∈ Code.testsAll routine.body, ∀ fuel state value after,
          eval fuel test state = .done value after → value = "true" ∨ value = "false") := by
  refine ⟨fun _ _ taken => (Block.Standing.bottom []).reached taken,
    fun _ _ _ => Program.not_internal_compile, ?_⟩
  intro settings source program later compiled called
  have consistent := Program.consistent_called compiled called
  refine ⟨?_, ?_, ?_⟩
  · intro fuel arguments error after ended
    exact ((Program.ordinary_callEntry consistent fuel arguments).of_ended? ended).not_internal
  · intro fuel index arguments error after ended
    exact ((Program.ordinary_callFunction consistent fuel index arguments).of_ended?
      ended).not_internal
  · intro path inner index routine reached found test member fuel state value after done
    have comparison := consistent.guarded path inner index routine reached found test member
    obtain ⟨truth, same⟩ := eval_comparison comparison done
    subst same
    cases truth
    · exact .inr rfl
    · exact .inl rfl

/-- A function with a condition on its argument. -/
def comparingSource : String :=
  "[\n0 => (a) \x7b\nif $a<2\n\n\x7d\n]"

def comparingProgram : Program :=
  ⟨⟨"0", 3⟩, Store.fresh.setFunction "0"
    ⟨"0", ["a"], [.branch (.compare .less (.parameter "a") (.literal "2")) []]⟩, Session.fresh 3⟩

/-- A header stands on the bottom, a blank line too many is a fault of the text,
and a text that is no number is one of the call. -/
theorem internal_faults_unreachable_comparing :
    ((Block.takeAll Block.bottom [.ifHeader (.literal "true")]).result =
        .ok [⟨some (.branch (.literal "true")), []⟩, ⟨none, []⟩] ∧
      ∃ room, Block.Standing room [⟨some (.branch (.literal "true")), []⟩, ⟨none, []⟩]) ∧
    ((Program.compile .default "[\n0 => () \x7b\n\n\x7d\n]").result =
        .error (.tree [⟨"0", 2⟩] .strayClose) ∧
      ¬ Error.Internal (.tree [⟨"0", 2⟩] .strayClose)) ∧
    ∃ later after,
      (Program.compile ⟨"0", 3⟩ comparingSource).result = .ok comparingProgram ∧
      Program.Called comparingProgram later ∧
      (later.callEntry 9 ["b", "c"]).ended? = some (.error (.runtime (.notInteger "b")), after) ∧
      ¬ Error.Internal (.runtime (.notInteger "b")) := by
  obtain ⟨standing, compiling, running⟩ := internal_faults_unreachable
  have refused : (Program.compile .default "[\n0 => () \x7b\n\n\x7d\n]").result =
      .error (.tree [⟨"0", 2⟩] .strayClose) := by
    have laid : (Layout.read "[\n0 => () \x7b\n\n\x7d\n]".toList).result =
        .ok [.function "0" 2 ⟨[], [""], 2⟩] := rfl
    rw [Program.result_compile, laid]
    rfl
  have compiled : (Program.compile ⟨"0", 3⟩ comparingSource).result = .ok comparingProgram := by
    have laid : (Layout.read comparingSource.toList).result =
        .ok [.function "0" 2 ⟨["a"], ["if $a<2", ""], 2⟩] := rfl
    have clause :
        Phrase.read "$a<2".toList = .ok (.compare .less (.parameter "a") (.literal "2")) :=
      Phrase.read_eq_ok_iff.mpr (.compare rfl (.leaf rfl) (.leaf rfl))
    have header : Phrase.readLine "if $a<2".toList =
        .ok (.ifHeader (.compare .less (.parameter "a") (.literal "2"))) := by
      change (Phrase.readClause "$a<2".toList >>= _) = _
      rw [Phrase.readClause, clause]
      rfl
    rw [Program.result_compile, laid]
    change ((Declaration.parseAll _).result >>= _) = _
    simp only [Declaration.parseAll, Declaration.parse, FunctionTree.ofText, Logged.result_bind,
      Logged.result_within, Phrase.result_readLines, List.mapM_cons, header]
    rfl
  have called := @Program.Called.function comparingProgram 9 "0" ["2"] _ _ rfl
  refine ⟨⟨rfl, standing [.ifHeader (.literal "true")] _ rfl⟩, ⟨refused, compiling _ _ _ refused⟩,
    _, _, compiled, called, rfl, ?_⟩
  exact (running _ _ _ _ compiled (.single called)).1 9 ["b", "c"] _ _ rfl

end TableScript
