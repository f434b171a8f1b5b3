import TableScript.Proofs.Program.Consistency

namespace TableScript

/-! How failures are reported.  A text with a faulty layout is refused for it;
any other text that is not compiled is refused for one of its functions, which
the error names once, between its stage and the words for the fault. -/

/-! ### The words of errors -/

/-- An error that is placed in one function, with its stage and the words for
its fault. -/
inductive Error.PlacedIn (site : Site) : Error → String → String → Prop where
  | phrase (fault : PhraseFault) :
      PlacedIn site (.phrase [site] fault) "Tokenize Error: " fault.message
  | tree (fault : TreeFault) : PlacedIn site (.tree [site] fault) "Tree Error: " fault.message
  | bind (fault : BindFault) : PlacedIn site (.bind [site] fault) "Bind Error: " fault.message

theorem Error.placed_nil (words : String) : Error.placed [] words = words :=
  String.empty_append

theorem Error.placed_singleton (site : Site) (words : String) :
    Error.placed [site] words = site.message ++ words := by
  simp only [Error.placed, String.join, List.map, List.foldl]
  rw [String.empty_append]

theorem Error.PlacedIn.message_eq {site : Site} {error : Error} {stage words : String}
    (placed : error.PlacedIn site stage words) :
    error.message = stage ++ (site.message ++ words) := by
  cases placed <;> exact congrArg (_ ++ ·) (Error.placed_singleton site _)

/-- The words do not start with a place. -/
def Unplaced (words : String) : Prop :=
  ∀ (site : Site) (rest : String), words ≠ site.message ++ rest

theorem head?_append {start : String} {c : Char} (rest : String)
    (first : start.toList.head? = some c) : (start ++ rest).toList.head? = some c := by
  rw [String.toList_append, List.head?_append, first]
  rfl

theorem Site.head?_message (site : Site) : site.message.toList.head? = some 'i' :=
  head?_append _ (head?_append _ (head?_append _ (head?_append _ rfl)))

/-- A place starts with a small letter, which the words for faults do not. -/
theorem unplaced_of_head? {words : String} {c : Char} (first : words.toList.head? = some c)
    (different : c ≠ 'i') : Unplaced words := by
  intro site rest same
  rw [same, head?_append rest site.head?_message] at first
  cases first
  exact different rfl

theorem PhraseFault.unplaced_message {fault : PhraseFault} (own : fault.own = true) :
    Unplaced fault.message := by
  cases fault with
  | missingOperand => exact @unplaced_of_head? _ 'M' rfl (by decide)
  | unrecognized text =>
      exact @unplaced_of_head? _ 'U' (head?_append _ (head?_append _ rfl)) (by decide)
  | invalidTarget text | invalidClause text =>
      exact @unplaced_of_head? _ 'I' (head?_append _ (head?_append _ rfl)) (by decide)
  | malformedFor line =>
      exact @unplaced_of_head? _ 'M' (head?_append _ (head?_append _ rfl)) (by decide)
  | reported words => cases own

/-- An error of a function body names the function once when it is placed. -/
theorem Error.OfBody.placedIn {bare : Error} (ofBody : bare.OfBody) (site : Site) :
    ∃ stage words, (bare.within site).PlacedIn site stage words ∧
      bare.message = stage ++ words ∧ Unplaced words := by
  have bareWords (stage words : String) : stage ++ Error.placed [] words = stage ++ words :=
    congrArg (stage ++ ·) (Error.placed_nil words)
  cases ofBody with
  | @phrase fault own =>
      exact ⟨_, _, .phrase fault, bareWords _ _, PhraseFault.unplaced_message own⟩
  | strayClose =>
      exact ⟨_, _, .tree _, bareWords _ _, @unplaced_of_head? _ 'U' rfl (by decide)⟩
  | openBlocks count =>
      refine ⟨_, _, .tree _, bareWords _ _, @unplaced_of_head? _ 'U' ?_ (by decide)⟩
      exact head?_append _ (head?_append _ rfl)
  | assignedParameter name =>
      refine ⟨_, _, .bind _, bareWords _ _, @unplaced_of_head? _ 'C' ?_ (by decide)⟩
      exact head?_append _ rfl
  | strayReference index =>
      refine ⟨_, _, .bind _, bareWords _ _, @unplaced_of_head? _ 'R' ?_ (by decide)⟩
      exact head?_append _ (head?_append _ rfl)

/-! ### The places of errors -/

/-- The text is refused at one of its functions, at any depth of objects: at the
first one in the order of the source that cannot be read or, if all can be read,
at the first one that cannot be checked.  The error names this function, by its
index and the line of its header, between its stage and the words `words`, which
are those for the fault of the body by itself and do not start with a place
again. -/
def Program.RefusedAtFirst (source : String) (declarations : List (Declaration FunctionText))
    (error : Error) : Prop :=
  ∃ index text bare stage words,
    Layout.HeaderAt (Layout.lines source.toList) index text.params text.line ∧
    error.PlacedIn ⟨index, text.line⟩ stage words ∧
    error.message = stage ++ (s!"in function [{index}] (line {text.line}): " ++ words) ∧
    bare.message = stage ++ words ∧
    Unplaced words ∧
    (FirstFailure FunctionTree.ofFound (Declaration.functionsAll declarations)
        (index, text) error ∧
      text.tree = .error bare ∨
    (∀ found ∈ Declaration.functionsAll declarations,
        ∃ tree, FunctionTree.ofFound found = .ok tree) ∧
      FirstFailure Routine.ofFound (Declaration.functionsAll declarations) (index, text) error ∧
      text.code = .error bare)

theorem Program.refusedAtFirst {settings : Settings} {source : String}
    {declarations : List (Declaration FunctionText)} {error : Error}
    (laid : (Layout.read source.toList).result = .ok declarations)
    (refused : (compile settings source).result = .error error) :
    RefusedAtFirst source declarations error := by
  have headed := Layout.headerAt_of_read laid
  obtain ⟨⟨index, text⟩, unread | ⟨read, unchecked⟩⟩ := compile_eq_error laid refused
  · obtain ⟨bare, broken, same⟩ := FunctionTree.ofFound_eq_error unread.failed
    obtain ⟨stage, words, placed, whole, unplaced⟩ :=
      (text.failsOnly_tree bare broken).placedIn ⟨index, text.line⟩
    rw [← same] at placed
    exact ⟨index, text, bare, stage, words, headed (index, text) unread.mem, placed,
      placed.message_eq, whole, unplaced, .inl ⟨unread, broken⟩⟩
  · obtain ⟨bare, broken, same⟩ := Routine.ofFound_eq_error unchecked.failed
    obtain ⟨stage, words, placed, whole, unplaced⟩ :=
      (text.failsOnly_code bare broken).placedIn ⟨index, text.line⟩
    rw [← same] at placed
    exact ⟨index, text, bare, stage, words, headed (index, text) unchecked.mem, placed,
      placed.message_eq, whole, unplaced, .inr ⟨read, unchecked, broken⟩⟩

/-- The errors of calls. -/
def Error.OfCall (error : Error) : Prop :=
  (∃ fault, error = .bind [] fault) ∨ ∃ fault, error = .runtime fault

theorem Error.Ordinary.ofCall {error : Error} (ordinary : error.Ordinary) : error.OfCall := by
  cases ordinary with
  | bind fault => exact .inl ⟨fault, rfl⟩
  | runtime _ => exact .inr ⟨_, rfl⟩

/-- Every failure names its stage, and while a text is compiled its function.  A
text with a faulty layout is refused for the layout, any other that is not
compiled at the first function to fail; and calls fail for names that stand for
nothing, or while they run. -/
theorem failures_placed :
    (∀ settings source error, (Layout.read source.toList).result = .error error →
      (∃ line fault, error = .structural line fault) ∧
      (Program.compile settings source).result = .error error) ∧
    (∀ settings source declarations error,
      (Layout.read source.toList).result = .ok declarations →
      (Program.compile settings source).result = .error error →
      Program.RefusedAtFirst source declarations error) ∧
    (∀ settings source program later,
      (Program.compile settings source).result = .ok program →
      Relation.ReflTransGen Program.Called program later →
      (∀ fuel arguments error after,
        (later.callEntry fuel arguments).ended? = some (.error error, after) → error.OfCall) ∧
      (∀ fuel index arguments error after,
        (later.callFunction fuel index arguments).ended? = some (.error error, after) →
        error.OfCall)) := by
  refine ⟨?_, fun _ _ _ _ => Program.refusedAtFirst, ?_⟩
  · intro settings source error refused
    refine ⟨Layout.failsOnly_read source.toList error refused, ?_⟩
    rw [Program.result_compile, refused]
    rfl
  · intro settings source program later compiled called
    have consistent := Program.consistent_called compiled called
    constructor
    · intro fuel arguments error after ended
      exact ((Program.ordinary_callEntry consistent fuel arguments).of_ended? ended).ofCall
    · intro fuel index arguments error after ended
      exact ((Program.ordinary_callFunction consistent fuel index arguments).of_ended?
        ended).ofCall

/-- An object with a function that cannot be checked, and after it a function
that cannot be read. -/
def faultySource : String :=
  "[\n1 => [\n2 => () \x7b\n&[0]\n\x7d\n]\n3 => () \x7b\n$a=1\n\x7d\n]"

/-- The later function is the one to fail, because all functions are read before
any is checked; and a call of a function that is not there fails. -/
theorem failures_placed_nested :
    ((Layout.read "]".toList).result = .error (.structural 1 .endBeforeStart) ∧
      (Program.compile .default "]").result = .error (.structural 1 .endBeforeStart)) ∧
    (∃ declarations, (Layout.read faultySource.toList).result = .ok declarations ∧
      (Program.compile .default faultySource).result =
        .error (.bind [⟨"3", 7⟩] (.assignedParameter "a")) ∧
      Program.RefusedAtFirst faultySource declarations
        (.bind [⟨"3", 7⟩] (.assignedParameter "a"))) ∧
    ∃ program after,
      (Program.compile .default "[\n]").result = .ok program ∧
      (program.callFunction 1 "9" []).ended? =
        some (.error (.bind [] (.unknownFunction "9")), after) ∧
      Error.OfCall (.bind [] (.unknownFunction "9")) := by
  obtain ⟨layouts, functions, calls⟩ := failures_placed
  have misplaced : (Layout.read "]".toList).result = .error (.structural 1 .endBeforeStart) := rfl
  have laid : (Layout.read faultySource.toList).result =
      .ok [.object "1" 2 [.function "2" 3 ⟨[], ["&[0]"], 3⟩],
        .function "3" 7 ⟨[], ["$a=1"], 7⟩] := rfl
  have refused : (Program.compile .default faultySource).result =
      .error (.bind [⟨"3", 7⟩] (.assignedParameter "a")) := by
    have reference : Phrase.read "&[0]".toList = .ok (.reference "0") :=
      Phrase.read_eq_ok_iff.mpr (.leaf rfl)
    have assignment : Phrase.read "$a=1".toList = .ok (.assign (.parameter "a") (.literal "1")) :=
      Phrase.read_eq_ok_iff.mpr (.assign rfl (.leaf rfl))
    rw [Program.result_compile, laid]
    change ((Declaration.parseAll _).result >>= _) = _
    simp only [Declaration.parseAll, Declaration.parse, FunctionTree.ofText, Logged.result_bind,
      Logged.result_within, Phrase.result_readLines, List.mapM_cons, List.mapM_nil,
      show Phrase.readLine "&[0]".toList = .ok (.reference "0") from reference,
      show Phrase.readLine "$a=1".toList = .ok (.assign (.parameter "a") (.literal "1"))
        from assignment]
    rfl
  have compiled : (Program.compile .default "[\n]").result =
      .ok ⟨.default, .fresh Settings.default.maxCallDepth⟩ := by
    have empty : (Layout.read "[\n]".toList).result = .ok [] := rfl
    rw [Program.result_compile, empty]
    rfl
  exact ⟨⟨misplaced, (layouts _ _ _ misplaced).2⟩,
    ⟨_, laid, refused, functions _ _ _ _ laid refused⟩,
    _, _, compiled, rfl, (calls _ _ _ _ compiled .refl).2 1 "9" [] _ _ rfl⟩

end TableScript
