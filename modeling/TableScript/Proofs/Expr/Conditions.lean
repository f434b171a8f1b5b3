import TableScript.Code
import TableScript.Proofs.Expr.Balanced
import TableScript.Proofs.Phrase.Precedence
import TableScript.Proofs.Traversal

namespace TableScript

/-! The conditions of blocks.  A line is read as a header only if its condition is
a comparison, and neither building the tree of a body nor checking it puts
anything else in the place of one.  Headers stand on lines of their own, so the
tree of lines that were read fails for no fault but the ones a text can have. -/

/-! ### Where conditions stand -/

namespace Expr

def isComparison : Expr → Bool
  | compare _ _ _ => true
  | _ => false

mutual

/-- The conditions of all blocks in an expression, at any depth. -/
def tests : Expr → List Expr
  | literal _ | read _ | register _ | parameter _ | reference _ => []
  | write _ part | setRegister _ part | element _ part | append _ part => tests part
  | arithmetic _ left right | concat left right | compare _ left right =>
      tests left ++ tests right
  | call _ arguments | builtin _ arguments => testsAll arguments
  | branch condition body => condition :: (tests condition ++ testsAll body)
  | loop condition increment body =>
      condition :: (tests condition ++ tests increment ++ testsAll body)

def testsAll : List Expr → List Expr
  | [] => []
  | expr :: others => tests expr ++ testsAll others

end

mutual

theorem tests_of_plain {expr : Expr} (free : expr.plain = true) : expr.tests = [] := by
  cases expr with
  | literal _ | read _ | register _ | parameter _ | reference _ => rfl
  | write _ part | setRegister _ part | element _ part | append _ part =>
      rw [plain] at free
      rw [tests, tests_of_plain free]
  | arithmetic _ left right | concat left right | compare _ left right =>
      rw [plain, Bool.and_eq_true] at free
      rw [tests, tests_of_plain free.1, tests_of_plain free.2, List.append_nil]
  | call _ arguments | builtin _ arguments =>
      rw [plain] at free
      rw [tests, testsAll_of_plain free]
  | branch condition body | loop condition increment body =>
      rw [plain] at free
      cases free

theorem testsAll_of_plain {exprs : List Expr} (free : plainAll exprs = true) :
    testsAll exprs = [] := by
  cases exprs with
  | nil => rfl
  | cons expr others =>
      rw [plainAll, Bool.and_eq_true] at free
      rw [testsAll, tests_of_plain free.1, testsAll_of_plain free.2, List.append_nil]

end

end Expr

namespace Code

def isComparison : Code → Bool
  | compare _ _ _ => true
  | _ => false

mutual

/-- The conditions of all blocks in a code, at any depth. -/
def tests : Code → List Code
  | literal _ | read _ | register _ | parameter _ => []
  | write _ part | setRegister _ part | element _ part | append _ part => tests part
  | arithmetic _ left right | concat left right | compare _ left right =>
      tests left ++ tests right
  | call _ arguments => testsAll arguments
  | builtin _ arguments => testsArguments arguments
  | branch condition body => condition :: (tests condition ++ testsAll body)
  | loop condition increment body =>
      condition :: (tests condition ++ tests increment ++ testsAll body)

def testsAll : List Code → List Code
  | [] => []
  | code :: others => tests code ++ testsAll others

def testsArguments : List (Argument Code) → List Code
  | [] => []
  | argument :: others => testsArgument argument ++ testsArguments others

def testsArgument : Argument Code → List Code
  | .value code => tests code
  | .reference _ => []

end

/-- Every condition in a code is a comparison. -/
def Guarded (code : Code) : Prop :=
  ∀ test ∈ code.tests, test.isComparison = true

def GuardedAll (codes : List Code) : Prop :=
  ∀ test ∈ testsAll codes, test.isComparison = true

def GuardedArguments (arguments : List (Argument Code)) : Prop :=
  ∀ test ∈ testsArguments arguments, test.isComparison = true

end Code

/-! ### From trees to code -/

namespace Code

theorem isComparison_ofExpr {expr : Expr} {code : Code} (checked : ofExpr expr = .ok code)
    (comparison : expr.isComparison = true) : code.isComparison = true := by
  cases expr with
  | compare op left right =>
      obtain ⟨first, _, checked⟩ := bind_eq_ok checked
      obtain ⟨second, _, same⟩ := bind_eq_ok checked
      cases same
      rfl
  | _ => cases comparison

/-- An argument of a built-in function is a reference, or an expression that is
checked. -/
theorem ofArguments_cons {expr : Expr} {others : List Expr} {arguments : List (Argument Code)}
    (checked : ofArguments (expr :: others) = .ok arguments) :
    ∃ argument rest, arguments = argument :: rest ∧ ofArguments others = .ok rest ∧
      ((∃ index, argument = .reference index) ∨
        ∃ code, argument = .value code ∧ ofExpr expr = .ok code) := by
  rw [ofArguments.eq_def] at checked
  split at checked
  · rename_i absent
    cases absent
  · rename_i index rest same
    cases same
    obtain ⟨rest, restChecked, same⟩ := bind_eq_ok checked
    cases same
    exact ⟨_, rest, rfl, restChecked, .inl ⟨index, rfl⟩⟩
  · rename_i first rest _ same
    cases same
    obtain ⟨code, firstChecked, checked⟩ := bind_eq_ok checked
    obtain ⟨rest, restChecked, same⟩ := bind_eq_ok checked
    cases same
    exact ⟨_, rest, rfl, restChecked, .inr ⟨code, rfl, firstChecked⟩⟩

mutual

/-- Checking a tree leaves its conditions what they are. -/
theorem guarded_ofExpr {expr : Expr} {code : Code} (checked : ofExpr expr = .ok code)
    (guarded : ∀ test ∈ expr.tests, test.isComparison = true) : code.Guarded := by
  cases expr with
  | literal _ | read _ | register _ | parameter _ =>
      cases checked
      exact List.forall_mem_nil _
  | reference _ => cases checked
  | write _ part | setRegister _ part | element _ part | append _ part =>
      obtain ⟨inner, innerChecked, same⟩ := bind_eq_ok checked
      cases same
      have inside : inner.Guarded := guarded_ofExpr innerChecked guarded
      exact inside
  | arithmetic _ left right | concat left right | compare _ left right =>
      obtain ⟨first, leftChecked, checked⟩ := bind_eq_ok checked
      obtain ⟨second, rightChecked, same⟩ := bind_eq_ok checked
      cases same
      rw [Expr.tests, List.forall_mem_append] at guarded
      exact List.forall_mem_append.mpr
        ⟨guarded_ofExpr leftChecked guarded.1, guarded_ofExpr rightChecked guarded.2⟩
  | call _ arguments =>
      obtain ⟨inner, innerChecked, same⟩ := bind_eq_ok checked
      cases same
      exact guarded_ofExprs innerChecked guarded
  | builtin _ arguments =>
      obtain ⟨inner, innerChecked, same⟩ := bind_eq_ok checked
      cases same
      exact guarded_ofArguments innerChecked guarded
  | branch condition body =>
      obtain ⟨test, testChecked, checked⟩ := bind_eq_ok checked
      obtain ⟨statements, bodyChecked, same⟩ := bind_eq_ok checked
      cases same
      rw [Expr.tests, List.forall_mem_cons, List.forall_mem_append] at guarded
      obtain ⟨comparison, inTest, inBody⟩ := guarded
      exact List.forall_mem_cons.mpr ⟨isComparison_ofExpr testChecked comparison,
        List.forall_mem_append.mpr
          ⟨guarded_ofExpr testChecked inTest, guarded_ofExprs bodyChecked inBody⟩⟩
  | loop condition increment body =>
      obtain ⟨test, testChecked, checked⟩ := bind_eq_ok checked
      obtain ⟨step, stepChecked, checked⟩ := bind_eq_ok checked
      obtain ⟨statements, bodyChecked, same⟩ := bind_eq_ok checked
      cases same
      rw [Expr.tests, List.forall_mem_cons, List.forall_mem_append,
        List.forall_mem_append] at guarded
      obtain ⟨comparison, ⟨inTest, inStep⟩, inBody⟩ := guarded
      exact List.forall_mem_cons.mpr ⟨isComparison_ofExpr testChecked comparison,
        List.forall_mem_append.mpr ⟨List.forall_mem_append.mpr
          ⟨guarded_ofExpr testChecked inTest, guarded_ofExpr stepChecked inStep⟩,
          guarded_ofExprs bodyChecked inBody⟩⟩

theorem guarded_ofExprs {exprs : List Expr} {codes : List Code}
    (checked : ofExprs exprs = .ok codes)
    (guarded : ∀ test ∈ Expr.testsAll exprs, test.isComparison = true) : GuardedAll codes := by
  cases exprs with
  | nil =>
      cases checked
      exact List.forall_mem_nil _
  | cons expr others =>
      obtain ⟨code, firstChecked, checked⟩ := bind_eq_ok checked
      obtain ⟨rest, restChecked, same⟩ := bind_eq_ok checked
      cases same
      rw [Expr.testsAll, List.forall_mem_append] at guarded
      exact List.forall_mem_append.mpr
        ⟨guarded_ofExpr firstChecked guarded.1, guarded_ofExprs restChecked guarded.2⟩

theorem guarded_ofArguments {exprs : List Expr} {arguments : List (Argument Code)}
    (checked : ofArguments exprs = .ok arguments)
    (guarded : ∀ test ∈ Expr.testsAll exprs, test.isComparison = true) :
    GuardedArguments arguments := by
  cases exprs with
  | nil =>
      cases checked
      exact List.forall_mem_nil _
  | cons expr others =>
      rw [Expr.testsAll, List.forall_mem_append] at guarded
      obtain ⟨argument, rest, same, restChecked, inFirst⟩ := ofArguments_cons checked
      subst same
      refine List.forall_mem_append.mpr ⟨?_, guarded_ofArguments restChecked guarded.2⟩
      obtain ⟨index, same⟩ | ⟨code, same, firstChecked⟩ := inFirst
      · subst same
        exact List.forall_mem_nil _
      · subst same
        exact guarded_ofExpr firstChecked guarded.1

end

/-- The fault of a reference that stands where a value has to be. -/
def StrayReference (fault : BindFault) : Prop :=
  ∃ index, fault = .strayReference index

mutual

theorem failsOnly_ofExpr (expr : Expr) : FailsOnly StrayReference (ofExpr expr) := by
  cases expr with
  | literal _ | read _ | register _ | parameter _ => exact .ok _
  | reference index => exact .error ⟨index, rfl⟩
  | write _ part | setRegister _ part | element _ part | append _ part =>
      exact (failsOnly_ofExpr part).bind fun _ => .ok _
  | arithmetic _ left right | concat left right | compare _ left right =>
      exact (failsOnly_ofExpr left).bind fun _ => (failsOnly_ofExpr right).bind fun _ => .ok _
  | call _ arguments => exact (failsOnly_ofExprs arguments).bind fun _ => .ok _
  | builtin _ arguments => exact (failsOnly_ofArguments arguments).bind fun _ => .ok _
  | branch condition body =>
      exact (failsOnly_ofExpr condition).bind fun _ =>
        (failsOnly_ofExprs body).bind fun _ => .ok _
  | loop condition increment body =>
      exact (failsOnly_ofExpr condition).bind fun _ =>
        (failsOnly_ofExpr increment).bind fun _ =>
          (failsOnly_ofExprs body).bind fun _ => .ok _

theorem failsOnly_ofExprs (exprs : List Expr) : FailsOnly StrayReference (ofExprs exprs) := by
  cases exprs with
  | nil => exact .ok _
  | cons expr others =>
      exact (failsOnly_ofExpr expr).bind fun _ => (failsOnly_ofExprs others).bind fun _ => .ok _

theorem failsOnly_ofArguments (exprs : List Expr) :
    FailsOnly StrayReference (ofArguments exprs) := by
  cases exprs with
  | nil => exact .ok _
  | cons expr others =>
      rw [ofArguments.eq_def]
      split
      · exact .ok _
      · rename_i rest same
        cases same
        exact (failsOnly_ofArguments others).bind fun _ => .ok _
      · rename_i first rest _ same
        cases same
        exact (failsOnly_ofExpr expr).bind fun _ =>
          (failsOnly_ofArguments others).bind fun _ => .ok _

end

end Code

/-! ### From lines to trees -/

namespace Item

/-- The condition of a header is a comparison, and blocks stand nowhere but as
statements. -/
def Guarded : Item → Prop
  | opening (.branch condition) => condition.isComparison = true ∧ condition.plain = true
  | opening (.loop condition increment) =>
      condition.isComparison = true ∧ condition.plain = true ∧ increment.plain = true
  | statement expr => expr.plain = true
  | closing => True

theorem isComparison_of_clause {text : List Char} {phrase : Phrase} {expr : Expr}
    (clause : Phrase.readClause text = .ok phrase) (stands : Expr.ofPhrase phrase = .ok expr) :
    expr.isComparison = true := by
  have level := (Phrase.readClause_eq_ok clause).2
  cases phrase with
  | compare op left right =>
      obtain ⟨first, _, stands⟩ := bind_eq_ok stands
      obtain ⟨second, _, same⟩ := bind_eq_ok stands
      cases same
      rfl
  | _ => cases level

/-- A text that is read as an expression is no header and no blank line. -/
theorem exists_statement {text : List Char} {phrase : Phrase}
    (accepted : Phrase.read text = .ok phrase) :
    ofPhrase phrase = Expr.ofPhrase phrase >>= fun expr => .ok (.statement expr) := by
  have grouped := (Phrase.read_eq_ok_iff.mp accepted).grouped phrase (Phrase.mem_nodes_self phrase)
  cases phrase with
  | ifHeader _ | forHeader _ _ | close => exact absurd grouped id
  | _ => rfl

theorem guarded_of_readLine {line : List Char} {phrase : Phrase} {item : Item}
    (accepted : Phrase.readLine line = .ok phrase) (stands : ofPhrase phrase = .ok item) :
    item.Guarded := by
  rcases Phrase.readLine_eq_ok accepted with ⟨_, _, clause, same⟩ |
    ⟨_, _, _, _, clause, _, same⟩ | same | read
  · subst same
    obtain ⟨condition, lowered, same⟩ := bind_eq_ok stands
    cases same
    exact ⟨isComparison_of_clause clause lowered, (Expr.toPhrase_of_ofPhrase lowered).2⟩
  · subst same
    obtain ⟨condition, lowered, stands⟩ := bind_eq_ok stands
    obtain ⟨increment, stepLowered, same⟩ := bind_eq_ok stands
    cases same
    exact ⟨isComparison_of_clause clause lowered, (Expr.toPhrase_of_ofPhrase lowered).2,
      (Expr.toPhrase_of_ofPhrase stepLowered).2⟩
  · subst same
    cases stands
    trivial
  · rw [exists_statement read] at stands
    obtain ⟨expr, lowered, same⟩ := bind_eq_ok stands
    cases same
    exact (Expr.toPhrase_of_ofPhrase lowered).2

end Item

namespace Expr

mutual

theorem tests_of_items {expr : Expr} (guarded : ∀ item ∈ expr.items, item.Guarded) :
    ∀ test ∈ expr.tests, test.isComparison = true := by
  cases expr with
  | branch condition body =>
      simp only [items, List.cons_append, List.forall_mem_cons, List.forall_mem_append] at guarded
      obtain ⟨⟨comparison, free⟩, inBody, _⟩ := guarded
      rw [tests, tests_of_plain free, List.nil_append]
      exact List.forall_mem_cons.mpr ⟨comparison, tests_of_itemsAll inBody⟩
  | loop condition increment body =>
      simp only [items, List.cons_append, List.forall_mem_cons, List.forall_mem_append] at guarded
      obtain ⟨⟨comparison, free, stepFree⟩, inBody, _⟩ := guarded
      rw [tests, tests_of_plain free, tests_of_plain stepFree, List.nil_append, List.nil_append]
      exact List.forall_mem_cons.mpr ⟨comparison, tests_of_itemsAll inBody⟩
  | _ =>
      rw [tests_of_plain (guarded _ List.mem_cons_self)]
      exact List.forall_mem_nil _

theorem tests_of_itemsAll {exprs : List Expr} (guarded : ∀ item ∈ itemsAll exprs, item.Guarded) :
    ∀ test ∈ testsAll exprs, test.isComparison = true := by
  cases exprs with
  | nil => exact List.forall_mem_nil _
  | cons expr others =>
      rw [itemsAll, List.forall_mem_append] at guarded
      exact List.forall_mem_append.mpr
        ⟨tests_of_items guarded.1, tests_of_itemsAll guarded.2⟩

end

/-- The phrases were read from lines. -/
def OfLines (phrases : List Phrase) : Prop :=
  ∀ phrase ∈ phrases, ∃ line, Phrase.readLine line = .ok phrase

/-- The blocks of a tree that is built from lines have comparisons for conditions. -/
theorem tests_of_build {phrases : List Phrase} {forest : List Expr} (lines : OfLines phrases)
    (built : (build phrases).result = .ok forest) :
    ∀ test ∈ testsAll forest, test.isComparison = true := by
  apply tests_of_itemsAll
  intro item member
  obtain ⟨phrase, inside, stands⟩ := (exists_of_mapM (balanced_of_build built).1).2 item member
  obtain ⟨line, accepted⟩ := lines phrase inside
  exact Item.guarded_of_readLine accepted stands

/-! ### Faults of a tree -/

/-- The error of a phrase that assigns a parameter. -/
def AssignsParameter (error : Error) : Prop :=
  ∃ name, error = .bind [] (.assignedParameter name)

mutual

/-- A phrase that was read from a text fails to stand for an expression only by
assigning a parameter. -/
theorem failsOnly_ofPhrase {phrase : Phrase} (grouped : ∀ node ∈ phrase.nodes, node.Grouped) :
    FailsOnly AssignsParameter (ofPhrase phrase) := by
  cases phrase with
  | literal _ | entry _ | register _ | parameter _ | reference _ => exact .ok _
  | ifHeader _ | forHeader _ _ | close => exact absurd (grouped _ (Phrase.mem_nodes_self _)) id
  | element _ part =>
      rw [Phrase.nodes, List.forall_mem_cons] at grouped
      exact (failsOnly_ofPhrase grouped.2).bind fun _ => .ok _
  | assign target value =>
      rw [Phrase.nodes, List.forall_mem_cons] at grouped
      apply (failsOnly_ofPhrase grouped.2).bind
      intro expr
      cases target with
      | parameter name => exact .error ⟨name, rfl⟩
      | _ => exact .ok _
  | arithmetic _ left right | compare _ left right | concat left right =>
      rw [Phrase.nodes, List.forall_mem_cons, List.forall_mem_append] at grouped
      exact (failsOnly_ofPhrase grouped.2.1).bind fun _ =>
        (failsOnly_ofPhrase grouped.2.2).bind fun _ => .ok _
  | call _ arguments | builtin _ arguments =>
      rw [Phrase.nodes, List.forall_mem_cons] at grouped
      exact (failsOnly_ofPhrases grouped.2).bind fun _ => .ok _

theorem failsOnly_ofPhrases {phrases : List Phrase}
    (grouped : ∀ node ∈ Phrase.nodesAll phrases, node.Grouped) :
    FailsOnly AssignsParameter (ofPhrases phrases) := by
  cases phrases with
  | nil => exact .ok _
  | cons phrase others =>
      rw [Phrase.nodesAll, List.forall_mem_append] at grouped
      exact (failsOnly_ofPhrase grouped.1).bind fun _ =>
        (failsOnly_ofPhrases grouped.2).bind fun _ => .ok _

end

theorem failsOnly_of_read {text : List Char} {phrase : Phrase}
    (accepted : Phrase.read text = .ok phrase) : FailsOnly AssignsParameter (ofPhrase phrase) :=
  failsOnly_ofPhrase (Phrase.read_eq_ok_iff.mp accepted).grouped

end Expr

theorem Item.failsOnly_of_readLine {line : List Char} {phrase : Phrase}
    (accepted : Phrase.readLine line = .ok phrase) :
    FailsOnly Expr.AssignsParameter (ofPhrase phrase) := by
  rcases Phrase.readLine_eq_ok accepted with ⟨_, _, clause, same⟩ |
    ⟨_, _, _, _, clause, step, same⟩ | same | read
  · subst same
    exact (Expr.failsOnly_of_read (Phrase.readClause_eq_ok clause).1).bind fun _ => .ok _
  · subst same
    exact (Expr.failsOnly_of_read (Phrase.readClause_eq_ok clause).1).bind fun _ =>
      (Expr.failsOnly_of_read step).bind fun _ => .ok _
  · subst same
    exact .ok _
  · rw [exists_statement read]
    exact (Expr.failsOnly_of_read read).bind fun _ => .ok _

namespace Block

/-- Taking phrases into a stack that stands leads to one that stands. -/
theorem Standing.reached {room : Nat} {blocks after : List Block} (standing : Standing room blocks)
    {phrases : List Phrase} (taken : (Block.takeAll blocks phrases).result = .ok after) :
    ∃ later, Standing later after := by
  obtain ⟨⟨items, stand⟩, covered⟩ := standing.of_takeAll taken
  obtain ⟨later, reached, again, remains, _⟩ := standing.takeAll stand covered
  rw [taken] at again
  cases again
  exact ⟨later, remains⟩

/-- A stack that stands refuses phrases for a closing without a block, or for a
phrase that stands for nothing. -/
theorem Standing.takeAll_eq_error {room : Nat} {blocks : List Block}
    (standing : Standing room blocks) {phrases : List Phrase} {error : Error}
    (refused : (Block.takeAll blocks phrases).result = .error error) :
    error = .tree [] .strayClose ∨ ∃ phrase ∈ phrases, Item.ofPhrase phrase = .error error := by
  induction phrases generalizing room blocks with
  | nil => cases refused
  | cons phrase others continued =>
      rw [result_takeAll_cons] at refused
      cases stands : Item.ofPhrase phrase with
      | error fault =>
          rw [take_eq_bind, stands] at refused
          cases refused
          exact .inr ⟨phrase, List.mem_cons_self, stands⟩
      | ok item =>
          obtain ⟨_, _, stopped⟩ | ⟨later, next, taken, standing, _⟩ := standing.take stands
          · rw [stopped] at refused
            cases refused
            exact .inl rfl
          · rw [taken] at refused
            obtain stray | ⟨faulty, inside, stands⟩ := continued standing refused
            · exact .inl stray
            · exact .inr ⟨faulty, List.mem_cons_of_mem phrase inside, stands⟩

end Block

/-- The faults for which the tree of a body that was read from lines is refused. -/
theorem Expr.build_eq_error {phrases : List Phrase} {error : Error} (lines : OfLines phrases)
    (refused : (build phrases).result = .error error) :
    error = .tree [] .strayClose ∨ (∃ count, error = .tree [] (.openBlocks count)) ∨
      AssignsParameter error := by
  rw [result_build] at refused
  have bottom := Block.Standing.bottom []
  obtain refused | ⟨blocks, taken, refused⟩ := bind_eq_error refused
  · obtain stray | ⟨phrase, inside, stands⟩ := bottom.takeAll_eq_error refused
    · exact .inl stray
    · obtain ⟨line, accepted⟩ := lines phrase inside
      exact .inr (.inr (Item.failsOnly_of_readLine accepted error stands))
  · obtain ⟨room, standing⟩ := bottom.reached taken
    cases room with
    | zero =>
        cases standing
        cases refused
    | succ room =>
        rw [standing.finish] at refused
        cases refused
        exact .inr (.inl ⟨_, rfl⟩)

end TableScript
