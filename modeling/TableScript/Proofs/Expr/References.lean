import TableScript.Proofs.Traversal
import TableScript.State.Declare

namespace TableScript

/-! References to arrays.  A reference is no value, so code has room for one only
directly among the arguments of a built-in function.  An expression is refused if
and only if a reference stands anywhere else in it, and the fault names the first
of these from left to right. -/

/-! ### Where references stand -/

namespace Expr

/-- The parts of an expression in the order in which they are checked; those of a
loop are its condition, its increment and its body. -/
def parts : Expr → List Expr
  | literal _ | read _ | register _ | parameter _ | reference _ => []
  | write _ part | setRegister _ part | element _ part | append _ part => [part]
  | arithmetic _ left right | concat left right | compare _ left right => [left, right]
  | call _ arguments | builtin _ arguments => arguments
  | branch condition body => condition :: body
  | loop condition increment body => condition :: increment :: body

/-- What a path leads to.  Each of its steps is the number of a part. -/
def at? : Expr → List Nat → Option Expr
  | expr, [] => some expr
  | expr, step :: path => expr.parts[step]?.bind fun part => part.at? path

/-- The path leads to a reference, which is no direct argument of a built-in
function. -/
def Misplaced (expr : Expr) (path : List Nat) (index : String) : Prop :=
  expr.at? path = some (.reference index) ∧
    ∀ front step name arguments, path = front ++ [step] →
      expr.at? front ≠ some (.builtin name arguments)

/-- The misplaced reference comes before all others.  Paths are compared step by step,
so that of two paths the one that turns to the left comes first. -/
structure FirstMisplaced (expr : Expr) (path : List Nat) (index : String) : Prop where
  misplaced : expr.Misplaced path index
  first : ∀ other name, expr.Misplaced other name → path = other ∨ List.Lex (· < ·) path other

/-- Whether a part may stand where it does although it is a reference. -/
def admits : Expr → Expr → Bool
  | builtin _ _, reference _ => true
  | _, _ => false

variable {expr part : Expr} {path : List Nat} {index : String}

theorem misplaced_nil : expr.Misplaced [] index ↔ expr = .reference index := by
  constructor
  · intro misplaced
    exact Option.some.inj misplaced.1
  · intro same
    subst same
    refine ⟨rfl, ?_⟩
    intro front step name arguments split
    cases front <;> cases split

/-- A reference below an expression is misplaced if it is so in the part it stands
in, unless that part is itself a reference and may be one. -/
theorem misplaced_cons {step : Nat} :
    expr.Misplaced (step :: path) index ↔
      ∃ part, expr.parts[step]? = some part ∧ expr.admits part = false ∧
        part.Misplaced path index := by
  constructor
  · intro misplaced
    obtain ⟨reached, free⟩ := misplaced
    obtain ⟨part, found, reached⟩ := Option.bind_eq_some_iff.mp reached
    refine ⟨part, found, ?_, reached, ?_⟩
    · unfold admits
      split
      · cases path with
        | nil => exact absurd rfl (free [] step _ _ rfl)
        | cons next path => cases reached
      · rfl
    · intro front last name arguments split
      have above := free (step :: front) last name arguments (by rw [split]; rfl)
      intro builtin
      exact above (Option.bind_eq_some_iff.mpr ⟨part, found, builtin⟩)
  · intro inside
    obtain ⟨part, found, refused, reached, free⟩ := inside
    refine ⟨Option.bind_eq_some_iff.mpr ⟨part, found, reached⟩, ?_⟩
    intro front last name arguments split above
    cases front with
    | nil =>
        cases split
        cases Option.some.inj above
        cases Option.some.inj reached
        cases refused
    | cons first front =>
        cases split
        obtain ⟨same, again, above⟩ := Option.bind_eq_some_iff.mp above
        cases found.symm.trans again
        exact free front last name arguments rfl above

end Expr

/-! ### Faults of parts -/

section

variable {ε α β : Type}

/-- The fault of work that failed. -/
def fault? : Except ε α → Option ε
  | .error fault => some fault
  | .ok _ => none

theorem fault?_eq_some_iff {result : Except ε α} {fault : ε} :
    fault? result = some fault ↔ result = .error fault := by
  cases result <;> simp [fault?]

theorem fault?_eq_none_iff {result : Except ε α} :
    fault? result = none ↔ ∃ value, result = .ok value := by
  cases result <;> simp [fault?]

/-- Work in two stages fails for the first stage, or else for the second. -/
theorem fault?_bind {first : Except ε α} {next : α → Except ε β} {rest : Option ε}
    (later : ∀ value, fault? (next value) = rest) :
    fault? (first >>= next) = (fault? first).or rest := by
  cases first with
  | error fault => rfl
  | ok value => exact later value

theorem fault?_bind_pure {first : Except ε α} (finish : α → β) :
    fault? (first >>= fun value => pure (finish value)) = fault? first := by
  cases first <;> rfl

end

theorem findSome?_cons_or {α β : Type} (search : α → Option β) (item : α) (rest : List α) :
    (item :: rest).findSome? search = (search item).or (rest.findSome? search) := by
  rw [List.findSome?_cons]
  cases search item <;> rfl

namespace Code

theorem fault?_ofExprs (exprs : List Expr) :
    fault? (ofExprs exprs) = exprs.findSome? fun part => fault? (ofExpr part) := by
  induction exprs with
  | nil => rfl
  | cons expr others continued =>
      rw [ofExprs, findSome?_cons_or, ← continued]
      exact fault?_bind fun _ => fault?_bind_pure _

theorem fault?_ofArguments (name : String) (exprs arguments : List Expr) :
    fault? (ofArguments exprs) = exprs.findSome? fun part =>
      if (Expr.builtin name arguments).admits part then none else fault? (ofExpr part) := by
  induction exprs with
  | nil => rfl
  | cons expr others continued =>
      rw [findSome?_cons_or, ← continued, ofArguments.eq_def]
      split
      · rename_i absent
        cases absent
      · rename_i same
        cases same
        exact fault?_bind_pure _
      · rename_i plain same
        cases same
        have refused : (Expr.builtin name arguments).admits expr = false := by
          cases expr with
          | reference index => exact absurd rfl (plain index)
          | _ => rfl
        rw [refused]
        exact fault?_bind fun _ => fault?_bind_pure _

/-- An expression that is no reference itself is refused for the first of its parts
that is. -/
theorem fault?_ofExpr {expr : Expr} (plain : ∀ index, expr ≠ .reference index) :
    fault? (ofExpr expr) = expr.parts.findSome? fun part =>
      if expr.admits part then none else fault? (ofExpr part) := by
  cases expr with
  | literal _ | read _ | register _ | parameter _ => rfl
  | reference index => exact absurd rfl (plain index)
  | write _ part | setRegister _ part | element _ part | append _ part =>
      rw [ofExpr, fault?_bind_pure, Expr.parts, findSome?_cons_or, List.findSome?_nil,
        Option.or_none]
      rfl
  | arithmetic _ left right | concat left right | compare _ left right =>
      rw [ofExpr, fault?_bind fun _ => fault?_bind_pure _, Expr.parts, findSome?_cons_or,
        findSome?_cons_or, List.findSome?_nil, Option.or_none]
      rfl
  | call _ arguments =>
      rw [ofExpr, fault?_bind_pure, fault?_ofExprs]
      rfl
  | builtin name arguments =>
      rw [ofExpr, fault?_bind_pure, fault?_ofArguments name arguments arguments]
      rfl
  | branch condition body =>
      rw [ofExpr, fault?_bind fun _ => fault?_bind_pure _, fault?_ofExprs, Expr.parts,
        findSome?_cons_or]
      rfl
  | loop condition increment body =>
      rw [ofExpr, fault?_bind fun _ => fault?_bind fun _ => fault?_bind_pure _, fault?_ofExprs,
        Expr.parts, findSome?_cons_or, findSome?_cons_or]
      rfl

end Code

/-! ### Expressions that are refused -/

namespace Expr

/-- An expression is accepted without a misplaced reference, and refused for the
first one otherwise. -/
def Judged (expr : Expr) : Option BindFault → Prop
  | none => ∀ path index, ¬ expr.Misplaced path index
  | some fault =>
      ∃ path index, expr.FirstMisplaced path index ∧ fault = .strayReference index

theorem judged_reference (index : String) :
    (Expr.reference index).Judged (fault? (Code.ofExpr (.reference index))) := by
  refine ⟨[], index, ⟨misplaced_nil.mpr rfl, ?_⟩, rfl⟩
  intro other name _
  cases other with
  | nil => exact .inl rfl
  | cons step rest => exact .inr .nil

/-- The verdict on an expression follows from the verdicts on its parts. -/
theorem judged_of_parts {expr : Expr} (plain : ∀ index, expr ≠ .reference index)
    (judged : ∀ part ∈ expr.parts, part.Judged (fault? (Code.ofExpr part))) :
    expr.Judged (fault? (Code.ofExpr expr)) := by
  -- A part without a fault of its own, or which may be a reference, has no misplaced ones.
  have clear {part : Expr} (member : part ∈ expr.parts)
      (free : (if expr.admits part then none else fault? (Code.ofExpr part)) = none)
      (refused : expr.admits part = false) (path : List Nat) (index : String) :
      ¬ part.Misplaced path index := by
    rw [refused] at free
    have verdict := judged part member
    rw [show fault? (Code.ofExpr part) = none from free] at verdict
    exact verdict path index
  rw [Code.fault?_ofExpr plain]
  cases sought : expr.parts.findSome? fun part =>
      if expr.admits part then none else fault? (Code.ofExpr part) with
  | none =>
      intro path index misplaced
      cases path with
      | nil => exact plain index (misplaced_nil.mp misplaced)
      | cons step path =>
          obtain ⟨part, found, refused, misplaced⟩ := misplaced_cons.mp misplaced
          have member := List.mem_of_getElem? found
          have free := List.findSome?_eq_none_iff.mp sought part member
          exact clear member free refused path index misplaced
  | some fault =>
      obtain ⟨before, part, after, split, faulty, earlier⟩ :=
        List.findSome?_eq_some_iff.mp sought
      have member : part ∈ expr.parts := by simp [split]
      have found : expr.parts[before.length]? = some part := by simp [split]
      have refused : expr.admits part = false := by
        cases admitted : expr.admits part with
        | false => rfl
        | true =>
            rw [admitted] at faulty
            cases faulty
      rw [refused] at faulty
      have verdict := judged part member
      rw [show fault? (Code.ofExpr part) = some fault from faulty] at verdict
      obtain ⟨path, index, ⟨misplaced, first⟩, same⟩ := verdict
      refine ⟨before.length :: path, index,
        ⟨misplaced_cons.mpr ⟨part, found, refused, misplaced⟩, ?_⟩, same⟩
      intro other name elsewhere
      cases other with
      | nil => exact absurd (misplaced_nil.mp elsewhere) (plain name)
      | cons step rest =>
          obtain ⟨there, reached, refused, elsewhere⟩ := misplaced_cons.mp elsewhere
          rcases Nat.lt_trichotomy before.length step with later | same | sooner
          · exact .inr (.rel later)
          · subst same
            cases found.symm.trans reached
            rcases first rest name elsewhere with rfl | behind
            · exact .inl rfl
            · exact .inr (.cons behind)
          · rw [split, List.getElem?_append_left sooner] at reached
            have inFront := List.mem_of_getElem? reached
            have member : there ∈ expr.parts := by simp [split, inFront]
            exact absurd elsewhere (clear member (earlier there inFront) refused rest name)

mutual

theorem judged_ofExpr (expr : Expr) : expr.Judged (fault? (Code.ofExpr expr)) := by
  cases expr with
  | reference index => exact judged_reference index
  | literal _ | read _ | register _ | parameter _ =>
      exact judged_of_parts nofun (List.forall_mem_nil _)
  | write _ part | setRegister _ part | element _ part | append _ part =>
      exact judged_of_parts nofun (List.forall_mem_singleton.mpr (judged_ofExpr part))
  | arithmetic _ left right | concat left right | compare _ left right =>
      exact judged_of_parts nofun (List.forall_mem_cons.mpr
        ⟨judged_ofExpr left, List.forall_mem_singleton.mpr (judged_ofExpr right)⟩)
  | call _ arguments | builtin _ arguments =>
      exact judged_of_parts nofun (judged_ofExprs arguments)
  | branch condition body =>
      exact judged_of_parts nofun
        (List.forall_mem_cons.mpr ⟨judged_ofExpr condition, judged_ofExprs body⟩)
  | loop condition increment body =>
      exact judged_of_parts nofun (List.forall_mem_cons.mpr ⟨judged_ofExpr condition,
        List.forall_mem_cons.mpr ⟨judged_ofExpr increment, judged_ofExprs body⟩⟩)

theorem judged_ofExprs (exprs : List Expr) :
    ∀ part ∈ exprs, part.Judged (fault? (Code.ofExpr part)) := by
  cases exprs with
  | nil => exact List.forall_mem_nil _
  | cons expr others =>
      exact List.forall_mem_cons.mpr ⟨judged_ofExpr expr, judged_ofExprs others⟩

end

theorem FirstMisplaced.unique {expr : Expr} {path other : List Nat} {index name : String}
    (one : expr.FirstMisplaced path index) (two : expr.FirstMisplaced other name) :
    index = name := by
  have same : path = other := by
    rcases one.first _ _ two.misplaced with same | sooner
    · exact same
    · rcases two.first _ _ one.misplaced with same | later
      · exact same.symm
      · exact absurd later (List.lt_asymm sooner)
  subst same
  have reference := one.misplaced.1.symm.trans two.misplaced.1
  cases reference
  rfl

end Expr

namespace Code

variable {expr : Expr}

theorem exists_ofExpr_iff :
    (∃ code, ofExpr expr = .ok code) ↔ ∀ path index, ¬ expr.Misplaced path index := by
  have verdict := expr.judged_ofExpr
  rw [← fault?_eq_none_iff]
  constructor
  · intro accepted
    rw [accepted] at verdict
    exact verdict
  · intro clear
    cases refused : fault? (ofExpr expr) with
    | none => rfl
    | some fault =>
        rw [refused] at verdict
        obtain ⟨path, index, first, _⟩ := verdict
        exact absurd first.misplaced (clear path index)

theorem ofExpr_eq_error_iff {fault : BindFault} :
    ofExpr expr = .error fault ↔
      ∃ path index, expr.FirstMisplaced path index ∧ fault = .strayReference index := by
  have verdict := expr.judged_ofExpr
  rw [← fault?_eq_some_iff]
  constructor
  · intro refused
    rw [refused] at verdict
    exact verdict
  · intro named
    obtain ⟨path, index, first, same⟩ := named
    cases refused : fault? (ofExpr expr) with
    | none =>
        rw [refused] at verdict
        exact absurd first.misplaced (verdict path index)
    | some other =>
        rw [refused] at verdict
        obtain ⟨_, _, again, other⟩ := verdict
        rw [same, other, first.unique again]

theorem exists_ofExprs_iff {exprs : List Expr} :
    (∃ codes, ofExprs exprs = .ok codes) ↔
      ∀ expr ∈ exprs, ∀ path index, ¬ expr.Misplaced path index := by
  rw [← fault?_eq_none_iff, fault?_ofExprs, List.findSome?_eq_none_iff]
  refine forall₂_congr fun expr _ => ?_
  rw [fault?_eq_none_iff, exists_ofExpr_iff]

end Code

theorem State.defineFunction_accepts_iff (state : State) (index : String) (tree : FunctionTree) :
    (state.defineFunction index tree).1 = .ok () ↔
      ∃ body, Code.ofExprs tree.body = .ok body := by
  simp only [defineFunction, FunctionTree.compile]
  cases Code.ofExprs tree.body <;> simp

/-- Compiling refuses exactly the misplaced references.  An expression is refused if
and only if it has one, at any depth, and the fault names the first of them from left
to right; whether a function can be defined does not depend on what is there
already. -/
theorem misplaced_references_refused :
    (∀ expr : Expr,
      (∃ fault, Code.ofExpr expr = .error fault) ↔ ∃ path index, expr.Misplaced path index) ∧
    (∀ (expr : Expr) (fault : BindFault),
      Code.ofExpr expr = .error fault ↔
        ∃ path index, expr.FirstMisplaced path index ∧ fault = .strayReference index) ∧
    (∀ index : String, (Error.bind [] (.strayReference index)).message =
      "Bind Error: " ++ s!"Reference &[{index}] is only allowed as a built-in argument") ∧
    ∀ (state : State) (index : String) (tree : FunctionTree),
      (state.defineFunction index tree).1 = .ok () ↔
        ∀ expr ∈ tree.body, ∀ path name, ¬ expr.Misplaced path name := by
  refine ⟨?_, fun expr fault => Code.ofExpr_eq_error_iff, ?_, ?_⟩
  · intro expr
    constructor
    · intro failed
      obtain ⟨fault, refused⟩ := failed
      obtain ⟨path, index, first, _⟩ := Code.ofExpr_eq_error_iff.mp refused
      exact ⟨path, index, first.misplaced⟩
    · intro present
      obtain ⟨path, index, misplaced⟩ := present
      cases checked : Code.ofExpr expr with
      | ok code => exact absurd misplaced (Code.exists_ofExpr_iff.mp ⟨code, checked⟩ path index)
      | error fault => exact ⟨fault, rfl⟩
  · intro index
    exact congrArg ("Bind Error: " ++ ·) String.empty_append
  · intro state index tree
    rw [State.defineFunction_accepts_iff, Code.exists_ofExprs_iff]

/-- A loop with references in its condition, its increment and its body, of which `a`
and `b` are direct arguments of built-in functions. -/
def nestedReferences : Expr :=
  .loop (.compare .less (.builtin "size" [.reference "a"]) (.literal "3"))
    (.builtin "out" [.reference "b", .concat (.reference "c") (.literal "x")])
    [.call (.entry "f") [.reference "d"]]

/-- The argument of the built-in function has room for `b`, but not for the `c`
inside of the other one, which comes before the `d` in the body. -/
theorem misplaced_references_refused_nested :
    Code.ofExpr nestedReferences = .error (.strayReference "c") ∧
      (∃ path, nestedReferences.FirstMisplaced path "c") ∧
      ∀ state : State, (state.defineFunction "g" ⟨"g", [], [nestedReferences], 1⟩).1 ≠ .ok () := by
  obtain ⟨refused, named, _, defined⟩ := misplaced_references_refused
  have fault : Code.ofExpr nestedReferences = .error (.strayReference "c") := rfl
  refine ⟨fault, ?_, ?_⟩
  · obtain ⟨path, index, first, same⟩ := (named _ _).mp fault
    cases same
    exact ⟨path, first⟩
  · intro state accepted
    obtain ⟨path, index, misplaced⟩ := (refused nestedReferences).mp ⟨_, fault⟩
    exact (defined _ _ _).mp accepted _ List.mem_cons_self path index misplaced

end TableScript
