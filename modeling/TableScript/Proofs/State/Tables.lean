import TableScript.Proofs.Program.Stages
import TableScript.Proofs.Run.Isolation

namespace TableScript

/-! What declarations make of a store.  They are entered one after the other, but
each table ends up with the last declaration of its kind under every index, so
only the order of declarations that compete for the same place counts. -/

/-- What one of the tables of a store holds under an index. -/
inductive Entry where
  | scalar (value : String)
  | array (items : List String)
  | object (object : Store)
  | function (routine : Routine)

def Entry.kind : Entry → Kind
  | scalar _ => .scalar
  | array _ => .array
  | object _ => .object
  | function _ => .function

namespace Store

/-- The four tables that declarations fill, as one. -/
def entry (store : Store) : Kind → String → Option Entry
  | .scalar, index => (store.scalars.get? index).map .scalar
  | .array, index => (store.arrays.get? index).map .array
  | .object, index => (store.objects.get? index).map .object
  | .function, index => (store.functions.get? index).map .function

def enter (store : Store) (index : String) : Entry → Store
  | .scalar value => store.setScalar index value
  | .array items => store.setArray index items
  | .object object => store.setObject index object
  | .function routine => store.setFunction index routine

theorem entry_enter (store : Store) (index : String) (held : Entry) (kind : Kind)
    (sought : String) :
    (store.enter index held).entry kind sought =
      if kind = held.kind ∧ sought = index then some held else store.entry kind sought := by
  cases held <;> cases kind <;> by_cases here : sought = index <;>
    simp [enter, entry, Entry.kind, setScalar, setArray, setObject, setFunction,
      Table.get?_insert, here]

@[simp] theorem enter_registers (store : Store) (index : String) (held : Entry) :
    (store.enter index held).registers = store.registers := by
  cases held <;> rfl

@[simp] theorem enter_scopes (store : Store) (index : String) (held : Entry) :
    (store.enter index held).scopes = store.scopes := by
  cases held <;> rfl

/-- No lookup tells the stores apart, in the stores themselves or in the objects at
the end of any path. -/
def Interchangeable (first second : Store) : Prop :=
  ∀ path, ((first.follow path).map fun reached => (reached.contents, reached.scopes)) =
    (second.follow path).map fun reached => (reached.contents, reached.scopes)

theorem interchangeable_of_entries {first second : Store}
    (entries : ∀ kind index, first.entry kind index = second.entry kind index)
    (registers : first.registers = second.registers) (scopes : first.scopes = second.scopes) :
    first.Interchangeable second := by
  have scalars (index : String) : first.scalars.get? index = second.scalars.get? index :=
    Option.map_injective (fun _ _ => Entry.scalar.inj) (entries .scalar index)
  have arrays (index : String) : first.arrays.get? index = second.arrays.get? index :=
    Option.map_injective (fun _ _ => Entry.array.inj) (entries .array index)
  have objects (index : String) : first.objects.get? index = second.objects.get? index :=
    Option.map_injective (fun _ _ => Entry.object.inj) (entries .object index)
  have functions (index : String) : first.functions.get? index = second.functions.get? index :=
    Option.map_injective (fun _ _ => Entry.function.inj) (entries .function index)
  intro path
  cases path with
  | nil =>
      have contents : first.contents = second.contents := by
        simp only [Store.contents, funext scalars, funext arrays, funext functions, registers]
      exact congrArg Except.ok (Prod.ext contents scopes)
  | cons index path => simp only [follow, object, objects index]

end Store

/-! ### Which declaration counts -/

namespace Declaration

variable {φ : Type}

theorem lastOf?_cons (declaration : Declaration φ) (others : List (Declaration φ)) (kind : Kind)
    (index : String) :
    lastOf? (declaration :: others) kind index =
      (lastOf? others kind index).or
        (if kind = declaration.kind ∧ index = declaration.index then some declaration
          else none) := by
  simp only [lastOf?, List.reverse_cons, List.find?_append, List.find?_singleton,
    Bool.and_eq_true, beq_iff_eq]
  congr 2
  simp only [eq_comm, and_comm]

theorem mem_of_lastOf? {declarations : List (Declaration φ)} {kind : Kind} {index : String}
    {declaration : Declaration φ} (last : lastOf? declarations kind index = some declaration) :
    declaration ∈ declarations :=
  List.mem_reverse.mp (List.mem_of_find?_eq_some last)

/-- The second list is the first in another order, except that declarations of one
kind under one index stay in their order. -/
def Rearranged (first second : List (Declaration φ)) : Prop :=
  first.Perm second ∧ ∀ kind index,
    (first.filter fun declaration => declaration.index == index && declaration.kind == kind) =
      second.filter fun declaration => declaration.index == index && declaration.kind == kind

theorem Rearranged.lastOf?_eq {first second : List (Declaration φ)}
    (rearranged : Rearranged first second) (kind : Kind) (index : String) :
    lastOf? first kind index = lastOf? second kind index := by
  have same := congrArg (fun found => found.reverse.head?) (rearranged.2 kind index)
  simp only [← List.filter_reverse, List.head?_filter] at same
  exact same

theorem mem_functionsAll {declarations : List (Declaration φ)} {found : String × φ} :
    found ∈ functionsAll declarations ↔
      ∃ declaration ∈ declarations, found ∈ declaration.functions := by
  induction declarations with
  | nil => simp [functionsAll]
  | cons declaration others continued => simp [functionsAll, continued]

/-- Every function among the declarations, at any depth of objects, compiles. -/
def AllCompile (declarations : List (Declaration FunctionTree)) : Prop :=
  ∀ found ∈ functionsAll declarations, ∃ routine, found.2.compile = .ok routine

theorem allCompile_cons {declaration : Declaration FunctionTree}
    {others : List (Declaration FunctionTree)} :
    AllCompile (declaration :: others) ↔ AllCompile [declaration] ∧ AllCompile others := by
  simp only [AllCompile, functionsAll, List.append_nil, List.forall_mem_append]

theorem Rearranged.allCompile_iff {first second : List (Declaration FunctionTree)}
    (rearranged : Rearranged first second) : AllCompile first ↔ AllCompile second := by
  simp only [AllCompile, mem_functionsAll, rearranged.1.mem_iff]

end Declaration

/-- The session is the same but for the journal. -/
structure Session.Undisturbed (before after : Session) : Prop where
  output : after.output = before.output
  depth : after.depth = before.depth
  limit : after.limit = before.limit

namespace State

open Declaration

theorem declareAll_eq_ok_iff (declarations : List (Declaration FunctionTree)) (state : State) :
    (declareAll declarations state).1 = .ok () ↔ AllCompile declarations := by
  rw [result_declareAll]
  constructor
  · intro accepted
    obtain ⟨routines, compiled, _⟩ := map_eq_ok accepted
    intro found member
    exact (exists_of_mapM compiled).1 found.2 (List.mem_map_of_mem member)
  · intro compiles
    cases compiled : ((functionsAll declarations).map Prod.snd).mapM FunctionTree.compile with
    | ok routines => rfl
    | error error =>
        obtain ⟨tree, first⟩ := firstFailure_of_mapM compiled
        obtain ⟨found, member, rfl⟩ := List.mem_map.mp first.mem
        obtain ⟨routine, made⟩ := compiles found member
        rw [first.failed] at made
        cases made

theorem declare_eq_ok_iff (declaration : Declaration FunctionTree) (state : State) :
    (declare declaration state).1 = .ok () ↔ AllCompile [declaration] := by
  rw [← declareAll_eq_ok_iff [declaration] state, result_declare, result_declareAll, functionsAll,
    functionsAll, List.append_nil]

/-! ### One declaration -/

section

variable {declaration : Declaration FunctionTree} {members : List (Declaration FunctionTree)}
  {index : String} {line : Nat} {state : State} {error : Error}

theorem declare_object_accepted
    (accepted : (declareAll members ⟨.fresh, state.session⟩).1 = .ok ()) :
    declare (.object index line members) state =
      (.ok (), leaveObject state.store index
        ((declareAll members ⟨.fresh, state.session⟩).2.note (.objectCompiled index))) := by
  simp only [declare]
  split <;> rename_i entered <;> rw [entered] at accepted ⊢
  cases accepted

theorem declare_object_refused
    (refused : (declareAll members ⟨.fresh, state.session⟩).1 = .error error) :
    declare (.object index line members) state =
      (.error error,
        ⟨state.store, (declareAll members ⟨.fresh, state.session⟩).2.session⟩) := by
  simp only [declare]
  split <;> rename_i entered <;> rw [entered] at refused ⊢ <;> cases refused
  rfl

theorem declareAll_cons_accepted (accepted : (declare declaration state).1 = .ok ())
    (others : List (Declaration FunctionTree)) :
    declareAll (declaration :: others) state = declareAll others (declare declaration state).2 := by
  simp only [declareAll]
  split <;> rename_i entered <;> rw [entered] at accepted ⊢
  cases accepted

theorem declareAll_cons_refused (refused : (declare declaration state).1 = .error error)
    (others : List (Declaration FunctionTree)) :
    declareAll (declaration :: others) state =
      (.error error, (declare declaration state).2) := by
  simp only [declareAll]
  split <;> rename_i entered <;> rw [entered] at refused ⊢ <;> cases refused
  rfl

end

mutual

/-- What is entered does not depend on the session. -/
theorem store_declare (declaration : Declaration FunctionTree) (first second : State)
    (same : first.store = second.store) :
    (declare declaration first).2.store = (declare declaration second).2.store := by
  cases declaration with
  | scalar index line value => exact congrArg (Store.setScalar · index value) same
  | array index line items => exact congrArg (Store.setArray · index items) same
  | object index line members =>
      have inner := store_declareAll members ⟨.fresh, first.session⟩ ⟨.fresh, second.session⟩ rfl
      have results : (declareAll members ⟨.fresh, first.session⟩).1 =
          (declareAll members ⟨.fresh, second.session⟩).1 := by
        rw [result_declareAll, result_declareAll]
      cases entered : (declareAll members ⟨.fresh, second.session⟩).1 with
      | error error =>
          rw [declare_object_refused entered, declare_object_refused (results.trans entered)]
          exact same
      | ok done =>
          rw [declare_object_accepted entered, declare_object_accepted (results.trans entered)]
          simp only [leaveObject, note, inner, same]
  | function index line tree =>
      simp only [declare, defineFunction]
      cases tree.compile with
      | error error => exact same
      | ok routine => exact congrArg (Store.setFunction · index routine) same

theorem store_declareAll (declarations : List (Declaration FunctionTree)) (first second : State)
    (same : first.store = second.store) :
    (declareAll declarations first).2.store = (declareAll declarations second).2.store := by
  cases declarations with
  | nil => exact same
  | cons declaration others =>
      have stores := store_declare declaration first second same
      have results : (declare declaration first).1 = (declare declaration second).1 := by
        rw [result_declare, result_declare]
      cases entered : (declare declaration second).1 with
      | error error =>
          rw [declareAll_cons_refused entered, declareAll_cons_refused (results.trans entered)]
          exact stores
      | ok done =>
          rw [declareAll_cons_accepted entered, declareAll_cons_accepted (results.trans entered)]
          exact store_declareAll others _ _ stores

end

mutual

theorem undisturbed_declare (declaration : Declaration FunctionTree) (state : State) :
    state.session.Undisturbed (declare declaration state).2.session := by
  cases declaration with
  | scalar _ _ _ | array _ _ _ => exact ⟨rfl, rfl, rfl⟩
  | object index line members =>
      have inner := undisturbed_declareAll members ⟨.fresh, state.session⟩
      cases entered : (declareAll members ⟨.fresh, state.session⟩).1 with
      | error error =>
          rw [declare_object_refused entered]
          exact inner
      | ok done =>
          rw [declare_object_accepted entered]
          exact ⟨inner.output, inner.depth, inner.limit⟩
  | function index line tree =>
      simp only [declare, defineFunction]
      cases tree.compile <;> exact ⟨rfl, rfl, rfl⟩

theorem undisturbed_declareAll (declarations : List (Declaration FunctionTree)) (state : State) :
    state.session.Undisturbed (declareAll declarations state).2.session := by
  cases declarations with
  | nil => exact ⟨rfl, rfl, rfl⟩
  | cons declaration others =>
      have first := undisturbed_declare declaration state
      cases entered : (declare declaration state).1 with
      | error error =>
          rw [declareAll_cons_refused entered]
          exact first
      | ok done =>
          rw [declareAll_cons_accepted entered]
          have rest := undisturbed_declareAll others (declare declaration state).2
          exact ⟨rest.output.trans first.output, rest.depth.trans first.depth,
            rest.limit.trans first.limit⟩

end

/-- What a declaration enters.  An object is made from nothing but its members. -/
def entered? : Declaration FunctionTree → Option Entry
  | .scalar _ _ value => some (.scalar value)
  | .array _ _ items => some (.array items)
  | .object _ _ members => some (.object (declareAll members (.fresh 0)).2.store)
  | .function _ _ tree => tree.compile.toOption.map .function

theorem declare_accepted {declaration : Declaration FunctionTree} {state : State}
    (accepted : (declare declaration state).1 = .ok ()) :
    ∃ held, entered? declaration = some held ∧ held.kind = declaration.kind ∧
      (declare declaration state).2.store = state.store.enter declaration.index held := by
  cases declaration with
  | scalar index line value => exact ⟨.scalar value, rfl, rfl, rfl⟩
  | array index line items => exact ⟨.array items, rfl, rfl, rfl⟩
  | object index line members =>
      have inner := store_declareAll members ⟨.fresh, state.session⟩ (.fresh 0) rfl
      refine ⟨_, rfl, rfl, ?_⟩
      cases entered : (declareAll members ⟨.fresh, state.session⟩).1 with
      | error error =>
          rw [declare_object_refused entered] at accepted
          cases accepted
      | ok done =>
          rw [declare_object_accepted entered]
          exact congrArg (Store.setObject state.store index) inner
  | function index line tree =>
      simp only [declare, defineFunction] at accepted ⊢
      cases compiled : tree.compile with
      | error error =>
          rw [compiled] at accepted
          cases accepted
      | ok routine =>
          refine ⟨.function routine, ?_, rfl, rfl⟩
          simp only [entered?, compiled]
          rfl

/-- A declaration that is refused enters nothing, not even a part of an object. -/
theorem store_declare_refused {declaration : Declaration FunctionTree} {state : State}
    {error : Error} (refused : (declare declaration state).1 = .error error) :
    (declare declaration state).2.store = state.store := by
  cases declaration with
  | scalar _ _ _ | array _ _ _ => cases refused
  | object index line members =>
      cases entered : (declareAll members ⟨.fresh, state.session⟩).1 with
      | error error => rw [declare_object_refused entered]
      | ok done =>
          rw [declare_object_accepted entered] at refused
          cases refused
  | function index line tree =>
      simp only [declare, defineFunction] at refused ⊢
      cases compiled : tree.compile with
      | error error => rfl
      | ok routine =>
          rw [compiled] at refused
          cases refused

/-! ### All declarations -/

/-- The tables hold the last declaration of each kind under each index. -/
theorem entry_declareAll {declarations : List (Declaration FunctionTree)} {state : State}
    (compiles : AllCompile declarations) (kind : Kind) (index : String) :
    (declareAll declarations state).2.store.entry kind index =
      (lastOf? declarations kind index).elim (state.store.entry kind index) entered? := by
  induction declarations generalizing state with
  | nil => rfl
  | cons declaration others continued =>
      obtain ⟨here, later⟩ := allCompile_cons.mp compiles
      have accepted := (declare_eq_ok_iff declaration state).mpr here
      obtain ⟨held, entered, sameKind, reached⟩ := declare_accepted accepted
      rw [declareAll_cons_accepted accepted, continued later, lastOf?_cons, reached,
        Store.entry_enter, sameKind]
      cases lastOf? others kind index with
      | some later => rfl
      | none =>
          by_cases here : kind = declaration.kind ∧ index = declaration.index
          · simp only [if_pos here, Option.none_or, Option.elim, entered]
          · simp only [if_neg here, Option.none_or, Option.elim]

theorem rest_declareAll {declarations : List (Declaration FunctionTree)} {state : State}
    (compiles : AllCompile declarations) :
    (declareAll declarations state).2.store.registers = state.store.registers ∧
      (declareAll declarations state).2.store.scopes = state.store.scopes := by
  induction declarations generalizing state with
  | nil => exact ⟨rfl, rfl⟩
  | cons declaration others continued =>
      obtain ⟨here, later⟩ := allCompile_cons.mp compiles
      have accepted := (declare_eq_ok_iff declaration state).mpr here
      obtain ⟨held, _, _, reached⟩ := declare_accepted accepted
      have rest := @continued (declare declaration state).2 later
      rw [reached, Store.enter_registers, Store.enter_scopes] at rest
      rw [declareAll_cons_accepted accepted]
      exact rest

theorem declareAll_append {first : List (Declaration FunctionTree)} {state : State}
    (compiles : AllCompile first) (second : List (Declaration FunctionTree)) :
    declareAll (first ++ second) state = declareAll second (declareAll first state).2 := by
  induction first generalizing state with
  | nil => rfl
  | cons declaration others continued =>
      obtain ⟨here, later⟩ := allCompile_cons.mp compiles
      have accepted := (declare_eq_ok_iff declaration state).mpr here
      rw [List.cons_append, declareAll_cons_accepted accepted, continued later,
        declareAll_cons_accepted accepted]

end State

/-! ### The rule -/

mutual

/-- What is held stands for the declaration. -/
inductive Stands : Declaration FunctionTree → Entry → Prop where
  | scalar {index : String} {line : Nat} {value : String} :
      Stands (.scalar index line value) (.scalar value)
  | array {index : String} {line : Nat} {items : List String} :
      Stands (.array index line items) (.array items)
  | object {index : String} {line : Nat} {members : List (Declaration FunctionTree)}
      {object : Store} (filled : Filled members .fresh object) :
      Stands (.object index line members) (.object object)
  | function {index : String} {line : Nat} {tree : FunctionTree} {routine : Routine}
      (compiled : tree.compile = .ok routine) :
      Stands (.function index line tree) (.function routine)

/-- Under every index the tables of the store `after` hold what stands for the last
declaration of their kind, or what they held `before` if there is none. -/
inductive Filled : List (Declaration FunctionTree) → Store → Store → Prop where
  | intro {declarations : List (Declaration FunctionTree)} {before after : Store}
      (declared : ∀ kind index declaration,
        Declaration.lastOf? declarations kind index = some declaration →
        Option.Rel Stands (some declaration) (after.entry kind index))
      (kept : ∀ kind index, Declaration.lastOf? declarations kind index = none →
        after.entry kind index = before.entry kind index)
      (registers : after.registers = before.registers)
      (scopes : after.scopes = before.scopes) :
      Filled declarations before after

end

namespace State

open Declaration

theorem filled_of_stands {declarations : List (Declaration FunctionTree)}
    (compiles : AllCompile declarations)
    (stand : ∀ declaration ∈ declarations, ∃ held, entered? declaration = some held ∧
      Stands declaration held) (state : State) :
    Filled declarations state.store (declareAll declarations state).2.store := by
  obtain ⟨registers, scopes⟩ := @rest_declareAll declarations state compiles
  refine .intro ?_ ?_ registers scopes
  · intro kind index declaration last
    obtain ⟨held, entered, stands⟩ := stand declaration (mem_of_lastOf? last)
    rw [entry_declareAll compiles, last, Option.elim, entered]
    exact .some stands
  · intro kind index absent
    rw [entry_declareAll compiles, absent, Option.elim]

mutual

theorem exists_stands (declaration : Declaration FunctionTree)
    (compiles : AllCompile [declaration]) :
    ∃ held, entered? declaration = some held ∧ Stands declaration held := by
  cases declaration with
  | scalar index line value => exact ⟨_, rfl, .scalar⟩
  | array index line items => exact ⟨_, rfl, .array⟩
  | object index line members =>
      have inner : AllCompile members := by
        simpa only [AllCompile, functionsAll, functions, List.append_nil] using compiles
      have filled := filled_of_stands inner (exists_stands_all members inner) (.fresh 0)
      exact ⟨_, rfl, .object filled⟩
  | function index line tree =>
      obtain ⟨routine, compiled⟩ := compiles (index, tree) List.mem_cons_self
      refine ⟨.function routine, ?_, .function compiled⟩
      simp only [entered?, compiled]
      rfl

theorem exists_stands_all (declarations : List (Declaration FunctionTree))
    (compiles : AllCompile declarations) :
    ∀ declaration ∈ declarations, ∃ held, entered? declaration = some held ∧
      Stands declaration held := by
  cases declarations with
  | nil => exact List.forall_mem_nil _
  | cons declaration others =>
      obtain ⟨here, later⟩ := allCompile_cons.mp compiles
      exact List.forall_mem_cons.mpr
        ⟨exists_stands declaration here, exists_stands_all others later⟩

end

theorem filled_declareAll {declarations : List (Declaration FunctionTree)}
    (compiles : AllCompile declarations) (state : State) :
    Filled declarations state.store (declareAll declarations state).2.store :=
  filled_of_stands compiles (exists_stands_all declarations compiles) state

theorem interchangeable_declareAll {first second : List (Declaration FunctionTree)}
    (rearranged : Rearranged first second) (compiles : AllCompile first) (state : State) :
    (declareAll first state).2.store.Interchangeable (declareAll second state).2.store := by
  have others := rearranged.allCompile_iff.mp compiles
  obtain ⟨firstRegisters, firstScopes⟩ := @rest_declareAll first state compiles
  obtain ⟨secondRegisters, secondScopes⟩ := @rest_declareAll second state others
  apply Store.interchangeable_of_entries
  · intro kind index
    rw [entry_declareAll compiles, entry_declareAll others, rearranged.lastOf?_eq]
  · rw [firstRegisters, secondRegisters]
  · rw [firstScopes, secondScopes]

/-- The declarations before the first one that is refused are all that is left. -/
theorem declareAll_refused {before : List (Declaration FunctionTree)}
    {failing : Declaration FunctionTree} (compiles : AllCompile before)
    (refused : ¬ AllCompile [failing]) (after : List (Declaration FunctionTree)) (state : State) :
    (∃ error, (declareAll (before ++ failing :: after) state).1 = .error error) ∧
      (declareAll (before ++ failing :: after) state).2.store =
        (declareAll before state).2.store := by
  rw [declareAll_append compiles]
  cases entered : (declare failing (declareAll before state).2).1 with
  | ok done => exact absurd ((declare_eq_ok_iff failing _).mp entered) refused
  | error error =>
      rw [declareAll_cons_refused entered]
      exact ⟨⟨error, rfl⟩, store_declare_refused entered⟩

end State

open Declaration State in
/-- Declarations build the tables whatever their order.  They are accepted if and
only if all their functions compile, and then fill the tables as the rule says;
in another order that keeps those of one kind and index in theirs they have the
same effect; and if one is refused, the store is what those before it made it.
The session stays as it was in any case. -/
theorem declarations_fill_tables (declarations : List (Declaration FunctionTree))
    (state : State) :
    ((declareAll declarations state).1 = .ok () ↔ AllCompile declarations) ∧
    (AllCompile declarations →
      Filled declarations state.store (declareAll declarations state).2.store) ∧
    state.session.Undisturbed (declareAll declarations state).2.session ∧
    (∀ others, Rearranged declarations others →
      (∃ error other, (declareAll declarations state).1 = .error error ∧
        (declareAll others state).1 = .error other) ∨
      ((declareAll declarations state).1 = .ok () ∧ (declareAll others state).1 = .ok () ∧
        (declareAll declarations state).2.store.Interchangeable
          (declareAll others state).2.store)) ∧
    (∀ before failing after, declarations = before ++ failing :: after → AllCompile before →
      ¬ AllCompile [failing] →
      (∃ error, (declareAll declarations state).1 = .error error) ∧
        (declareAll declarations state).2.store = (declareAll before state).2.store) := by
  refine ⟨declareAll_eq_ok_iff declarations state, fun compiles => filled_declareAll compiles state,
    undisturbed_declareAll declarations state, ?_, ?_⟩
  · intro others rearranged
    have accepted := declareAll_eq_ok_iff declarations state
    have otherAccepted := declareAll_eq_ok_iff others state
    rw [← rearranged.allCompile_iff] at otherAccepted
    cases first : (declareAll declarations state).1 with
    | ok done =>
        have compiles := accepted.mp first
        exact .inr ⟨rfl, otherAccepted.mpr compiles,
          interchangeable_declareAll rearranged compiles state⟩
    | error error =>
        cases second : (declareAll others state).1 with
        | error other => exact .inl ⟨error, other, rfl, rfl⟩
        | ok done =>
            rw [accepted.mpr (otherAccepted.mp second)] at first
            cases first
  · rintro before failing after rfl compiles refused
    exact declareAll_refused compiles refused after state

/-- Two scalars and two objects under one index. -/
def rivals : List (Declaration FunctionTree) :=
  [.scalar "a" 2 "x", .object "a" 3 [.scalar "b" 4 "inner"], .scalar "a" 6 "y", .object "a" 7 []]

/-- The same with each object before its scalar. -/
def rivalsSwapped : List (Declaration FunctionTree) :=
  [.object "a" 3 [.scalar "b" 4 "inner"], .scalar "a" 2 "x", .object "a" 7 [], .scalar "a" 6 "y"]

/-- An object that is refused after its first member. -/
def halfDone : Declaration FunctionTree :=
  .object "a" 9 [.scalar "b" 10 "z", .function "f" 11 ⟨"f", [], [.reference "k"], 11⟩]

open Declaration State in
/-- The later scalar and the later object stay, the latter without the members of
the earlier one, and the half-done object leaves no trace. -/
theorem declarations_fill_tables_rivals :
    AllCompile rivals ∧ Rearranged rivals rivalsSwapped ∧ ¬ AllCompile [halfDone] ∧
    (Filled rivals .fresh (declareAll rivals (.fresh 1)).2.store ∧
      (declareAll rivals (.fresh 1)).2.store.Interchangeable
        (declareAll rivalsSwapped (.fresh 1)).2.store ∧
      (declareAll (rivals ++ halfDone :: rivals) (.fresh 1)).2.store =
        (declareAll rivals (.fresh 1)).2.store) ∧
    (declareAll rivals (.fresh 1)).2.store.get "a" = .ok "y" ∧
    (declareAll rivals (.fresh 1)).2.store.element "a" "b" =
      .error (.bind [] (.unknownEntry "b")) := by
  have compiles : AllCompile rivals := List.forall_mem_nil _
  have rearranged : Rearranged rivals rivalsSwapped := by
    refine ⟨(List.Perm.swap _ _ _).trans (((List.Perm.swap _ _ _).cons _).cons _), ?_⟩
    intro kind index
    by_cases here : "a" = index <;> cases kind <;>
      simp [rivals, rivalsSwapped, Declaration.index, Declaration.kind, here]
  have refused : ¬ AllCompile [halfDone] := by
    intro compiles
    obtain ⟨routine, compiled⟩ := compiles _ List.mem_cons_self
    cases compiled
  obtain ⟨accepted, filled, _, orders, _⟩ := declarations_fill_tables rivals (.fresh 1)
  obtain ⟨_, _, _, _, left⟩ := declarations_fill_tables (rivals ++ halfDone :: rivals) (.fresh 1)
  refine ⟨compiles, rearranged, refused, ⟨filled compiles, ?_, ?_⟩, rfl, rfl⟩
  · obtain ⟨error, _, failed, _⟩ | ⟨_, _, same⟩ := orders rivalsSwapped rearranged
    · rw [accepted.mpr compiles] at failed
      cases failed
    · exact same
  · exact (left rivals halfDone rivals rfl compiles refused).2

end TableScript
