import TableScript.Proofs.Run.Frames
import TableScript.Proofs.Run.Fuel

namespace TableScript

/-! A call sees its own scope only.  Two stores that differ in nothing but the
scopes of their objects cannot be told apart by a call: every parameter that is
read on the way lies in a scope that the call, or a call inside it, has pushed
itself. -/

/-- What a store holds under each index, but for its objects and scopes. -/
structure Contents where
  scalar : String → Option String
  array : String → Option (List String)
  routine : String → Option Routine
  register : String → Option String

namespace Store

def contents (store : Store) : Contents :=
  ⟨store.scalars.get?, store.arrays.get?, store.functions.get?, store.registers.get?⟩

theorem contents_setScalar (store : Store) (index value : String) :
    (store.setScalar index value).contents =
      { store.contents with
        scalar := fun sought =>
          if sought = index then some value else store.contents.scalar sought } := by
  have same := funext (Table.get?_insert store.scalars index value)
  simp only [contents, setScalar, same]

theorem contents_setArray (store : Store) (index : String) (items : List String) :
    (store.setArray index items).contents =
      { store.contents with
        array := fun sought =>
          if sought = index then some items else store.contents.array sought } := by
  have same := funext (Table.get?_insert store.arrays index items)
  simp only [contents, setArray, same]

theorem contents_setRegister (store : Store) (index value : String) :
    (store.setRegister index value).contents =
      { store.contents with
        register := fun sought =>
          if sought = index then some value else store.contents.register sought } := by
  have same := funext (Table.get?_insert store.registers index value)
  simp only [contents, setRegister, same]

/-- The stores hold the same, at every level, and may differ in their scopes. -/
inductive Alike : Store → Store → Prop where
  | intro {first second : Store} (contents : first.contents = second.contents)
      (objects : ∀ index,
        Option.Rel Alike (first.objects.get? index) (second.objects.get? index)) :
      Alike first second

namespace Alike

variable {first second : Store}

theorem contents_eq (alike : Alike first second) : first.contents = second.contents := by
  cases alike with
  | intro contents objects => exact contents

theorem objects_rel (alike : Alike first second) (index : String) :
    Option.Rel Alike (first.objects.get? index) (second.objects.get? index) := by
  cases alike with
  | intro contents objects => exact objects index

theorem objects_elim (alike : Alike first second) (index : String) :
    (first.objects.get? index = none ∧ second.objects.get? index = none) ∨
      ∃ left right, first.objects.get? index = some left ∧
        second.objects.get? index = some right ∧ Alike left right := by
  have objects := alike.objects_rel index
  revert objects
  generalize first.objects.get? index = left
  generalize second.objects.get? index = right
  intro objects
  cases objects with
  | none => exact .inl ⟨rfl, rfl⟩
  | some alike => exact .inr ⟨_, _, rfl, rfl, alike⟩

theorem object_elim (alike : Alike first second) (index : String) :
    (∃ left right, first.object index = .ok left ∧ second.object index = .ok right ∧
        Alike left right) ∨
      ∃ error, first.object index = .error error ∧ second.object index = .error error := by
  obtain ⟨leftNone, rightNone⟩ | ⟨left, right, leftFound, rightFound, inner⟩ :=
    alike.objects_elim index
  · exact .inr ⟨.bind [] (.unknownObject index), by simp only [Store.object, leftNone],
      by simp only [Store.object, rightNone]⟩
  · exact .inl ⟨left, right, by simp only [Store.object, leftFound],
      by simp only [Store.object, rightFound], inner⟩

theorem scalar_eq (alike : Alike first second) (index : String) :
    first.scalars.get? index = second.scalars.get? index :=
  congrFun (congrArg Contents.scalar alike.contents_eq) index

theorem array_eq (alike : Alike first second) (index : String) :
    first.arrays.get? index = second.arrays.get? index :=
  congrFun (congrArg Contents.array alike.contents_eq) index

theorem get_eq (alike : Alike first second) (index : String) :
    first.get index = second.get index := by
  have contained : first.objects.contains index = second.objects.contains index := by
    obtain ⟨leftNone, rightNone⟩ | ⟨left, right, leftFound, rightFound, _⟩ :=
      alike.objects_elim index
    · simp only [Table.contains, leftNone, rightNone]
    · simp only [Table.contains, leftFound, rightFound, Option.isSome]
  simp only [Store.get, alike.scalar_eq index, alike.array_eq index, contained]

theorem element_eq (alike : Alike first second) (index key : String) :
    first.element index key = second.element index key := by
  obtain ⟨leftNone, rightNone⟩ | ⟨left, right, leftFound, rightFound, inner⟩ :=
    alike.objects_elim index
  · simp only [Store.element, leftNone, rightNone, alike.array_eq index]
  · simp only [Store.element, leftFound, rightFound, inner.get_eq key]

theorem register_eq (alike : Alike first second) (index : String) :
    first.register index = second.register index := by
  have same : first.registers.get? index = second.registers.get? index :=
    congrFun (congrArg Contents.register alike.contents_eq) index
  simp only [Store.register, same]

theorem function_eq (alike : Alike first second) (index : String) :
    first.function index = second.function index := by
  have same : first.functions.get? index = second.functions.get? index :=
    congrFun (congrArg Contents.routine alike.contents_eq) index
  simp only [Store.function, same]

/-- A change that leaves the objects alone. -/
theorem change {firstAfter secondAfter : Store} (alike : Alike first second)
    (contents : firstAfter.contents = secondAfter.contents)
    (firstObjects : firstAfter.objects = first.objects)
    (secondObjects : secondAfter.objects = second.objects) : Alike firstAfter secondAfter := by
  refine .intro contents fun index => ?_
  rw [firstObjects, secondObjects]
  exact alike.objects_rel index

theorem setScalar (alike : Alike first second) (index value : String) :
    Alike (first.setScalar index value) (second.setScalar index value) :=
  alike.change (by rw [contents_setScalar, contents_setScalar, alike.contents_eq]) rfl rfl

theorem setArray (alike : Alike first second) (index : String) (items : List String) :
    Alike (first.setArray index items) (second.setArray index items) :=
  alike.change (by rw [contents_setArray, contents_setArray, alike.contents_eq]) rfl rfl

theorem setRegister (alike : Alike first second) (index value : String) :
    Alike (first.setRegister index value) (second.setRegister index value) :=
  alike.change (by rw [contents_setRegister, contents_setRegister, alike.contents_eq]) rfl rfl

theorem setObject {left right : Store} (alike : Alike first second) (inner : Alike left right)
    (index : String) : Alike (first.setObject index left) (second.setObject index right) := by
  refine .intro alike.contents_eq fun sought => ?_
  simp only [Store.setObject, Table.get?_insert]
  by_cases here : sought = index
  · simp only [if_pos here]
    exact .some inner
  · simp only [if_neg here]
    exact alike.objects_rel sought

end Alike

theorem Framed.setObject {store inner : Store} (framed : store.Framed)
    (innerFramed : inner.Framed) (index : String) : (store.setObject index inner).Framed := by
  intro path
  cases path with
  | nil => exact framed []
  | cons first rest =>
      rw [scopesAt_cons, object_setObject]
      by_cases here : first = index
      · rw [if_pos here]
        exact innerFramed rest
      · rw [if_neg here, ← scopesAt_cons]
        exact framed (first :: rest)

end Store

namespace State

/-- The states agree on all that a run can change or read, but for the scopes. -/
structure Alike (first second : State) : Prop where
  store : first.store.Alike second.store
  output : first.session.output = second.session.output
  depth : first.session.depth = second.session.depth
  limit : first.session.limit = second.session.limit

end State

namespace Run

open State

/-- A scope that was pushed on others can be taken away. -/
theorem release_pushed {state inner : State} {scope : Scope} {session : Session}
    (framed : state.store.Framed)
    (body : Released ⟨state.store.pushScope scope, session⟩ inner) :
    (release inner).1 = .ok () := by
  have stack : inner.store.scopes = scope :: state.store.scopes :=
    Except.ok.inj (body.scopes [])
  cases below : state.store.scopes with
  | nil => exact absurd (congrArg Except.ok below) (framed [])
  | cons next outer =>
      have popped := Store.popScope_cons (stack.trans (congrArg (scope :: ·) below))
      simp only [release, popped]

end Run

namespace State.Alike

variable {first second : State}

theorem write (alike : Alike first second) (text : String) :
    Alike (first.write text) (second.write text) :=
  ⟨alike.store, congrArg (· ++ text) alike.output, alike.depth, alike.limit⟩

theorem append (alike : Alike first second) (index value : String) :
    Matched (fun _ => False) Alike (first.append index value) (second.append index value) := by
  simp only [State.append, alike.store.array_eq index]
  cases second.store.arrays.get? index with
  | none => exact .error _
  | some items =>
      exact .ok ⟨alike.store.setArray index (items ++ [value]), alike.output, alike.depth,
        alike.limit⟩

theorem enterCall (alike : Alike first second) (index : String) (scope : Scope) :
    Matched (fun _ => False)
      (fun left right =>
        Alike ⟨first.store.pushScope scope, left⟩ ⟨second.store.pushScope scope, right⟩)
      (first.session.enterCall index) (second.session.enterCall index) := by
  simp only [Session.enterCall, alike.depth, alike.limit]
  split
  · exact .error _
  · exact .ok ⟨alike.store.change alike.store.contents_eq rfl rfl, alike.output, rfl, rfl⟩

theorem release (alike : Alike first second) :
    Alike (Run.release first).2 (Run.release second).2 := by
  obtain ⟨scopes, firstStore⟩ := Run.store_release first
  obtain ⟨others, secondStore⟩ := Run.store_release second
  refine ⟨?_, ?_, ?_, ?_⟩
  · rw [firstStore, secondStore]
    exact alike.store.change alike.store.contents_eq rfl rfl
  · rw [Run.session_release, Run.session_release]
    exact alike.output
  · rw [Run.session_release, Run.session_release]
    exact congrArg (· - 1) alike.depth
  · rw [Run.session_release, Run.session_release]
    exact alike.limit

end State.Alike

namespace Run

open State

/-- The states are alike, and each has the scopes that it had where the frame
was entered. -/
structure Apart (frame : State × State) (first second : State) : Prop where
  alike : State.Alike first second
  framed : frame.1.store.Framed ∧ frame.2.store.Framed
  released : Released frame.1 first ∧ Released frame.2 second

namespace Apart

variable {frame : State × State} {first second : State}

theorem enter {left right : State} (alike : State.Alike left right) (framed : left.store.Framed)
    (otherFramed : right.store.Framed) : Apart (left, right) left right :=
  ⟨alike, ⟨framed, otherFramed⟩, .refl left, .refl right⟩

theorem framed_now (apart : Apart frame first second) :
    first.store.Framed ∧ second.store.Framed :=
  ⟨apart.released.1.framed apart.framed.1, apart.released.2.framed apart.framed.2⟩

/-- A step, or a whole visit, that gives the scopes back. -/
theorem step {firstAfter secondAfter : State} (apart : Apart frame first second)
    (alike : State.Alike firstAfter secondAfter)
    (firstStep : first.store.Framed → Released first firstAfter)
    (secondStep : second.store.Framed → Released second secondAfter) :
    Apart frame firstAfter secondAfter :=
  ⟨alike, apart.framed, apart.released.1.trans (firstStep apart.framed_now.1),
    apart.released.2.trans (secondStep apart.framed_now.2)⟩

end Apart

theorem lockstep_apart :
    Lockstep Apart (fun frame => frame.1.store.scopes.head? = frame.2.store.scopes.head?)
      ⟨fun _ => False, False⟩ where
  get apart := apart.alike.store.get_eq
  register apart := apart.alike.store.register_eq
  element apart := apart.alike.store.element_eq
  array apart := apart.alike.store.array_eq
  function apart := apart.alike.store.function_eq
  parameter := by
    intro frame first second sameHead apart name
    -- Whatever ran since the frame was entered has given its scopes back.
    have firstScopes : first.store.scopes = frame.1.store.scopes :=
      Except.ok.inj (apart.released.1.scopes [])
    have secondScopes : second.store.scopes = frame.2.store.scopes :=
      Except.ok.inj (apart.released.2.scopes [])
    simp only [Store.parameter, firstScopes, secondScopes, sameHead]
  note apart event :=
    apart.step ⟨apart.alike.store, apart.alike.output, apart.alike.depth, apart.alike.limit⟩
      (respects_released.note _ event) (respects_released.note _ event)
  setScalar apart index value :=
    apart.step
      ⟨apart.alike.store.setScalar index value, apart.alike.output, apart.alike.depth,
        apart.alike.limit⟩
      (respects_released.setScalar _ index value) (respects_released.setScalar _ index value)
  setRegister apart index value :=
    apart.step
      ⟨apart.alike.store.setRegister index value, apart.alike.output, apart.alike.depth,
        apart.alike.limit⟩
      (respects_released.setRegister _ index value) (respects_released.setRegister _ index value)
  append := by
    intro frame first second apart index value
    obtain ⟨left, right, leftLonger, rightLonger, alike⟩ |
        ⟨error, leftFailed, rightFailed⟩ | ⟨_, _, impossible⟩ :=
      (apart.alike.append index value).elim
    · rw [leftLonger, rightLonger]
      exact .ok (apart.step alike (respects_released.append leftLonger)
        (respects_released.append rightLonger))
    · rw [leftFailed, rightFailed]
      exact .error error
    · exact absurd impossible id
  write apart text :=
    apart.step (apart.alike.write text) (respects_released.write _ text)
      (respects_released.write _ text)
  call := by
    intro frame first second apart index scope
    obtain ⟨left, right, leftEntered, rightEntered, alike⟩ |
        ⟨error, leftFailed, rightFailed⟩ | ⟨_, _, impossible⟩ :=
      (apart.alike.enterCall index scope).elim
    · rw [leftEntered, rightEntered]
      obtain ⟨framed, otherFramed⟩ := apart.framed_now
      -- The pushed scope is the same in both runs, whatever lies below it.
      refine .ok ⟨_, rfl, .enter alike (framed.pushScope scope) (otherFramed.pushScope scope), ?_⟩
      intro ended other inner
      refine ⟨?_, apart.step inner.alike.release ?_ ?_⟩
      · rw [release_pushed framed inner.released.1, release_pushed otherFramed inner.released.2]
      · exact fun framed => release_entered scope framed leftEntered inner.released.1
      · exact fun framed => release_entered scope framed rightEntered inner.released.2
    · rw [leftFailed, rightFailed]
      exact .error error
    · exact absurd impossible id
  object := by
    intro frame first second apart index
    obtain ⟨framed, otherFramed⟩ := apart.framed_now
    obtain ⟨left, right, leftFound, rightFound, alike⟩ | ⟨error, leftMissing, rightMissing⟩ :=
      apart.alike.store.object_elim index
    · rw [leftFound, rightFound]
      have inside : State.Alike ⟨left, first.session⟩ ⟨right, second.session⟩ :=
        ⟨alike, apart.alike.output, apart.alike.depth, apart.alike.limit⟩
      refine .ok ⟨_, .enter inside (framed.object leftFound) (otherFramed.object rightFound), ?_⟩
      intro ended other inner
      refine apart.step ?_ ?_ ?_
      · exact ⟨apart.alike.store.setObject inner.alike.store index, inner.alike.output,
          inner.alike.depth, inner.alike.limit⟩
      · exact respects_released.object leftFound fun _ => inner.released.1
      · exact respects_released.object rightFound fun _ => inner.released.2
    · rw [leftMissing, rightMissing]
      exact .error error

end Run

/-- With any fuel, a call ends in both states or in neither. -/
theorem Run.call_apart (fuel : Nat) (routine : Routine) (arguments : List String)
    {first second : State} (alike : State.Alike first second) (framed : first.store.Framed)
    (otherFramed : second.store.Framed) :
    ((Run.call (eval fuel) routine arguments first).ended? = none ∧
      (Run.call (eval fuel) routine arguments second).ended? = none) ∨
    ∃ result after last,
      (Run.call (eval fuel) routine arguments first).ended? = some (result, after) ∧
      (Run.call (eval fuel) routine arguments second).ended? = some (result, last) ∧
      Run.Apart (first, second) after last := by
  have steps := Run.lockstep_apart
  have agree := eval_alongside steps (Excuses.Allow.refl fuel)
  have apart := Run.Apart.enter alike framed otherFramed
  exact (steps.callRoutine agree apart routine arguments).unexcused

/-- A callee cannot see the parameters of any caller.  From two states that
differ in nothing but the scopes of their objects, of which each has at least
one, a call comes to an end from both or from neither; it has the same result
and leaves states that are alike, each with the scopes that it had before. -/
theorem caller_parameters_hidden (routine : Routine) (arguments : List String)
    {first second : State} (alike : State.Alike first second) (framed : first.store.Framed)
    (otherFramed : second.store.Framed) :
    ((∃ result after, routine.Returns arguments first result after) ↔
      ∃ result after, routine.Returns arguments second result after) ∧
    ∀ result after other last, routine.Returns arguments first result after →
      routine.Returns arguments second other last →
      result = other ∧ State.Alike after last ∧
        State.Released first after ∧ State.Released second last := by
  have together (fuel : Nat) :=
    Run.call_apart fuel routine arguments alike framed otherFramed
  constructor
  · constructor
    · intro ⟨result, after, enough, ended⟩
      have here := ended enough (Nat.le_refl enough)
      obtain ⟨none, _⟩ | ⟨same, _, last, _, there, _⟩ := together enough
      · rw [none] at here
        cases here
      · exact ⟨same, last, Routine.returns_of_ended there⟩
    · intro ⟨result, last, enough, ended⟩
      have there := ended enough (Nat.le_refl enough)
      obtain ⟨_, none⟩ | ⟨same, after, _, here, _, _⟩ := together enough
      · rw [none] at there
        cases there
      · exact ⟨same, after, Routine.returns_of_ended here⟩
  · intro result after other last ⟨enough, ended⟩ ⟨sufficient, otherEnded⟩
    have here := ended _ (Nat.le_max_left enough sufficient)
    have there := otherEnded _ (Nat.le_max_right enough sufficient)
    obtain ⟨none, _⟩ | ⟨_, _, _, reached, otherReached, apart⟩ :=
      together (max enough sufficient)
    · rw [none] at here
      cases here
    · rw [reached] at here
      rw [otherReached] at there
      cases here
      cases there
      exact ⟨rfl, apart.alike, apart.released.1, apart.released.2⟩

/-- An object with a function that asks for a parameter it does not have. -/
def asking : Store :=
  Store.fresh.setFunction "g" ⟨"g", [], [.parameter "secret"]⟩

/-- A program and its object in the midst of calls with one scope. -/
def amidst (scope : Scope) : State :=
  ⟨(Store.fresh.setObject "o" (asking.pushScope scope)).pushScope scope, Session.fresh 3⟩

def secretScope : Scope :=
  .ofPairs [("secret", "1")]

/-- Writes its parameter and lets the object ask. -/
def inquisitive : Routine :=
  ⟨"f", ["a"], [.builtin "out" [.value (.parameter "a")], .call (.method "o" "g") []]⟩

/-- The secret stands in the scopes around the call, and the call misses it just
as where there is none. -/
theorem caller_parameters_hidden_secret :
    (State.Alike (amidst secretScope) (amidst .empty) ∧ (amidst secretScope).store.Framed ∧
      (amidst .empty).store.Framed ∧
      (amidst secretScope).store.parameter "secret" = .ok "1") ∧
    ∃ after last,
      inquisitive.Returns ["x"] (amidst secretScope)
        (.error (.bind [] (.unknownParameter "secret"))) after ∧
      inquisitive.Returns ["x"] (amidst .empty)
        (.error (.bind [] (.unknownParameter "secret"))) last ∧
      after.session.output = "x" ∧ State.Alike after last ∧
      State.Released (amidst secretScope) after := by
  have inner (scope other : Scope) :
      Store.Alike (asking.pushScope scope) (asking.pushScope other) :=
    .intro rfl fun _ => .none
  have bare : Store.Alike .fresh .fresh := .intro rfl fun _ => .none
  have alike : State.Alike (amidst secretScope) (amidst .empty) :=
    ⟨(bare.setObject (inner _ _) "o").change rfl rfl rfl, rfl, rfl, rfl⟩
  have idle : asking.Idle := Store.idle_fresh.of_eq rfl rfl
  have framed (scope : Scope) : (amidst scope).store.Framed :=
    (Store.idle_fresh.framed.setObject (idle.framed.pushScope scope) "o").pushScope scope
  have returns := Routine.returns_of_ended
    (show (Run.call (eval 4) inquisitive ["x"] (amidst secretScope)).ended? =
      some (.error (.bind [] (.unknownParameter "secret")), _) from rfl)
  have otherReturns := Routine.returns_of_ended
    (show (Run.call (eval 4) inquisitive ["x"] (amidst .empty)).ended? =
      some (.error (.bind [] (.unknownParameter "secret")), _) from rfl)
  obtain ⟨_, ends, released, _⟩ :=
    (caller_parameters_hidden inquisitive ["x"] alike (framed _) (framed _)).2 _ _ _ _ returns
      otherReturns
  exact ⟨⟨alike, framed _, framed _, rfl⟩, _, _, returns, otherReturns, rfl, ends, released⟩

end TableScript
