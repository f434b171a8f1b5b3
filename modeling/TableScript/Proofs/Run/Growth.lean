import TableScript.Proofs.Run.Lockstep
import TableScript.Proofs.Run.Frames

namespace TableScript

/-! Runs delete nothing.  No step takes a key out of a table, and the only change
to an array is an item at its end; a nested object is put back after a visit,
also after one that failed.  So whatever a run finds in any object it leaves
there, though scalars and registers may have other values. -/

theorem Table.contains_insert {α : Type} (table : Table α) (key : String) (value : α)
    (sought : String) :
    (table.insert key value).contains sought = (sought == key || table.contains sought) := by
  simp only [contains, get?_insert]
  by_cases here : sought = key
  · simp [here]
  · simp [here]

namespace Store

/-- What a store held before is held after: functions, objects and arrays under
the same indices and no others, arrays with items added at their end, scalars
and registers under the same indices and perhaps more. -/
structure Retained (before after : Store) : Prop where
  functions : after.functions = before.functions
  objects : ∀ index, after.objects.contains index = before.objects.contains index
  arrays : ∀ index,
    Option.Rel (· <+: ·) (before.arrays.get? index) (after.arrays.get? index)
  scalars : ∀ index, before.scalars.contains index → after.scalars.contains index
  registers : ∀ index, before.registers.contains index → after.registers.contains index

namespace Retained

variable {before middle after : Store}

theorem arrays_refl (held : Option (List String)) : Option.Rel (· <+: ·) held held := by
  cases held with
  | none => exact .none
  | some items => exact .some List.prefix_rfl

/-- The scopes may be others. -/
theorem of_eq (functions : after.functions = before.functions)
    (objects : after.objects = before.objects) (arrays : after.arrays = before.arrays)
    (scalars : after.scalars = before.scalars) (registers : after.registers = before.registers) :
    Retained before after where
  functions := functions
  objects _ := by rw [objects]
  arrays _ := by rw [arrays]; exact arrays_refl _
  scalars _ := by rw [scalars]; exact id
  registers _ := by rw [registers]; exact id

theorem refl (store : Store) : Retained store store :=
  of_eq rfl rfl rfl rfl rfl

theorem trans (first : Retained before middle) (second : Retained middle after) :
    Retained before after where
  functions := second.functions.trans first.functions
  objects index := (second.objects index).trans (first.objects index)
  arrays index := by
    have start := first.arrays index
    have rest := second.arrays index
    revert start rest
    generalize before.arrays.get? index = held
    generalize middle.arrays.get? index = longer
    generalize after.arrays.get? index = longest
    intro start rest
    cases start with
    | none => exact rest
    | some early =>
        cases rest with
        | some late => exact .some (early.trans late)
  scalars index := second.scalars index ∘ first.scalars index
  registers index := second.registers index ∘ first.registers index

theorem setScalar (store : Store) (index value : String) :
    Retained store (store.setScalar index value) :=
  { refl store with
    scalars := fun sought held => by simp [Store.setScalar, Table.contains_insert, held] }

theorem setRegister (store : Store) (index value : String) :
    Retained store (store.setRegister index value) :=
  { refl store with
    registers := fun sought held => by simp [Store.setRegister, Table.contains_insert, held] }

theorem setArray {store : Store} {index : String} {items longer : List String}
    (held : store.arrays.get? index = some items) (extended : items <+: longer) :
    Retained store (store.setArray index longer) :=
  { refl store with
    arrays := fun sought => by
      simp only [Store.setArray, Table.get?_insert]
      by_cases here : sought = index
      · subst here
        rw [if_pos rfl, held]
        exact .some extended
      · rw [if_neg here]
        exact arrays_refl _ }

theorem setObject {store object : Store} {index : String}
    (found : store.object index = .ok object) (inner : Store) :
    Retained store (store.setObject index inner) :=
  { refl store with
    objects := fun sought => by
      simp only [Store.setObject, Table.contains_insert]
      by_cases here : sought = index
      · subst here
        simp only [Store.object] at found
        split at found
        · rename_i held
          simp [Table.contains, held]
        · cases found
      · simp [here] }

end Retained

end Store

namespace State

/-- Every object of the first state, at any depth, is retained in the second, and
the output goes on from where it was. -/
structure Grown (before after : State) : Prop where
  objects : ∀ path object, before.store.follow path = .ok object →
    ∃ later, after.store.follow path = .ok later ∧ object.Retained later
  output : before.session.output.toList <+: after.session.output.toList

namespace Grown

variable {before middle after : State}

theorem trans (first : Grown before middle) (second : Grown middle after) :
    Grown before after where
  objects path object found := by
    obtain ⟨next, reached, retained⟩ := first.objects path object found
    obtain ⟨last, found, further⟩ := second.objects path next reached
    exact ⟨last, found, retained.trans further⟩
  output := first.output.trans second.output

/-- A step that leaves the nested objects alone. -/
theorem step (retained : before.store.Retained after.store)
    (sameObjects : after.store.objects = before.store.objects)
    (output : before.session.output.toList <+: after.session.output.toList) :
    Grown before after where
  objects path object found := by
    cases path with
    | nil =>
        cases found
        exact ⟨after.store, rfl, retained⟩
    | cons index path =>
        refine ⟨object, ?_, .refl object⟩
        simp only [Store.follow, Store.object, sameObjects] at found ⊢
        exact found
  output := output

theorem refl (state : State) : Grown state state :=
  step (.refl _) rfl List.prefix_rfl

theorem append {state after : State} {index value : String}
    (appended : state.append index value = .ok after) : Grown state after := by
  unfold State.append at appended
  split at appended
  · rename_i items held
    cases appended
    exact step (.setArray held (List.prefix_append items [value])) rfl List.prefix_rfl
  · cases appended

theorem write (state : State) (text : String) : Grown state (state.write text) := by
  have longer : (state.write text).session.output.toList =
      state.session.output.toList ++ text.toList := String.toList_append
  exact step (.refl _) rfl (by rw [longer]; exact List.prefix_append _ _)

/-- A scope comes and goes with a call; all else is the doing of its body. -/
theorem call {state inner : State} {index : String} {session : Session} (scope : Scope)
    (entered : state.session.enterCall index = .ok session)
    (body : Grown ⟨state.store.pushScope scope, session⟩ inner) :
    Grown state (Run.release inner).2 := by
  have sameOutput : session.output = state.session.output := by
    unfold Session.enterCall at entered
    split at entered
    · cases entered
    · cases entered
      rfl
  have begun : Grown state ⟨state.store.pushScope scope, session⟩ :=
    step (.of_eq rfl rfl rfl rfl rfl) rfl (by simp [sameOutput])
  have left : Grown inner (Run.release inner).2 := by
    obtain ⟨scopes, store⟩ := Run.store_release inner
    apply step
    · rw [store]
      exact .of_eq rfl rfl rfl rfl rfl
    · rw [store]
    · rw [Run.session_release]
      exact List.prefix_rfl
  exact begun.trans (body.trans left)

/-- The object is put back as the visit has left it. -/
theorem object {state inner : State} {index : String} {object : Store}
    (found : state.store.object index = .ok object)
    (visit : Grown ⟨object, state.session⟩ inner) :
    Grown state (State.leaveObject state.store index inner) where
  objects path reached followed := by
    cases path with
    | nil =>
        cases followed
        exact ⟨_, rfl, .setObject found inner.store⟩
    | cons first rest =>
        simp only [Store.follow, State.leaveObject, Store.object_setObject] at followed ⊢
        by_cases here : first = index
        · subst here
          rw [found] at followed
          rw [if_pos rfl]
          exact visit.objects rest reached followed
        · rw [if_neg here]
          exact ⟨reached, followed, .refl reached⟩
  output := visit.output

end Grown

end State

theorem Run.respects_grown : Run.Respects State.Grown where
  refl := .refl
  trans := .trans
  note _ _ := .step (.refl _) rfl List.prefix_rfl
  setScalar _ index value := .step (.setScalar _ index value) rfl List.prefix_rfl
  setRegister _ index value := .step (.setRegister _ index value) rfl List.prefix_rfl
  append := .append
  write := .write
  call := .call
  object := .object

/-- Running deletes nothing.  Code and calls that come to an end, done or failed,
leave every object of the program, at any depth, with the functions, objects and
arrays that it had, its arrays with items added at the end at most, and with all
its scalars and registers; and they only add to the output. -/
theorem nothing_deleted (fuel : Nat) (state : State) :
    (∀ code, (eval fuel code state).Ends (State.Grown state)) ∧
    (∀ routine arguments,
      (Run.call (eval fuel) routine arguments state).Ends (State.Grown state)) ∧
    (∀ object function arguments,
      (Run.callMethod (eval fuel) object function arguments state).Ends (State.Grown state)) := by
  have steps := Run.respects_grown
  have keeps := eval_keeps steps fuel
  exact ⟨fun code => keeps code state,
    fun routine arguments => steps.callRoutine keeps routine arguments state,
    fun object function arguments => steps.callMethod keeps object function arguments state⟩

end TableScript
