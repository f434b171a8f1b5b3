import TableScript.Proofs.Run.Evaluation

namespace TableScript

open Number Text

/-! Arrays as sequences.  Values appended to an array come after its items, one after the
other, and the array is then seen as this one sequence by all that reads it: the item at
a position, the number of items and the array as one text. -/

namespace Store

/-- An index stands for an array, and for nothing that would be read in its place. -/
structure HoldsArray (store : Store) (index : String) (items : List String) : Prop where
  array : store.arrays.get? index = some items
  noScalar : store.scalars.get? index = none
  noObject : store.objects.get? index = none

/-! ### Positions -/

/-- A text that spells a position asks for the item there. -/
theorem item_of_unsigned {element : String} {k : Nat}
    (spelled : Unsigned (trim element.toList) k) (small : k < 2 ^ 64) (index : String)
    (items : List String) :
    item index element items =
      match items[k]? with
      | some value => .ok value
      | none => .error (.runtime (.outOfBounds index k items.length)) := by
  have read := position?_eq_some_iff.mpr ⟨spelled, small⟩
  cases found : items[k]? with
  | some value => simp only [item, read, found]
  | none => simp only [item, read, found]

theorem item_of_misspelled {element : String}
    (misspelled : ∀ k : Nat, k < 2 ^ 64 → ¬ Unsigned (trim element.toList) k) (index : String)
    (items : List String) :
    item index element items = .error (.runtime (.invalidPosition index element)) := by
  have unread : position? (trim element.toList) = none := by
    rw [Option.eq_none_iff_forall_ne_some]
    intro k read
    obtain ⟨spelled, small⟩ := position?_eq_some_iff.mp read
    exact misspelled k small spelled
  rw [item, unread]

namespace HoldsArray

variable {store : Store} {index : String} {items : List String}

theorem get_eq (held : store.HoldsArray index items) :
    store.get index = .ok (",".intercalate items) := by
  simp only [get, held.noScalar, held.array]

theorem element_eq (held : store.HoldsArray index items) (element : String) :
    store.element index element = item index element items := by
  simp only [Store.element, held.noObject, held.array]

theorem element_write (held : store.HoldsArray index items) {k : Nat} (small : k < 2 ^ 64) :
    store.element index (write k) =
      match items[k]? with
      | some value => .ok value
      | none => .error (.runtime (.outOfBounds index k items.length)) := by
  have spelled : Unsigned (trim (write k).toList) k := by
    rw [trim_write]
    exact unsigned_write k
  rw [held.element_eq, item_of_unsigned spelled small]

theorem element_within (held : store.HoldsArray index items) {k : Nat} (small : k < 2 ^ 64)
    (within : k < items.length) : store.element index (write k) = .ok items[k] := by
  rw [held.element_write small, List.getElem?_eq_getElem within]

theorem element_beyond (held : store.HoldsArray index items) {k : Nat} (small : k < 2 ^ 64)
    (beyond : items.length ≤ k) :
    store.element index (write k) = .error (.runtime (.outOfBounds index k items.length)) := by
  rw [held.element_write small, List.getElem?_eq_none beyond]

/-- The positions that can be read are those below the number of items. -/
theorem readable_iff (held : store.HoldsArray index items) {k : Nat} (small : k < 2 ^ 64) :
    (∃ value, store.element index (write k) = .ok value) ↔ k < items.length := by
  constructor
  · rintro ⟨value, read⟩
    by_contra beyond
    rw [held.element_beyond small (Nat.not_lt.mp beyond)] at read
    cases read
  · exact fun within => ⟨_, held.element_within small within⟩

theorem evaluates_size {state : State} (held : state.store.HoldsArray index items) :
    (Code.builtin "size" [.reference index]).Evaluates state (.ok (write items.length)) state := by
  have counted (run : Evaluator) :
      Run.callBuiltin run "size" [.reference index] state = .done (write items.length) state := by
    change Run.size [.reference index] state = _
    simp only [Run.size, held.array]
  exact .succ (.of_ended fun fuel => congrArg Outcome.ended? (counted (eval fuel))) fun _ => rfl

end HoldsArray

end Store

namespace State

/-- Appends values to an array one after the other. -/
def appendAll (index : String) (values : List String) (state : State) : Except Error State :=
  values.foldlM (fun state value => state.append index value) state

/-- Two states differ in one array and in what has been noted, and in nothing else. -/
structure SameBut (index : String) (before after : State) : Prop where
  arrays : ∀ other, other ≠ index →
    after.store.arrays.get? other = before.store.arrays.get? other
  scalars : after.store.scalars = before.store.scalars
  objects : after.store.objects = before.store.objects
  functions : after.store.functions = before.store.functions
  registers : after.store.registers = before.store.registers
  scopes : after.store.scopes = before.store.scopes
  output : after.session.output = before.session.output
  depth : after.session.depth = before.session.depth
  limit : after.session.limit = before.session.limit

variable {state before middle after : State} {index : String} {items : List String}

theorem SameBut.refl (index : String) (state : State) : SameBut index state state :=
  ⟨fun _ _ => rfl, rfl, rfl, rfl, rfl, rfl, rfl, rfl, rfl⟩

theorem SameBut.trans (first : SameBut index before middle) (second : SameBut index middle after) :
    SameBut index before after where
  arrays other different := (second.arrays other different).trans (first.arrays other different)
  scalars := second.scalars.trans first.scalars
  objects := second.objects.trans first.objects
  functions := second.functions.trans first.functions
  registers := second.registers.trans first.registers
  scopes := second.scopes.trans first.scopes
  output := second.output.trans first.output
  depth := second.depth.trans first.depth
  limit := second.limit.trans first.limit

theorem append_exists (held : state.store.HoldsArray index items) (value : String) :
    ∃ after, state.append index value = .ok after ∧
      after.store.HoldsArray index (items ++ [value]) ∧ SameBut index state after := by
  have appended : state.append index value = .ok
      ({ state with store := state.store.setArray index (items ++ [value]) }.note
        (.itemAppended index value)) := by
    simp only [append, held.array]
  refine ⟨_, appended, ⟨Table.get?_insert_self _ _ _, held.noScalar, held.noObject⟩,
    ⟨fun other different => ?_, rfl, rfl, rfl, rfl, rfl, rfl, rfl, rfl⟩⟩
  exact Table.get?_insert_of_ne _ _ different

/-- Values can always be appended, and stand at the end in their order. -/
theorem appendAll_exists (held : state.store.HoldsArray index items) (values : List String) :
    ∃ after, state.appendAll index values = .ok after ∧
      after.store.HoldsArray index (items ++ values) ∧ SameBut index state after := by
  induction values generalizing state items with
  | nil =>
      rw [List.append_nil]
      exact ⟨state, rfl, held, .refl index state⟩
  | cons value later continued =>
      obtain ⟨middle, appended, heldThere, same⟩ := append_exists held value
      obtain ⟨after, completed, heldThen, sameLater⟩ := continued heldThere
      rw [List.append_assoc, List.singleton_append] at heldThen
      refine ⟨after, ?_, heldThen, same.trans sameLater⟩
      rw [appendAll, List.foldlM_cons, appended]
      exact completed

end State

/-- An array behaves as one growing sequence.  Appending never fails; then the item at
every position, the number of items and the array as one text are those of the old items
with the values behind them, a text that spells no position is refused as such, and
nothing but the array has changed. -/
theorem arrays_grow {state : State} {index : String} {items : List String}
    (held : state.store.HoldsArray index items) (values : List String) :
    ∃ after, state.appendAll index values = .ok after ∧
      (∀ k : Nat, k < 2 ^ 64 →
        (∀ within : k < (items ++ values).length,
          after.store.element index (write k) = .ok (items ++ values)[k]) ∧
        ((items ++ values).length ≤ k → after.store.element index (write k) =
          .error (.runtime (.outOfBounds index k (items ++ values).length)))) ∧
      (Code.builtin "size" [.reference index]).Evaluates after
        (.ok (write (items ++ values).length)) after ∧
      (∀ k : Nat, k < 2 ^ 64 →
        ((∃ value, after.store.element index (write k) = .ok value) ↔
          k < (items ++ values).length)) ∧
      after.store.get index = .ok (",".intercalate (items ++ values)) ∧
      state.SameBut index after ∧
      ∀ element, (∀ k : Nat, k < 2 ^ 64 → ¬ Unsigned (trim element.toList) k) →
        after.store.element index element =
          .error (.runtime (.invalidPosition index element)) := by
  obtain ⟨after, appended, grown, same⟩ := State.appendAll_exists held values
  refine ⟨after, appended, fun k small => ⟨?_, ?_⟩, grown.evaluates_size, ?_, grown.get_eq, same,
    fun element misspelled => ?_⟩
  · exact grown.element_within small
  · exact grown.element_beyond small
  · exact fun k small => grown.readable_iff small
  · rw [grown.element_eq, Store.item_of_misspelled misspelled]

/-- Two values behind one item, one of them with a comma, and a position with a minus
sign. -/
theorem arrays_grow_comma :
    (Store.fresh.setArray "0" ["a"]).HoldsArray "0" ["a"] ∧
      ∃ after, (⟨Store.fresh.setArray "0" ["a"], .fresh 0⟩ : State).appendAll "0" ["b,c", ""] =
          .ok after ∧
        after.store.element "0" "1" = .ok "b,c" ∧
        after.store.element "0" "3" = .error (.runtime (.outOfBounds "0" 3 3)) ∧
        (Code.builtin "size" [.reference "0"]).Evaluates after (.ok "3") after ∧
        after.store.get "0" = .ok "a,b,c," ∧
        after.store.element "0" "-1" = .error (.runtime (.invalidPosition "0" "-1")) := by
  have held : (⟨Store.fresh.setArray "0" ["a"], .fresh 0⟩ : State).store.HoldsArray "0" ["a"] :=
    ⟨rfl, rfl, rfl⟩
  have signed : ∀ k : Nat, k < 2 ^ 64 → ¬ Unsigned (trim "-1".toList) k := by
    intro k small spelled
    have read := position?_eq_some_iff.mpr ⟨spelled, small⟩
    cases read
  obtain ⟨after, appended, positions, counted, _, joined, _, refused⟩ :=
    arrays_grow held ["b,c", ""]
  exact ⟨held, after, appended, (positions 1 (by decide)).1 (by decide),
    (positions 3 (by decide)).2 (by decide), counted, joined, refused "-1" signed⟩

end TableScript
