import TableScript.Proofs.Run.Steps

namespace TableScript

/-! What calls give back.  A call takes a scope in the store it runs in and a level
of the depth that all objects share, and it gives both back on every exit.  So a
run leaves the scopes of every object and the depth as it found them. -/

namespace Store

/-- The scopes of the object at the end of a path. -/
def scopesAt (store : Store) (path : List String) : Except Error (List Scope) :=
  (store.follow path).map scopes

/-- No object, the store itself included, is without a scope. -/
def Framed (store : Store) : Prop :=
  ∀ path, store.scopesAt path ≠ .ok []

/-- Every object has one scope, which binds nothing. -/
def Idle (store : Store) : Prop :=
  ∀ path found, store.scopesAt path = .ok found → found = [.empty]

@[simp] theorem scopesAt_nil (store : Store) : store.scopesAt [] = .ok store.scopes := rfl

theorem scopesAt_cons (store : Store) (index : String) (path : List String) :
    store.scopesAt (index :: path) =
      (store.object index).bind fun object => object.scopesAt path := by
  simp only [scopesAt, follow]
  cases store.object index <;> rfl

theorem scopesAt_congr {before after : Store} (sameScopes : after.scopes = before.scopes)
    (sameObjects : after.objects = before.objects) (path : List String) :
    after.scopesAt path = before.scopesAt path := by
  cases path with
  | nil => simp only [scopesAt_nil, sameScopes]
  | cons index path => simp only [scopesAt_cons, object, sameObjects]

/-- The scopes below an index depend on the objects of a store alone. -/
theorem scopesAt_cons_congr {before after : Store} (sameObjects : after.objects = before.objects)
    (index : String) (path : List String) :
    after.scopesAt (index :: path) = before.scopesAt (index :: path) := by
  simp only [scopesAt_cons, object, sameObjects]

theorem object_setObject (store : Store) (index : String) (inner : Store) (sought : String) :
    (store.setObject index inner).object sought =
      if sought = index then .ok inner else store.object sought := by
  simp only [object, setObject, Table.get?_insert]
  by_cases here : sought = index
  · simp only [if_pos here]
  · simp only [if_neg here]

theorem scopesAt_setObject {store object inner : Store} {index : String}
    (found : store.object index = .ok object)
    (same : ∀ path, inner.scopesAt path = object.scopesAt path) (path : List String) :
    (store.setObject index inner).scopesAt path = store.scopesAt path := by
  cases path with
  | nil => rfl
  | cons first rest =>
      rw [scopesAt_cons, scopesAt_cons, object_setObject]
      by_cases here : first = index
      · subst here
        simp only [if_true, found, Except.bind, same]
      · simp only [if_neg here]

theorem Framed.object {store inner : Store} {index : String} (framed : store.Framed)
    (found : store.object index = .ok inner) : inner.Framed := by
  intro path
  have outer := framed (index :: path)
  simpa only [scopesAt_cons, found, Except.bind] using outer

theorem Framed.pushScope {store : Store} (framed : store.Framed) (scope : Scope) :
    (store.pushScope scope).Framed := by
  intro path
  cases path with
  | nil =>
      intro empty
      cases empty
  | cons index path =>
      have same : (store.pushScope scope).scopesAt (index :: path) =
          store.scopesAt (index :: path) := scopesAt_cons_congr rfl index path
      rw [same]
      exact framed (index :: path)

theorem Idle.framed {store : Store} (idle : store.Idle) : store.Framed := by
  intro path empty
  have single := idle path [] empty
  cases single

theorem popScope_cons {store : Store} {scope next : Scope} {outer : List Scope}
    (stack : store.scopes = scope :: next :: outer) :
    store.popScope = .ok (scope, { store with scopes := next :: outer }) := by
  simp [popScope, stack]

end Store

namespace State

/-- The second state has the scopes, the depth and the limit of the first. -/
structure Released (before after : State) : Prop where
  scopes : ∀ path, after.store.scopesAt path = before.store.scopesAt path
  depth : after.session.depth = before.session.depth
  limit : after.session.limit = before.session.limit

namespace Released

variable {before middle after : State}

theorem refl (state : State) : Released state state :=
  ⟨fun _ => rfl, rfl, rfl⟩

theorem trans (first : Released before middle) (second : Released middle after) :
    Released before after :=
  ⟨fun path => (second.scopes path).trans (first.scopes path), second.depth.trans first.depth,
    second.limit.trans first.limit⟩

theorem framed (released : Released before after) (framed : before.store.Framed) :
    after.store.Framed := by
  intro path
  rw [released.scopes path]
  exact framed path

theorem idle (released : Released before after) (idle : before.store.Idle) :
    after.store.Idle := by
  intro path found reached
  rw [released.scopes path] at reached
  exact idle path found reached

/-- A step that touches neither scopes nor objects nor the depth. -/
theorem of_eq (sameScopes : after.store.scopes = before.store.scopes)
    (sameObjects : after.store.objects = before.store.objects)
    (sameDepth : after.session.depth = before.session.depth)
    (sameLimit : after.session.limit = before.session.limit) : Released before after :=
  ⟨Store.scopesAt_congr sameScopes sameObjects, sameDepth, sameLimit⟩

end Released

end State

namespace Session

theorem enterCall_ok {session entered : Session} {index : String}
    (accepted : session.enterCall index = .ok entered) :
    session.depth + 1 ≤ session.limit ∧ entered.depth = session.depth + 1 ∧
      entered.limit = session.limit := by
  unfold enterCall at accepted
  split at accepted
  · cases accepted
  · rename_i room
    cases accepted
    exact ⟨Nat.le_of_not_gt room, rfl, rfl⟩

end Session

namespace Run

open State

/-- Leaving a call undoes what entering it did, if the body released its own
calls.  The scope of the call lies above another one, so it can be taken away. -/
theorem release_entered {state inner : State} {index : String} {session : Session}
    (scope : Scope) (framed : state.store.Framed)
    (entered : state.session.enterCall index = .ok session)
    (body : Released ⟨state.store.pushScope scope, session⟩ inner) :
    Released state (release inner).2 := by
  obtain ⟨_, deeper, limit⟩ := Session.enterCall_ok entered
  have stack : inner.store.scopes = scope :: state.store.scopes :=
    Except.ok.inj (body.scopes [])
  cases below : state.store.scopes with
  | nil => exact absurd (congrArg Except.ok below) (framed [])
  | cons next outer =>
      have popped : inner.store.popScope =
          .ok (scope, { inner.store with scopes := next :: outer }) :=
        Store.popScope_cons (stack.trans (congrArg (scope :: ·) below))
      simp only [release, popped]
      refine ⟨?_, ?_, body.limit.trans limit⟩
      · intro path
        cases path with
        | nil => simp only [Store.scopesAt_nil, below]
        | cons first rest =>
            calc Store.scopesAt _ (first :: rest)
                = inner.store.scopesAt (first :: rest) :=
                  Store.scopesAt_cons_congr rfl first rest
              _ = (state.store.pushScope scope).scopesAt (first :: rest) :=
                  body.scopes (first :: rest)
              _ = state.store.scopesAt (first :: rest) :=
                  Store.scopesAt_cons_congr rfl first rest
      · have same : inner.session.depth = session.depth := body.depth
        simp only [Session.leaveCall]
        omega

theorem respects_released :
    Respects fun before after => before.store.Framed → Released before after where
  refl state _ := .refl state
  trans first second framed := (first framed).trans (second ((first framed).framed framed))
  note state event _ := .of_eq rfl rfl rfl rfl
  setScalar state index value _ := .of_eq rfl rfl rfl rfl
  setRegister state index value _ := .of_eq rfl rfl rfl rfl
  append := by
    intro state index value after appended _
    unfold State.append at appended
    split at appended
    · cases appended
      exact .of_eq rfl rfl rfl rfl
    · cases appended
  write state text _ := .of_eq rfl rfl rfl rfl
  call scope entered body framed :=
    release_entered scope framed entered (body (framed.pushScope scope))
  object found inner framed :=
    have released := inner (framed.object found)
    ⟨Store.scopesAt_setObject found released.scopes, released.depth, released.limit⟩

end Run

end TableScript
