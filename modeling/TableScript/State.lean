import TableScript.Store

namespace TableScript

/-! The state of a run: the store in which code runs, and the session that it
shares with all other objects of the program. -/

/-- What all objects of a program share.  The depth and its limit are natural
numbers: that `depth + 1` overflows at the greatest machine word is left out. -/
structure Session where
  output : String
  /-- The number of calls under way, in any object. -/
  depth : Nat
  /-- The greatest number of calls allowed to be under way. -/
  limit : Nat
  journal : Journal

namespace Session

def fresh (limit : Nat) : Session := ⟨"", 0, limit, #[]⟩

def note (session : Session) (event : Event) : Session :=
  { session with journal := session.journal.push event }

def write (session : Session) (text : String) : Session :=
  { session with output := session.output ++ text }

def enterCall (session : Session) (index : String) : Except Error Session :=
  if session.depth + 1 > session.limit then
    .error (.runtime (.depthExceeded session.limit index))
  else .ok { session with depth := session.depth + 1 }

def leaveCall (session : Session) : Session :=
  { session with depth := session.depth - 1 }

end Session

structure State where
  store : Store
  session : Session

namespace State

def fresh (limit : Nat) : State := ⟨.fresh, .fresh limit⟩

def note (state : State) (event : Event) : State :=
  { state with session := state.session.note event }

def setScalar (state : State) (index value : String) : State :=
  { state with store := state.store.setScalar index value }.note (.scalarSet index value)

def setRegister (state : State) (index value : String) : State :=
  { state with store := state.store.setRegister index value }.note (.registerSet index value)

/-- Appends an item to an array, which has to be there. -/
def append (state : State) (index value : String) : Except Error State :=
  match state.store.arrays.get? index with
  | some items =>
      let store := state.store.setArray index (items ++ [value])
      .ok ({ state with store := store }.note (.itemAppended index value))
  | none => .error (.bind [] (.unknownArray index))

def write (state : State) (text : String) : State :=
  { state with session := (state.session.note (.written text)).write text }

/-- The journal so far, and the state with an empty one. -/
def takeJournal (state : State) : Journal × State :=
  (state.session.journal, { state with session := { state.session with journal := #[] } })

/-- The output so far, and the state with none. -/
def takeOutput (state : State) : String × State :=
  (state.session.output, { state with session := { state.session with output := "" } })

/-- Puts the state reached inside the object under `index` back into `outer`. -/
def leaveObject (outer : Store) (index : String) (inner : State) : State :=
  ⟨outer.setObject index inner.store, inner.session⟩

/-- Works in the object at the end of a path, with the session of the whole. -/
def inside {α : Type} (path : List String) (work : State → Except Error α × State)
    (state : State) : Except Error α × State :=
  match path with
  | [] => work state
  | index :: path =>
      match state.store.object index with
      | .ok object =>
          let (result, inner) := inside path work ⟨object, state.session⟩
          (result, leaveObject state.store index inner)
      | .error error => (.error error, state)

end State

end TableScript
