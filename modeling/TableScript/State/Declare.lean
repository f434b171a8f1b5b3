import TableScript.Layout
import TableScript.State

namespace TableScript.State

/-! Entering declarations into a state.  The declarations before a faulty one
stay; an object is entered only when all its members are. -/

def defineFunction (state : State) (index : String) (tree : FunctionTree) :
    Except Error Unit × State :=
  match tree.compile with
  | .ok routine =>
      let state := state.note (.functionCompiled routine.index)
      (.ok (), { state with store := state.store.setFunction index routine })
  | .error error => (.error error, state)

mutual

def declare : Declaration FunctionTree → State → Except Error Unit × State
  | .scalar index _ value, state => (.ok (), state.setScalar index value)
  | .array index _ items, state =>
      (.ok (), { state with store := state.store.setArray index items })
  | .object index _ members, state =>
      match declareAll members ⟨.fresh, state.session⟩ with
      | (.ok (), inner) =>
          (.ok (), leaveObject state.store index (inner.note (.objectCompiled index)))
      | (.error error, inner) => (.error error, ⟨state.store, inner.session⟩)
  | .function index _ tree, state => state.defineFunction index tree

/-- Enters declarations in their order, up to the first faulty one. -/
def declareAll : List (Declaration FunctionTree) → State → Except Error Unit × State
  | [], state => (.ok (), state)
  | declaration :: others, state =>
      match declare declaration state with
      | (.ok (), state) => declareAll others state
      | (.error error, state) => (.error error, state)

end

/-- Goes on with the result of work that keeps a journal, which is added to the
journal of the state. -/
def absorb {α β : Type} (work : Logged α) (next : α → State → Except Error β × State)
    (state : State) : Except Error β × State :=
  let session := { state.session with journal := state.session.journal ++ work.journal }
  match work.result with
  | .ok value => next value { state with session := session }
  | .error error => (.error error, { state with session := session })

def defineText (index : String) (text : FunctionText) (state : State) :
    Except Error Unit × State :=
  absorb (FunctionTree.ofText index text) (fun tree state => state.defineFunction index tree) state

def readProgram (source : String) : Logged (List (Declaration FunctionTree)) := do
  let declarations ← Layout.read source.toList
  Declaration.parseAll declarations

def load (source : String) (state : State) : Except Error Unit × State :=
  absorb (readProgram source) declareAll state

end TableScript.State
