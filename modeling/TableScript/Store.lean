import TableScript.Code
import TableScript.Table
import TableScript.Value

namespace TableScript

/-! The store of a program or of a nested object.  Scalars, arrays, objects and
functions have tables of their own, so one index may stand for one of each;
registers outlive the calls that set them, and parameters live in scopes. -/

abbrev Scope := Table String

structure Store where
  scalars : Table String
  arrays : Table (List String)
  objects : Table Store
  functions : Table Routine
  registers : Table String
  /-- The scopes of the calls under way, innermost first, above an outermost one. -/
  scopes : List Scope

namespace Store

/-- A store with nothing but its outermost scope. -/
def fresh : Store := ⟨.empty, .empty, .empty, .empty, .empty, [.empty]⟩

/-- The value under an index: its scalar, or else its array as one text. -/
def get (store : Store) (index : String) : Except Error String :=
  match store.scalars.get? index with
  | some value => .ok value
  | none =>
      match store.arrays.get? index with
      | some items => .ok (",".intercalate items)
      | none =>
          if store.objects.contains index then .error (.bind [] (.objectAsValue index))
          else .error (.bind [] (.unknownEntry index))

/-- The item at the position that `element` spells. -/
def item (index element : String) (items : List String) : Except Error String :=
  match Number.position? (Text.trim element.toList) with
  | some position =>
      match items[position]? with
      | some value => .ok value
      | none => .error (.runtime (.outOfBounds index position items.length))
  | none => .error (.runtime (.invalidPosition index element))

/-- What `[index][element]` stands for: a value of the object under the index if there is one,
and an item of its array otherwise. -/
def element (store : Store) (index element : String) : Except Error String :=
  match store.objects.get? index with
  | some object => object.get element
  | none =>
      match store.arrays.get? index with
      | some items => item index element items
      | none => .error (.bind [] (.unknownArray index))

def register (store : Store) (index : String) : Except Error String :=
  match store.registers.get? index with
  | some value => .ok value
  | none => .error (.bind [] (.unknownRegister index))

/-- A parameter of the innermost call.  Other calls under way are not seen. -/
def parameter (store : Store) (name : String) : Except Error String :=
  match store.scopes.head?.bind fun scope => scope.get? name with
  | some value => .ok value
  | none => .error (.bind [] (.unknownParameter name))

def function (store : Store) (index : String) : Except Error Routine :=
  match store.functions.get? index with
  | some routine => .ok routine
  | none => .error (.bind [] (.unknownFunction index))

def object (store : Store) (index : String) : Except Error Store :=
  match store.objects.get? index with
  | some object => .ok object
  | none => .error (.bind [] (.unknownObject index))

def setScalar (store : Store) (index value : String) : Store :=
  { store with scalars := store.scalars.insert index value }

def setArray (store : Store) (index : String) (items : List String) : Store :=
  { store with arrays := store.arrays.insert index items }

def setRegister (store : Store) (index value : String) : Store :=
  { store with registers := store.registers.insert index value }

def setFunction (store : Store) (index : String) (routine : Routine) : Store :=
  { store with functions := store.functions.insert index routine }

def setObject (store : Store) (index : String) (object : Store) : Store :=
  { store with objects := store.objects.insert index object }

def pushScope (store : Store) (scope : Scope) : Store :=
  { store with scopes := scope :: store.scopes }

/-- The innermost scope and the store without it.  The outermost scope stays. -/
def popScope (store : Store) : Except Error (Scope × Store) :=
  if store.scopes.length > 1 then
    match store.scopes with
    | scope :: outer => .ok (scope, { store with scopes := outer })
    | [] => .error (.runtime .noScope)
  else .error (.runtime .outermostScope)

/-- The object at the end of a path of indices. -/
def follow (store : Store) : List String → Except Error Store
  | [] => .ok store
  | index :: path => do
      let object ← store.object index
      object.follow path

end Store

end TableScript
