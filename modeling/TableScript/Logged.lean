import TableScript.Error
import TableScript.Event

namespace TableScript

/-! Work that keeps a journal.  The journal survives a failure: it tells what
was done up to it. -/

structure Logged (α : Type) where
  journal : Journal
  result : Except Error α

namespace Logged

variable {α β : Type}

def ok (value : α) : Logged α := ⟨#[], .ok value⟩

def ofExcept (result : Except Error α) : Logged α := ⟨#[], result⟩

def note (event : Event) : Logged Unit := ⟨#[event], .ok ()⟩

/-- Goes on with the value of `first`, if there is one, after its journal. -/
def andThen (first : Logged α) (next : α → Logged β) : Logged β :=
  match first.result with
  | .ok value =>
      let second := next value
      ⟨first.journal ++ second.journal, second.result⟩
  | .error error => ⟨first.journal, .error error⟩

def within (site : Site) (work : Logged α) : Logged α :=
  ⟨work.journal, work.result.mapError (Error.within site)⟩

end Logged

instance : Monad Logged where
  pure := Logged.ok
  bind := Logged.andThen

namespace Logged

variable {α β : Type}

@[simp] theorem result_pure (value : α) : (pure value : Logged α).result = .ok value := rfl

@[simp] theorem result_ok (value : α) : (Logged.ok value).result = .ok value := rfl

@[simp] theorem result_note (event : Event) : (note event).result = .ok () := rfl

@[simp] theorem result_ofExcept (result : Except Error α) : (ofExcept result).result = result :=
  rfl

/-- The journal has no influence on results. -/
@[simp] theorem result_bind (first : Logged α) (next : α → Logged β) :
    (first >>= next).result = first.result >>= fun value => (next value).result := by
  cases reached : first.result <;> simp [bind, andThen, reached, Except.bind]

@[simp] theorem result_within (site : Site) (work : Logged α) :
    (work.within site).result = work.result.mapError (Error.within site) := rfl

end Logged

end TableScript
