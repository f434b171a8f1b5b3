namespace TableScript

/-! Tables: values under text keys.  A value inserted under a key that is
already there takes its place, so every key occurs once in a table that was
built by insertion. -/

structure Table (α : Type) where
  entries : List (String × α)

namespace Table

variable {α : Type}

def empty : Table α := ⟨[]⟩

def get? (table : Table α) (key : String) : Option α :=
  table.entries.lookup key

def contains (table : Table α) (key : String) : Bool :=
  (table.get? key).isSome

def insertEntry (key : String) (value : α) : List (String × α) → List (String × α)
  | [] => [(key, value)]
  | (other, held) :: rest =>
      if key = other then (key, value) :: rest else (other, held) :: insertEntry key value rest

def insert (table : Table α) (key : String) (value : α) : Table α :=
  ⟨insertEntry key value table.entries⟩

/-- Inserts pairs in their order, so that the last one of a key counts. -/
def ofPairs (pairs : List (String × α)) : Table α :=
  pairs.foldl (fun table (key, value) => table.insert key value) empty

@[simp] theorem get?_empty (key : String) : (empty : Table α).get? key = none := rfl

theorem get?_insert (table : Table α) (key : String) (value : α) (sought : String) :
    (table.insert key value).get? sought =
      if sought = key then some value else table.get? sought := by
  simp only [get?, insert]
  induction table.entries with
  | nil =>
      by_cases same : sought = key
      · simp [insertEntry, same]
      · have unequal : (sought == key) = false := by simpa using same
        simp [insertEntry, List.lookup_cons, same, unequal]
  | cons entry rest continued =>
      obtain ⟨other, held⟩ := entry
      by_cases replaced : key = other
      · subst replaced
        by_cases same : sought = key
        · simp [insertEntry, same]
        · have unequal : (sought == key) = false := by simpa using same
          simp [insertEntry, List.lookup_cons, same, unequal]
      · by_cases found : sought = other
        · subst found
          have different : sought ≠ key := fun equal => replaced equal.symm
          simp [insertEntry, replaced, different]
        · have unequal : (sought == other) = false := by simpa using found
          simp only [insertEntry, if_neg replaced, List.lookup_cons, unequal, continued]

@[simp] theorem get?_insert_self (table : Table α) (key : String) (value : α) :
    (table.insert key value).get? key = some value := by
  simp [get?_insert]

theorem get?_insert_of_ne (table : Table α) (value : α) {key sought : String}
    (different : sought ≠ key) : (table.insert key value).get? sought = table.get? sought := by
  simp [get?_insert, different]

end Table

end TableScript
