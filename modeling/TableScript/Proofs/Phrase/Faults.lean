import TableScript.Proofs.Traversal

namespace TableScript

/-! The faults of lines.  A line that is no phrase is refused in the reader's own
words, whichever of its parts is at fault. -/

def PhraseFault.own : PhraseFault → Bool
  | reported _ => false
  | _ => true

/-- If the reading fails, then in the words of the reader. -/
abbrev Owned {α : Type} (reading : Except PhraseFault α) : Prop :=
  FailsOnly (fun fault => fault.own = true) reading

theorem Target.owned_read (text : List Char) : Owned (Target.read text) := by
  simp only [Target.read]
  split
  · split
    · exact .ok _
    · exact .error rfl
  · split
    · exact .ok _
    · split
      · split
        · exact .error rfl
        · split
          · exact .ok _
          · split
            · exact .ok _
            · exact .error rfl
      · exact .error rfl

namespace Shape

theorem owned_entry (text : List Char) : Owned (entry text) := by
  unfold entry
  split
  · split
    · exact .error rfl
    · split
      · exact .ok _
      · split
        · split <;> exact .ok _
        · exact .error rfl
  · exact .error rfl

theorem owned_literal (text : List Char) : Owned (literal text) := by
  unfold literal
  split
  · exact .ok _
  · split
    · exact .ok _
    · exact .error rfl

theorem owned_atom (text : List Char) : Owned (atom text) := by
  unfold atom
  split
  · split
    · exact .ok _
    · exact .error rfl
  · split
    · split
      · exact .ok _
      · exact .error rfl
    · exact owned_entry _
    · split
      · exact .ok _
      · exact .error rfl
    · exact owned_literal _

theorem owned_shape (text : List Char) : Owned (shape text) := by
  unfold shape
  split
  · exact .error rfl
  · split
    · rename_i left _ _
      split
      · exact .ok _
      · rename_i unread
        exact .error (Target.owned_read left _ unread)
    · split
      · exact .ok _
      · split
        · exact .ok _
        · split
          · exact .ok _
          · split
            · exact .ok _
            · exact owned_atom text

end Shape

namespace Phrase

theorem owned_read_both :
    (∀ text, Owned (read text)) ∧ ∀ texts, Owned (readAll texts) := by
  apply read.mutual_induct
  · intro text fault found
    rw [read, found]
    exact .error (Shape.owned_shape (Text.trim text) fault found)
  · intro text leaf found
    rw [read, found]
    exact .ok leaf
  · intro text target value found inner
    rw [read, found]
    exact inner.bind fun _ => .ok _
  · intro text op left right found inLeft inRight
    rw [read, found]
    exact inLeft.bind fun _ => inRight.bind fun _ => .ok _
  · intro text op left right found inLeft inRight
    rw [read, found]
    exact inLeft.bind fun _ => inRight.bind fun _ => .ok _
  · intro text left right found inLeft inRight
    rw [read, found]
    exact inLeft.bind fun _ => inRight.bind fun _ => .ok _
  · intro text callee arguments found inner
    rw [read, found]
    exact inner.bind fun _ => .ok _
  · intro text name arguments found inner
    rw [read, found]
    exact inner.bind fun _ => .ok _
  · intro text index key found inner
    rw [read, found]
    exact inner.bind fun _ => .ok _
  · rw [readAll]
    exact .ok _
  · intro text others first rest
    rw [readAll]
    exact first.bind fun _ => rest.bind fun _ => .ok _

theorem owned_read (text : List Char) : Owned (read text) :=
  owned_read_both.1 text

theorem owned_readClause (text : List Char) : Owned (readClause text) := by
  unfold readClause
  split
  · rename_i unread
    exact .error (owned_read text _ unread)
  · exact .ok _
  · exact .error rfl

theorem owned_readLine (line : List Char) : Owned (readLine line) := by
  simp only [readLine]
  split
  · exact (owned_readClause _).bind fun _ => .ok _
  · split
    · unfold readForHeader
      split
      · exact (owned_readClause _).bind fun _ => (owned_read _).bind fun _ => .ok _
      · exact .error rfl
    · split
      · exact .ok _
      · exact owned_read _

end Phrase

end TableScript
