import TableScript.Proofs.Text.Pieces
import TableScript.Proofs.Traversal

namespace TableScript

open Text

/-! Lists of arguments.  The arguments of a call are the pieces between the commas on the
surface of the list, each read on its own; only a blank list has no argument. -/

namespace Phrase

theorem readAll_eq_mapM (texts : List (List Char)) : readAll texts = texts.mapM read := by
  induction texts with
  | nil =>
      rw [readAll]
      rfl
  | cons text others continued => rw [readAll, List.mapM_cons, continued]

theorem read_of_blank {text : List Char} (blank : Blank text) :
    read text = .error .missingOperand := by
  have missing : shape (trim text) = .error .missingOperand := by
    rw [trim_eq_nil_iff.mpr blank]
    rfl
  rw [read, missing]

/-- The result of reading pieces one after the other: a phrase for each of them in their
order, or else the fault of the first that cannot be read.  A blank one never can. -/
structure ReadInTurn (pieces : List (List Char)) (result : Except PhraseFault (List Phrase)) :
    Prop where
  accepted : ∀ phrases, result = .ok phrases ↔ pieces.map read = phrases.map .ok
  refused : ∀ fault, result = .error fault ↔ ∃ piece, FirstFailure read pieces piece fault
  blank : ∀ piece ∈ pieces, Blank piece → ∃ fault, result = .error fault

theorem readInTurn_readAll (pieces : List (List Char)) : ReadInTurn pieces (readAll pieces) := by
  rw [readAll_eq_mapM]
  refine ⟨fun phrases => mapM_eq_ok_iff, fun fault => mapM_eq_error_iff, ?_⟩
  intro piece member blank
  cases result : pieces.mapM read with
  | error fault => exact ⟨fault, rfl⟩
  | ok phrases =>
      obtain ⟨phrase, accepted⟩ := (exists_of_mapM result).1 piece member
      rw [read_of_blank blank] at accepted
      cases accepted

/-- Splitting at a separator that is no quote and no bracket loses nothing and leaves
nothing to split.  So a list of arguments that is not blank has one argument for each of
the pieces between its commas, read in turn. -/
theorem arguments_lossless {separator : Char} (plain : isDelimiter separator = false)
    (text : List Char) :
    Separated separator text (surfacePieces separator .outside text) ∧
      ∀ inside,
        (Blank inside → readAll (Shape.arguments inside) = .ok []) ∧
        (¬ Blank inside → ReadInTurn (surfacePieces ',' .outside inside)
          (readAll (Shape.arguments inside))) := by
  refine ⟨separated_surfacePieces plain text, fun inside => ⟨fun blank => ?_, fun visible => ?_⟩⟩
  · have empty : (trim inside).isEmpty = true := List.isEmpty_iff.mpr (trim_eq_nil_iff.mpr blank)
    rw [Shape.arguments, if_pos empty, readAll]
  · have given : ¬ (trim inside).isEmpty = true := by
      rwa [List.isEmpty_iff, trim_eq_nil_iff]
    rw [Shape.arguments, if_neg given]
    exact readInTurn_readAll (surfacePieces ',' .outside inside)

/-- Commas in quotes and in brackets of a nested call, a bracket that nothing opened, and
a list whose second argument is missing. -/
theorem arguments_lossless_nested :
    isDelimiter ',' = false ∧
      surfacePieces ',' .outside "'é, ü',f([1, 2], 3),)x".toList =
        ["'é, ü'".toList, "f([1, 2], 3)".toList, ")x".toList] ∧
      separatorCount ',' .outside "'é, ü',f([1, 2], 3),)x".toList = 2 ∧
      surfacePieces ',' .outside "f([1, 2], 3)".toList = ["f([1, 2], 3)".toList] ∧
      readAll (Shape.arguments "'a', , b".toList) = .error .missingOperand ∧
      readAll (Shape.arguments " ".toList) = .ok [] := by
  have plain : isDelimiter ',' = false := rfl
  have pieces : surfacePieces ',' .outside "'é, ü',f([1, 2], 3),)x".toList =
      ["'é, ü'".toList, "f([1, 2], 3)".toList, ")x".toList] := by decide
  obtain ⟨separated, reading⟩ := arguments_lossless plain "'é, ü',f([1, 2], 3),)x".toList
  rw [pieces] at separated
  have visible : ¬ Blank "'a', , b".toList := by
    intro blank
    exact absurd (blank '\'' (by decide)) (by decide)
  have gap : Blank " ".toList := List.forall_mem_singleton.mpr (by decide)
  have quoted : read "'a'".toList = .ok (.literal "a") := (Reads.leaf rfl).read_eq_ok
  refine ⟨plain, pieces, (Nat.succ.inj separated.counted).symm,
    separated.whole _ (by decide), ?_, (reading " ".toList).1 gap⟩
  apply (((reading "'a', , b".toList).2 visible).refused .missingOperand).mpr
  refine ⟨" ".toList, ["'a'".toList], [" b".toList], by decide, ?_, read_of_blank gap⟩
  exact List.forall_mem_singleton.mpr ⟨_, quoted⟩

end Phrase

end TableScript
