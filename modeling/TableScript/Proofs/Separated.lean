import TableScript.Phrase.Printer
import TableScript.Proofs.Text.Blank

namespace TableScript

open Text

/-! Items separated by commas: the arguments of a call, the parameters of a
function and the items of an array are all written this way. -/

theorem commaSeparated_cons_cons (item next : List Char) (others : List (List Char)) :
    commaSeparated (item :: next :: others) =
      item ++ [',', ' '] ++ commaSeparated (next :: others) :=
  rfl

theorem not_mem_commaSeparated {texts : List (List Char)} {c : Char}
    (apart : c ≠ ',' ∧ c ≠ ' ') (absent : ∀ text ∈ texts, c ∉ text) :
    c ∉ commaSeparated texts := by
  induction texts with
  | nil => exact List.not_mem_nil
  | cons item others continued =>
      rw [List.forall_mem_cons] at absent
      cases others with
      | nil => exact absent.1
      | cons next later =>
          rw [commaSeparated_cons_cons]
          simp [absent.1, apart, continued absent.2]

theorem splitOn_commaSeparated {item : List Char} {others : List (List Char)}
    (unseparated : ∀ text ∈ item :: others, ',' ∉ text) :
    (commaSeparated (item :: others)).splitOn ',' = item :: others.map (' ' :: ·) := by
  induction others generalizing item with
  | nil => exact List.splitOn_eq_singleton (unseparated item (by simp))
  | cons next rest continued =>
      rw [List.forall_mem_cons] at unseparated
      rw [commaSeparated_cons_cons, List.append_assoc, List.cons_append,
        List.splitOn_append_cons_self_of_not_mem unseparated.1,
        List.singleton_append, List.splitOn_cons_eq_if_modifyHead, continued unseparated.2]
      rfl

theorem trim_commaSeparated {item : List Char} {others : List (List Char)} {c : Char}
    (member : c ∈ item) (visible : isBlank c = false) :
    ¬ (trim (commaSeparated (item :: others))).isEmpty = true := by
  have inside : c ∈ commaSeparated (item :: others) := by
    cases others <;> simp [commaSeparated, member]
  have kept := mem_trim inside visible
  rw [List.isEmpty_iff]
  intro empty
  rw [empty] at kept
  cases kept

end TableScript
