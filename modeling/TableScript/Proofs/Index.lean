import TableScript.Index
import TableScript.Proofs.Text.Blank
import TableScript.Text.Nesting

namespace TableScript

open Text

/-! Indices hold none of the characters that mean something to a reader of
texts: no blanks, no quotes, no brackets, and of the operators only `-`. -/

variable {text : List Char} {c : Char}

theorem toNat_of_isIndexChar (valid : isIndexChar c = true) : 45 ≤ c.toNat ∧ c.toNat ≤ 122 := by
  delta isIndexChar Char.isAlphanum Char.isAlpha Char.isUpper Char.isLower Char.isDigit at valid
  simp only [Bool.or_eq_true, Bool.and_eq_true, decide_eq_true_eq, beq_iff_eq, ge_iff_le,
    UInt32.le_iff_toNat_le] at valid
  rcases valid with (((upper | lower) | digit) | rfl) | rfl
  · exact ⟨Nat.le_trans (by decide) upper.1, Nat.le_trans upper.2 (by decide)⟩
  · exact ⟨Nat.le_trans (by decide) lower.1, Nat.le_trans lower.2 (by decide)⟩
  · exact ⟨Nat.le_trans (by decide) digit.1, Nat.le_trans digit.2 (by decide)⟩
  · decide
  · decide

theorem isBlank_of_isIndexChar (valid : isIndexChar c = true) : isBlank c = false := by
  have bounds := toNat_of_isIndexChar valid
  simp only [isBlank, blankRanges, List.any_cons, List.any_nil, Bool.or_false,
    Bool.or_eq_false_iff, Bool.and_eq_false_iff, decide_eq_false_iff_not]
  omega

theorem isDelimiter_of_isIndexChar (valid : isIndexChar c = true) : isDelimiter c = false := by
  by_contra delimiter
  simp only [Bool.not_eq_false, isDelimiter, Bool.or_eq_true, beq_iff_eq] at delimiter
  rcases delimiter with (((rfl | rfl) | rfl) | rfl) | rfl <;> revert valid <;> decide

theorem isIndexChar_of_mem (valid : isIndex text = true) (member : c ∈ text) :
    isIndexChar c = true := by
  simp only [isIndex, Bool.and_eq_true, List.all_eq_true] at valid
  exact valid.2 c member

theorem not_mem_of_isIndex (valid : isIndex text = true) (other : isIndexChar c = false) :
    c ∉ text := by
  intro member
  rw [isIndexChar_of_mem valid member] at other
  cases other

theorem isIndex_ne_nil (valid : isIndex text = true) : text ≠ [] := by
  rintro rfl
  cases valid

theorem isIndex_trimmed (valid : isIndex text = true) : Trimmed text where
  start _ first := isBlank_of_isIndexChar (isIndexChar_of_mem valid (List.mem_of_head? first))
  finish _ last := isBlank_of_isIndexChar (isIndexChar_of_mem valid (List.mem_of_getLast? last))

end TableScript
