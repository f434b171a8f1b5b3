import Mathlib.Data.List.Basic
import TableScript.Proofs.Text.Blank
import TableScript.Text.Cut

namespace TableScript.Text

/-! Where the cuts fall in a text that is given as its parts. -/

theorem append_eq_append_cons {first second before after : List Char} {c : Char}
    (same : first ++ second = before ++ c :: after) :
    (∃ rest, first = before ++ c :: rest ∧ after = rest ++ second) ∨
      ∃ rest, before = first ++ rest ∧ second = rest ++ c :: after := by
  rcases List.append_eq_append_iff.mp same with ⟨rest, late, ahead⟩ | ⟨rest, early, ahead⟩
  · exact .inr ⟨rest, late, ahead⟩
  · cases rest with
    | nil => exact .inr ⟨[], by simpa using early.symm, by simpa using ahead.symm⟩
    | cons d rest =>
        rw [List.cons_append, List.cons.injEq] at ahead
        obtain ⟨rfl, rfl⟩ := ahead
        exact .inl ⟨rest, early, rfl⟩

/-- A text that lacks a character cannot reach across it. -/
theorem infix_append_cons {pattern front back : List Char} {c : Char} (apart : c ∉ pattern)
    (found : pattern <:+: front ++ c :: back) : pattern <:+: front ∨ pattern <:+: back := by
  obtain ⟨before, after, whole⟩ := found
  rcases append_eq_append_cons whole with ⟨rest, start, rfl⟩ | ⟨rest, rfl, _⟩
  · rcases append_eq_append_cons start with ⟨middle, _, rfl⟩ | ⟨middle, _, rfl⟩
    · exact .inr ⟨middle, after, rfl⟩
    · exact absurd (by simp) apart
  · exact .inl ⟨before, rest, rfl⟩

theorem cutAt?_append {stop : Char → Bool} {before after : List Char} {c : Char}
    (passed : ∀ d ∈ before, stop d = false) (stopped : stop c = true) :
    cutAt? stop (before ++ c :: after) = some (before, after) := by
  induction before with
  | nil => simp [cutAt?, stopped]
  | cons d before continued =>
      rw [List.forall_mem_cons] at passed
      simp [cutAt?, passed.1, continued passed.2]

theorem cutAtPattern?_eq_append {pattern text before after : List Char}
    (cut : cutAtPattern? pattern text = some (before, after)) :
    text = before ++ pattern ++ after := by
  induction text generalizing before with
  | nil =>
      simp only [cutAtPattern?, Option.map_eq_some_iff, Prod.mk.injEq] at cut
      obtain ⟨rest, found, rfl, rfl⟩ := cut
      exact (List.isPrefixOf?_eq_some_iff_append_eq.mp found).symm
  | cons c text continued =>
      simp only [cutAtPattern?] at cut
      split at cut
      · rename_i rest found
        cases cut
        exact (List.isPrefixOf?_eq_some_iff_append_eq.mp found).symm
      · simp only [Option.map_eq_some_iff, Prod.mk.injEq] at cut
        obtain ⟨⟨start, rest⟩, found, rfl, rfl⟩ := cut
        rw [continued found]
        rfl

theorem occursIn_eq_false {pattern text : List Char} (absent : ¬ pattern <:+: text) :
    occursIn pattern text = false := by
  rw [occursIn, Option.isSome_eq_false_iff, Option.isNone_iff_eq_none,
    Option.eq_none_iff_forall_ne_some]
  rintro ⟨before, after⟩ cut
  exact absent ⟨before, after, (cutAtPattern?_eq_append cut).symm⟩

/-- The first occurrence of a pattern comes right after a text without its first
character. -/
theorem cutAtPattern?_append {c : Char} {before : List Char} (absent : c ∉ before)
    (pattern after : List Char) :
    cutAtPattern? (c :: pattern) (before ++ c :: (pattern ++ after)) = some (before, after) := by
  induction before with
  | nil =>
      have found : (c :: pattern).isPrefixOf? (c :: (pattern ++ after)) = some after :=
        List.isPrefixOf?_eq_some_iff_append_eq.mpr rfl
      simp only [List.nil_append, cutAtPattern?, found]
  | cons d before continued =>
      rw [List.mem_cons, not_or] at absent
      have other : (c == d) = false := beq_eq_false_iff_ne.mpr absent.1
      simp [cutAtPattern?, List.isPrefixOf?, other, continued absent.2]

theorem firstBracket?_eq_some {text index rest : List Char}
    (found : firstBracket? text = some (index, rest)) :
    ∃ inside, text = '[' :: inside ++ ']' :: rest ∧ index = trim inside := by
  unfold firstBracket? at found
  split at found
  · simp only [Option.map_eq_some_iff, Prod.mk.injEq] at found
    obtain ⟨⟨inside, after⟩, cut, rfl, rfl⟩ := found
    obtain ⟨c, closing, rfl⟩ := cutAt?_eq_append cut
    rw [beq_iff_eq.mp closing]
    exact ⟨inside, rfl, rfl⟩
  · cases found

theorem firstBracket?_append {inside rest : List Char} (trimmed : Trimmed inside)
    (unclosed : ']' ∉ inside) :
    firstBracket? ('[' :: inside ++ ']' :: rest) = some (inside, rest) := by
  have cut : cutAt? (· == ']') (inside ++ ']' :: rest) = some (inside, rest) := by
    apply cutAt?_append
    · intro d member
      rw [beq_eq_false_iff_ne]
      rintro rfl
      exact unclosed member
    · rfl
  simp [firstBracket?, cut, trim_eq_self trimmed]

theorem wholeBracket?_append {inside : List Char} (trimmed : Trimmed inside) :
    wholeBracket? ('[' :: inside ++ [']']) = some inside := by
  rw [wholeBracket?, between?_append, Option.map_some, trim_eq_self trimmed]

/-! ### Replacing -/

section

variable {pattern replacement : List Char}

/-- The rest of an occurrence that reaches the end of a text leaves nothing. -/
theorem replaceFrom_eq_nil {skip : Nat} {text : List Char} (all : text.length ≤ skip) :
    replaceFrom pattern replacement skip text = [] := by
  induction text generalizing skip with
  | nil => cases skip <;> rfl
  | cons c rest continued =>
      cases skip with
      | zero => cases all
      | succ skip => exact continued (Nat.le_of_succ_le_succ all)

theorem head?_replaceFrom (given : replacement ≠ []) (text : List Char) :
    (replaceFrom pattern replacement 0 text).head? = text.head? ∨
      (replaceFrom pattern replacement 0 text).head? = replacement.head? := by
  cases text with
  | nil => exact .inl rfl
  | cons c rest =>
      obtain ⟨d, more, rfl⟩ := List.exists_cons_of_ne_nil given
      simp only [replaceFrom]
      split
      · exact .inr rfl
      · exact .inl rfl

/-- What becomes of a text ends as the text does, or as the replacement. -/
theorem getLast?_replaceFrom (given : replacement ≠ []) {skip : Nat} {text : List Char}
    (more : skip < text.length) :
    (replaceFrom pattern replacement skip text).getLast? = text.getLast? ∨
      (replaceFrom pattern replacement skip text).getLast? = replacement.getLast? := by
  induction text generalizing skip with
  | nil => cases more
  | cons c rest continued =>
      -- The end of the text lies in its rest, and so does the end of what becomes of it.
      have carried {front : List Char} {skip : Nat} (further : skip < rest.length) :
          (front ++ replaceFrom pattern replacement skip rest).getLast? = (c :: rest).getLast? ∨
            (front ++ replaceFrom pattern replacement skip rest).getLast? =
              replacement.getLast? := by
        have nonempty : rest ≠ [] := List.ne_nil_of_length_pos (Nat.zero_lt_of_lt further)
        have last : (c :: rest).getLast? = rest.getLast? :=
          List.getLast?_append_of_ne_nil [c] nonempty
        have kept := continued further
        rw [last]
        cases changed : replaceFrom pattern replacement skip rest with
        | nil => simp [changed, eq_comm, nonempty, given] at kept
        | cons d others =>
            rw [List.getLast?_append_of_ne_nil front (List.cons_ne_nil d others), ← changed]
            exact kept
      cases skip with
      | succ skip => exact @carried [] skip (Nat.lt_of_succ_lt_succ more)
      | zero =>
          rw [replaceFrom]
          split
          · by_cases further : pattern.length - 1 < rest.length
            · exact carried further
            · rw [replaceFrom_eq_nil (Nat.le_of_not_lt further), List.append_nil]
              exact .inr rfl
          · cases rest with
            | nil => exact .inl rfl
            | cons d others => exact @carried [c] 0 (Nat.succ_pos _)

theorem trimmed_replaceAll {text : List Char} (given : replacement ≠ [])
    (kept : Trimmed replacement) (trimmed : Trimmed text) :
    Trimmed (replaceAll pattern replacement text) := by
  cases text with
  | nil => exact trimmed
  | cons c rest =>
      have visible : 0 < (c :: rest).length := Nat.succ_pos _
      constructor
      · intro d first
        rcases head?_replaceFrom given (c :: rest) with same | same
        · exact trimmed.start d (same.symm.trans first)
        · exact kept.start d (same.symm.trans first)
      · intro d last
        rcases getLast?_replaceFrom given visible with same | same
        · exact trimmed.finish d (same.symm.trans last)
        · exact kept.finish d (same.symm.trans last)

theorem replaceAll_eq_nil_iff {text : List Char} (given : replacement ≠ []) :
    replaceAll pattern replacement text = [] ↔ text = [] := by
  cases text with
  | nil => simp [replaceAll, replaceFrom]
  | cons c rest =>
      simp only [replaceAll, replaceFrom]
      split <;> simp [given]

end

end TableScript.Text
