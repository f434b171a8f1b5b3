import TableScript.Proofs.Text.Surface

namespace TableScript.Text

/-! Quotes in pairs.  A walk over a text turns its flag at every quote, so that a
position is outside quotes if and only if the quotes before it come in pairs. -/

/-- Every quote is closed by another. -/
def Paired (text : List Char) : Prop :=
  text.count '\'' % 2 = 0

theorem paired_of_not_mem {text : List Char} (absent : '\'' ∉ text) : Paired text := by
  rw [Paired, List.count_eq_zero.mpr absent]

theorem paired_trim {text : List Char} : Paired (trim text) ↔ Paired text := by
  rw [Paired, count_trim (by decide), Paired]

theorem Paired.append {first second : List Char} (left : Paired first) (right : Paired second) :
    Paired (first ++ second) := by
  unfold Paired at *
  rw [List.count_append]
  omega

theorem Paired.enclosed {opening closing : Char} {inside : List Char} (inner : Paired inside)
    (plain : opening ≠ '\'' ∧ closing ≠ '\'') : Paired (opening :: inside ++ [closing]) := by
  have first : Paired [opening] := paired_of_not_mem (by simpa using plain.1.symm)
  have last : Paired [closing] := paired_of_not_mem (by simpa using plain.2.symm)
  exact (first.append inner).append last

/-- The flag of a walk counts the quotes. -/
theorem quoted_after (nesting : Nesting) (text : List Char) :
    (nesting.after text).quoted = (nesting.quoted ^^ text.count '\'' % 2 == 1) := by
  induction text generalizing nesting with
  | nil => simp
  | cons c rest continued =>
      rw [Nesting.after_cons, continued]
      by_cases quote : c = '\''
      · subst quote
        have turned : (nesting.step '\'').quoted = !nesting.quoted := by simp [Nesting.step]
        rw [turned, List.count_cons_self]
        rcases Nat.mod_two_eq_zero_or_one (rest.count '\'') with even | odd
        · have next : (rest.count '\'' + 1) % 2 = 1 := by omega
          simp [even, next]
        · have next : (rest.count '\'' + 1) % 2 = 0 := by omega
          simp [odd, next]
      · have kept : (nesting.step c).quoted = nesting.quoted := by
          simp only [Nesting.step, beq_iff_eq, quote, if_false]
          split
          · rfl
          · split
            · rfl
            · split <;> rfl
        rw [kept, List.count_cons_of_ne quote]

theorem paired_of_isOutside {text : List Char}
    (outside : (Nesting.outside.after text).isOutside = true) : Paired text := by
  have unquoted : (Nesting.outside.after text).quoted = false := by
    simp only [Nesting.isOutside, Bool.and_eq_true, Bool.not_eq_true'] at outside
    exact outside.1
  have flag := quoted_after Nesting.outside text
  rw [unquoted] at flag
  rcases Nat.mod_two_eq_zero_or_one (text.count '\'') with even | odd
  · exact even
  · simp [Nesting.outside, odd] at flag

theorem Parted.paired {text left separator right : List Char}
    (parted : Parted text left separator right) (paired : Paired right) : Paired text := by
  have plain : '\'' ∉ separator := fun member => absurd (parted.plain '\'' member) (by decide)
  rw [parted.whole]
  have outside : (Nesting.outside.after left).isOutside = true := by rw [parted.outside]; rfl
  exact ((paired_of_isOutside outside).append (paired_of_not_mem plain)).append paired

/-- The separators are all that is lost. -/
theorem count_flatten_surfacePieces {c separator : Char} (different : c ≠ separator)
    (nesting : Nesting) (text : List Char) :
    (surfacePieces separator nesting text).flatten.count c = text.count c := by
  induction text generalizing nesting with
  | nil => rfl
  | cons d rest continued =>
      have later := continued (nesting.step d)
      simp only [surfacePieces]
      split
      · rename_i separated
        simp only [Bool.and_eq_true, beq_iff_eq] at separated
        rw [List.flatten_cons, List.nil_append, later, separated.2,
          List.count_cons_of_ne different.symm]
      · split
        · rename_i piece others same
          rw [same, List.flatten_cons] at later
          rw [List.flatten_cons, List.cons_append, List.count_cons, List.count_cons, later]
        · rename_i none
          rw [none, List.flatten_nil, List.count_nil] at later
          simp [List.count_cons, ← later]

theorem paired_of_surfacePieces {separator : Char} (different : '\'' ≠ separator)
    {nesting : Nesting} {text : List Char}
    (pieces : ∀ piece ∈ surfacePieces separator nesting text, Paired piece) : Paired text := by
  have joined : Paired (surfacePieces separator nesting text).flatten := by
    generalize surfacePieces separator nesting text = all at pieces
    induction all with
    | nil => rfl
    | cons piece others continued =>
        rw [List.forall_mem_cons] at pieces
        exact pieces.1.append (continued pieces.2)
  rwa [Paired, count_flatten_surfacePieces different] at joined

end TableScript.Text
