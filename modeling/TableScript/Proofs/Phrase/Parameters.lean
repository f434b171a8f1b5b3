import TableScript.Proofs.Phrase.RoundTrip

namespace TableScript

open Text

/-! A dollar sign before characters of an index.  Of these characters only `-` is
an operator too, and the reader looks for operators first; so the text stands for
the parameter of that name only if the name has no `-`. -/

section

variable {name : List Char}

theorem trimmed_dollar (valid : ∀ c ∈ name, isIndexChar c = true) : Trimmed ('$' :: name) := by
  have visible : ∀ c ∈ '$' :: name, isBlank c = false :=
    List.forall_mem_cons.mpr ⟨by decide, fun c member => isBlank_of_isIndexChar (valid c member)⟩
  exact ⟨fun c first => visible c (List.mem_of_head? first),
    fun c last => visible c (List.mem_of_getLast? last)⟩

theorem not_mem_dollar (valid : ∀ c ∈ name, isIndexChar c = true) {c : Char} (different : c ≠ '$')
    (other : isIndexChar c = false) : c ∉ '$' :: name := by
  rw [List.mem_cons, not_or]
  refine ⟨different, fun member => ?_⟩
  rw [valid c member] at other
  cases other

/-- Only an arithmetic operator can be found. -/
theorem shape_dollar (valid : ∀ c ∈ name, isIndexChar c = true) :
    shape ('$' :: name) =
      match Shape.arithmetic? ('$' :: name) with
      | some (op, left, right) => .ok (.arithmetic op left right)
      | none => Shape.atom ('$' :: name) := by
  have absent {sign : Char} (foreign : sign ≠ '$' ∧ isIndexChar sign = false) :
      sign ∉ outer .outside ('$' :: name) :=
    fun member => not_mem_dollar valid foreign.1 foreign.2 (mem_of_mem_outer member)
  have unmatched {sign : Char} {rest : List Char}
      (foreign : sign ≠ '$' ∧ isIndexChar sign = false) :
      surfaceSplit? (sign :: rest) ('$' :: name) = none := by
    rw [surfaceSplit?_eq_none_iff]
    apply not_found_of_outer
    intro c member read after
    have different : sign ≠ c := fun same => absent foreign (same ▸ member)
    simp [List.isPrefixOf, different]
  have unassigned : Shape.assignment? ('$' :: name) = none := by
    rw [Shape.assignment?_eq_none_iff]
    apply not_found_of_outer
    intro c member
    exact isAssignment_of_ne fun same => absent (by decide) (same ▸ member)
  have uncompared : Shape.comparison? ('$' :: name) = none := by
    rw [Shape.comparison?_eq_none_iff]
    intro op
    cases op <;> exact unmatched (by decide)
  have uncalled : Shape.call? ('$' :: name) = none := by
    rw [Shape.call?, openingParen?_eq_none (absent (by decide))]
  have unjoined : surfaceSplit? ['^'] ('$' :: name) = none := unmatched (by decide)
  cases cut : Shape.arithmetic? ('$' :: name) with
  | none =>
      simp only [shape, List.isEmpty_cons, Bool.false_eq_true, if_false, unassigned, cut,
        uncompared, uncalled, unjoined]
  | some parts =>
      simp only [shape, List.isEmpty_cons, Bool.false_eq_true, if_false, unassigned, cut]

theorem atom_dollar (name : List Char) :
    Shape.atom ('$' :: name) =
      if isIndex name then .ok (.leaf (.parameter (String.ofList name)))
      else Shape.unrecognized ('$' :: name) := rfl

end

namespace Phrase

section

variable {name : List Char}

/-- Where no operator is found, the text stands for a parameter. -/
theorem Reads.of_dollar_uncomputed {phrase : Phrase} (valid : ∀ c ∈ name, isIndexChar c = true)
    (missed : Shape.arithmetic? ('$' :: name) = none) (reads : Reads ('$' :: name) phrase) :
    phrase = .parameter (String.ofList name) ∧ '-' ∉ name := by
  have shaped : shape (trim ('$' :: name)) = Shape.atom ('$' :: name) := by
    rw [trim_eq_self (trimmed_dollar valid), shape_dollar valid, missed]
  rw [atom_dollar] at shaped
  cases reads with
  | leaf found =>
      rw [shaped] at found
      split at found
      · rename_i index
        cases found
        exact ⟨rfl, dash_not_mem index missed⟩
      · cases found
  | assign found _ | arithmetic found _ _ | compare found _ _ | concat found _ _ | call found _
  | builtin found _ | element found _ =>
      rw [shaped] at found
      split at found <;> cases found

/-- The name is cut at its first `-`, and what comes before is a parameter of its
own. -/
theorem Reads.of_dollar {phrase : Phrase} (valid : ∀ c ∈ name, isIndexChar c = true)
    (reads : Reads ('$' :: name) phrase) :
    phrase = .parameter (String.ofList name) ∧ '-' ∉ name ∨
      ∃ op part right, phrase = .arithmetic op (.parameter part) right ∧ '-' ∉ part.toList := by
  cases cut : Shape.arithmetic? ('$' :: name) with
  | none => exact .inl (reads.of_dollar_uncomputed valid cut)
  | some parts =>
      obtain ⟨op, left, right⟩ := parts
      have shaped : shape (trim ('$' :: name)) = .ok (.arithmetic op left right) := by
        rw [trim_eq_self (trimmed_dollar valid), shape_dollar valid, cut]
      obtain ⟨parted, leftmost⟩ := Shape.arithmetic?_eq_some cut
      have whole := parted.whole
      cases left with
      | nil => cases op <;> cases whole
      | cons c part =>
          obtain ⟨rfl, rest⟩ := List.cons.inj whole
          have partValid : ∀ c ∈ part, isIndexChar c = true := fun c member =>
            valid c (by rw [rest]; simp [member])
          have missed : Shape.arithmetic? ('$' :: part) = none := by
            rw [Shape.arithmetic?_eq_none_iff, ← trim_eq_self (trimmed_dollar partValid)]
            exact fun found => leftmost (found.of_trim Shape.stable_isOperator)
          cases reads with
          | arithmetic found leftRead _ =>
              rw [shaped] at found
              cases found
              obtain ⟨rfl, dashless⟩ := leftRead.of_dollar_uncomputed partValid missed
              exact .inr ⟨op, _, _, rfl, by simpa using dashless⟩
          | leaf found | assign found _ | compare found _ _ | concat found _ _ | call found _
          | builtin found _ | element found _ =>
              rw [shaped] at found
              cases found

end

/-! ### Lines -/

section

variable {name : String}

/-- A line that starts with a sign is no header. -/
theorem readLine_of_sign {c : Char} {rest : List Char} (sign : c ≠ 'i' ∧ c ≠ 'f')
    (trimmed : Trimmed (c :: rest)) : readLine (c :: rest) = read (c :: rest) := by
  have noKeyword {word : List Char} (keyword : word = ['i', 'f'] ∨ word = ['f', 'o', 'r']) :
      afterKeyword? word (c :: rest) = none := by
    rcases keyword with rfl | rfl <;>
      simp [afterKeyword?, List.isPrefixOf?, Ne.symm sign.1, Ne.symm sign.2]
  simp only [readLine, trim_eq_self trimmed, noKeyword (.inl rfl), noKeyword (.inr rfl),
    List.isEmpty_cons, Bool.false_eq_true, if_false]

theorem readLine_entry (valid : isIndex name.toList = true) :
    readLine s!"[{name}]".toList = .ok (.entry name) := by
  have formed : (entry name).WellFormed :=
    List.forall_mem_singleton.mpr ⟨valid, trivial⟩
  have reads := (reads_render _ formed).read_eq_ok
  rw [render] at reads
  rw [toList_bracketed] at reads ⊢
  rw [← reads]
  exact readLine_of_sign (by decide) (trimmed_enclosed _ (by decide))

theorem readLine_dollar (valid : isIndex name.toList = true) :
    readLine s!"${name}".toList = read ('$' :: name.toList) := by
  rw [toList_dollar]
  exact readLine_of_sign (by decide) (trimmed_dollar fun c => isIndexChar_of_mem valid)

theorem readLine_parameter (valid : isIndex name.toList = true) (dashless : '-' ∉ name.toList) :
    readLine s!"${name}".toList = .ok (.parameter name) := by
  have formed : (parameter name).WellFormed :=
    List.forall_mem_singleton.mpr ⟨⟨valid, dashless⟩, trivial⟩
  have reads := (reads_render _ formed).read_eq_ok
  rw [render, toList_dollar] at reads
  rw [readLine_dollar valid, reads]

end

end Phrase

end TableScript
