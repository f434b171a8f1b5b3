import Mathlib.Data.List.Count
import TableScript.Proofs.Text.Blank
import TableScript.Text.Quoted

namespace TableScript.Text

/-! Comments start outside quotes only, that is, after an even number of quotes. -/

theorem beforeComment?_eq_none_iff {quoted : Bool} {text : List Char} :
    beforeComment? quoted text = none ↔ ∀ before after, text = before ++ '/' :: '/' :: after →
      (quoted.toNat + before.count '\'') % 2 = 1 := by
  have toggled (quoted : Bool) (count : Nat) :
      ((!quoted).toNat + count) % 2 = 1 ↔ (quoted.toNat + (count + 1)) % 2 = 1 := by
    cases quoted <;> simp only [Bool.not_false, Bool.not_true, Bool.toNat_false,
      Bool.toNat_true] <;> omega
  induction text generalizing quoted with
  | nil => simp [beforeComment?]
  | cons c rest continued =>
      have split : (∀ before after, c :: rest = before ++ '/' :: '/' :: after →
            (quoted.toNat + before.count '\'') % 2 = 1) ↔
          (∀ after, c :: rest = '/' :: '/' :: after → quoted = true) ∧
            ∀ before after, rest = before ++ '/' :: '/' :: after →
              (quoted.toNat + (c :: before).count '\'') % 2 = 1 := by
        constructor
        · intro hidden
          refine ⟨fun after whole => ?_, fun before after whole => ?_⟩
          · have here := hidden [] after whole
            cases quoted
            · simp at here
            · rfl
          · exact hidden (c :: before) after (by rw [whole]; rfl)
        · rintro ⟨here, later⟩ before after whole
          cases before with
          | nil => simp [here after whole]
          | cons d before =>
              obtain ⟨rfl, remaining⟩ := List.cons.inj whole
              exact later before after remaining
      rw [split]
      by_cases quote : c = '\''
      · subst quote
        simp only [beforeComment?, beq_self_eq_true, if_true, Option.map_eq_none_iff, continued,
          List.count_cons_self, toggled]
        simp
      · have other : (c == '\'') = false := beq_eq_false_iff_ne.mpr quote
        simp only [beforeComment?, other, Bool.false_eq_true, if_false,
          List.count_cons_of_ne quote]
        by_cases started : (!quoted && ['/', '/'].isPrefixOf (c :: rest)) = true
        · rw [if_pos started]
          simp only [Bool.and_eq_true, Bool.not_eq_true', List.isPrefixOf_iff_prefix] at started
          obtain ⟨rfl, after, same⟩ := started
          simp only [reduceCtorEq, false_iff]
          rintro ⟨here, _⟩
          cases here after same.symm
        · rw [if_neg started, Option.map_eq_none_iff]
          refine continued.trans ⟨fun later => ⟨fun after whole => ?_, later⟩, And.right⟩
          cases quoted
          · rw [whole] at started
            exact absurd rfl started
          · rfl

theorem beforeComment?_plain {front : List Char} (plain : ∀ c ∈ front, c ≠ '\'' ∧ c ≠ '/')
    {rest : List Char} (uncommented : beforeComment? false rest = none) :
    beforeComment? false (front ++ rest) = none := by
  induction front with
  | nil => exact uncommented
  | cons c front continued =>
      rw [List.forall_mem_cons] at plain
      have other : ('/' == c) = false := beq_eq_false_iff_ne.mpr (Ne.symm plain.1.2)
      simp [beforeComment?, plain.1.1, List.isPrefixOf, other, continued plain.2]

theorem beforeComment?_quoted {value rest : List Char} (unquoted : '\'' ∉ value)
    (uncommented : beforeComment? false rest = none) :
    beforeComment? false ('\'' :: (value ++ '\'' :: rest)) = none := by
  have inside : beforeComment? true (value ++ '\'' :: rest) = none := by
    induction value with
    | nil => simp [beforeComment?, uncommented]
    | cons c value continued =>
        rw [List.mem_cons, not_or] at unquoted
        simp [beforeComment?, Ne.symm unquoted.1, continued unquoted.2]
  simp [beforeComment?, inside]

theorem withoutComment_eq_self {line : List Char} (uncommented : beforeComment? false line = none) :
    withoutComment line = line := by
  rw [withoutComment, uncommented]

/-! ### Comments behind a line -/

/-- A comment is found without looking at what follows its start. -/
theorem beforeComment?_append {quoted : Bool} {line before : List Char}
    (found : beforeComment? quoted line = some before) (rest : List Char) :
    beforeComment? quoted (line ++ rest) = some before := by
  induction line generalizing quoted before with
  | nil => cases found
  | cons c line continued =>
      simp only [beforeComment?, List.cons_append] at found ⊢
      split at found
      · rename_i quote
        obtain ⟨start, earlier, same⟩ := Option.map_eq_some_iff.mp found
        rw [if_pos quote, continued earlier, Option.map_some, same]
      · rename_i other
        rw [if_neg other]
        cases line with
        | nil => simp [beforeComment?, List.isPrefixOf] at found
        | cons d line =>
            have ahead : ['/', '/'].isPrefixOf (c :: d :: (line ++ rest)) =
                ['/', '/'].isPrefixOf (c :: d :: line) := by simp [List.isPrefixOf]
            rw [List.cons_append, ahead]
            split at found
            · rename_i started
              rw [if_pos started, found]
            · rename_i unstarted
              obtain ⟨start, earlier, same⟩ := Option.map_eq_some_iff.mp found
              rw [if_neg unstarted, ← List.cons_append, continued earlier, Option.map_some, same]

theorem ne_of_isBlank {c : Char} (blank : isBlank c = true) : c ≠ '\'' ∧ c ≠ '/' := by
  constructor <;> (rintro rfl; revert blank; decide)

theorem beforeComment?_blank {gap : List Char} (blank : Blank gap) (rest : List Char) :
    beforeComment? false (gap ++ '/' :: '/' :: rest) = some gap := by
  induction gap with
  | nil => simp [beforeComment?]
  | cons c gap continued =>
      obtain ⟨here, later⟩ := List.forall_mem_cons.mp blank
      obtain ⟨noQuote, noSlash⟩ := ne_of_isBlank here
      simp [beforeComment?, noQuote, List.isPrefixOf, Ne.symm noSlash, continued later]

/-- A comment that is set off by blanks starts where it is written, if nothing is
quoted there and there is no other before it. -/
theorem beforeComment?_trailing {quoted : Bool} {line gap : List Char}
    (uncommented : beforeComment? quoted line = none)
    (even : (quoted.toNat + line.count '\'') % 2 = 0) (blank : Blank gap) (apart : gap ≠ [])
    (rest : List Char) :
    beforeComment? quoted (line ++ gap ++ '/' :: '/' :: rest) = some (line ++ gap) := by
  induction line generalizing quoted with
  | nil =>
      cases quoted with
      | false => exact beforeComment?_blank blank rest
      | true => simp at even
  | cons c line continued =>
      by_cases quote : c = '\''
      · subst quote
        simp only [beforeComment?, beq_self_eq_true, if_true, Option.map_eq_none_iff] at uncommented
        have toggled : ((!quoted).toNat + line.count '\'') % 2 = 0 := by
          rw [List.count_cons_self] at even
          cases quoted <;> simp only [Bool.not_false, Bool.not_true, Bool.toNat_false,
            Bool.toNat_true] at even ⊢ <;> omega
        simp only [List.cons_append, beforeComment?, beq_self_eq_true, if_true,
          continued uncommented toggled, Option.map_some]
      · have other : (c == '\'') = false := beq_eq_false_iff_ne.mpr quote
        rw [List.count_cons_of_ne quote] at even
        simp only [beforeComment?, other, Bool.false_eq_true, if_false] at uncommented
        split at uncommented
        · cases uncommented
        · rename_i unstarted
          have later := continued (Option.map_eq_none_iff.mp uncommented) even
          have unstartedHere : ¬ (!quoted &&
              ['/', '/'].isPrefixOf (c :: (line ++ gap ++ '/' :: '/' :: rest))) = true := by
            cases line with
            | nil =>
                obtain ⟨d, gap, rfl⟩ := List.exists_cons_of_ne_nil apart
                have noSlash := (ne_of_isBlank (blank d List.mem_cons_self)).2
                simp [List.isPrefixOf, Ne.symm noSlash]
            | cons d line => simpa [List.isPrefixOf] using unstarted
          simp only [List.cons_append, beforeComment?, other, Bool.false_eq_true, if_false,
            if_neg unstartedHere, later, Option.map_some]

theorem withoutComment_trailing {line gap : List Char} (trimmed : Trimmed line)
    (even : line.count '\'' % 2 = 0) (blank : Blank gap) (apart : gap ≠ []) (rest : List Char) :
    withoutComment (line ++ gap ++ '/' :: '/' :: rest) = withoutComment line := by
  cases earlier : beforeComment? false line with
  | none =>
      have found := beforeComment?_trailing earlier (by simpa using even) blank apart rest
      rw [withoutComment, found, withoutComment_eq_self earlier]
      simp only [trimEnd_append blank, trimEnd_eq_self trimmed.finish]
  | some before =>
      have found := beforeComment?_append earlier (gap ++ '/' :: '/' :: rest)
      rw [List.append_assoc, withoutComment, found, withoutComment, earlier]

/-- What a line with a comment behind it is trimmed to. -/
theorem trim_trailing {line : List Char} (given : trim line ≠ []) (comment : List Char) :
    ∃ gap rest, Blank gap ∧ gap ≠ [] ∧
      trim (line ++ ' ' :: '/' :: '/' :: comment) = trim line ++ gap ++ '/' :: '/' :: rest := by
  obtain ⟨front, back, frontBlank, backBlank, whole⟩ := exists_trim line
  refine ⟨back ++ [' '], trimEnd comment, ?_, by simp, ?_⟩
  · exact List.forall_mem_append.mpr ⟨backBlank, List.forall_mem_singleton.mpr (by decide)⟩
  · have regrouped : line ++ ' ' :: '/' :: '/' :: comment =
        front ++ (trim line ++ (back ++ [' ']) ++ '/' :: '/' :: comment) ++ [] := by
      have extended := congrArg (· ++ ' ' :: '/' :: '/' :: comment) whole
      simpa using extended
    have start : trimStart (trim line ++ (back ++ [' ']) ++ '/' :: '/' :: comment) =
        trim line ++ (back ++ [' ']) ++ '/' :: '/' :: comment := by
      apply trimStart_eq_self
      intro c first
      obtain ⟨d, rest, shown⟩ := List.exists_cons_of_ne_nil given
      apply (trimmed_trim line).start c
      rw [shown] at first ⊢
      exact first
    have finish := trimEnd_append_visible (by decide : isBlank '/' = false)
      (trim line ++ (back ++ [' ']) ++ ['/']) comment
    rw [regrouped, trim_append frontBlank (List.forall_mem_nil _), trim, start]
    simpa using finish

/-! ### Lines without their comments -/

theorem beforeComment?_eq_some {quoted : Bool} {line before : List Char}
    (found : beforeComment? quoted line = some before) :
    ∃ after, line = before ++ '/' :: '/' :: after := by
  induction line generalizing quoted before with
  | nil => cases found
  | cons c rest continued =>
      have carried {flag : Bool} (later : (beforeComment? flag rest).map (c :: ·) = some before) :
          ∃ after, c :: rest = before ++ '/' :: '/' :: after := by
        obtain ⟨start, earlier, rfl⟩ := Option.map_eq_some_iff.mp later
        obtain ⟨after, rfl⟩ := continued earlier
        exact ⟨after, rfl⟩
      simp only [beforeComment?] at found
      split at found
      · exact carried found
      · split at found
        · rename_i marked
          cases found
          rw [Bool.and_eq_true, List.isPrefixOf_iff_prefix] at marked
          obtain ⟨after, whole⟩ := marked.2
          exact ⟨after, whole.symm⟩
        · exact carried found

theorem withoutComment_eq_trimEnd {line before : List Char}
    (found : beforeComment? false line = some before) : withoutComment line = trimEnd before := by
  rw [withoutComment, found]

/-- A trimmed line is cut behind a character that can be seen, or at its start. -/
theorem trim_before {line before after : List Char} (trimmed : Trimmed line)
    (whole : line = before ++ after) : trim before = trimEnd before := by
  rw [trim, trimStart_eq_self]
  intro c first
  apply trimmed.start c
  rw [whole, List.head?_append, first]
  rfl

theorem trimmed_withoutComment {line : List Char} (trimmed : Trimmed line) :
    Trimmed (withoutComment line) := by
  cases found : beforeComment? false line with
  | none => rwa [withoutComment_eq_self found]
  | some before =>
      obtain ⟨after, whole⟩ := beforeComment?_eq_some found
      rw [withoutComment_eq_trimEnd found, ← trim_before trimmed whole]
      exact trimmed_trim before

/-- Only a line that is a comment from its start leaves nothing. -/
theorem withoutComment_eq_nil_iff {line : List Char} (trimmed : Trimmed line) :
    withoutComment line = [] ↔ line = [] ∨ ['/', '/'] <+: line := by
  constructor
  · intro nothing
    cases found : beforeComment? false line with
    | none =>
        rw [withoutComment_eq_self found] at nothing
        exact .inl nothing
    | some before =>
        obtain ⟨after, whole⟩ := beforeComment?_eq_some found
        rw [withoutComment_eq_trimEnd found] at nothing
        obtain ⟨back, blank, same⟩ := exists_trimEnd before
        cases before with
        | nil => exact .inr ⟨after, whole.symm⟩
        | cons c rest =>
            have visible : isBlank c = false := trimmed.start c (by rw [whole]; rfl)
            have hidden : isBlank c = true := by
              apply blank
              rw [nothing, List.nil_append] at same
              rw [← same]
              exact List.mem_cons_self
            cases visible.symm.trans hidden
  · rintro (rfl | ⟨after, rfl⟩)
    · rfl
    · rfl

end TableScript.Text
