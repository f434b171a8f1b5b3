import TableScript.Proofs.Text.Cut
import TableScript.Text.Nesting

namespace TableScript.Text

/-! The surface of a text, position by position.  A search returns the first
position on the surface that it accepts; a text cut at such a position has the
same surface positions in its two parts as it has itself. -/

namespace Nesting

@[simp] theorem after_nil (nesting : Nesting) : nesting.after [] = nesting := rfl

@[simp] theorem after_cons (nesting : Nesting) (c : Char) (text : List Char) :
    nesting.after (c :: text) = (nesting.step c).after text := rfl

theorem after_append (nesting : Nesting) (first second : List Char) :
    nesting.after (first ++ second) = (nesting.after first).after second :=
  List.foldl_append

theorem step_of_plain {c : Char} (plain : isDelimiter c = false) (nesting : Nesting) :
    nesting.step c = nesting := by
  simp only [isDelimiter, Bool.or_eq_false_iff] at plain
  obtain ⟨⟨⟨⟨quote, paren⟩, bracket⟩, closing⟩, closed⟩ := plain
  simp [step, quote, paren, bracket, closing, closed]

theorem after_of_plain {text : List Char} (plain : ∀ c ∈ text, isDelimiter c = false)
    (nesting : Nesting) : nesting.after text = nesting := by
  induction text with
  | nil => rfl
  | cons c rest continued =>
      rw [after_cons, step_of_plain (plain c (by simp))]
      exact continued fun d member => plain d (by simp [member])

theorem surfaces_iff {nesting : Nesting} {c : Char} :
    nesting.surfaces c = true ↔ nesting = .outside ∧ isDelimiter c = false := by
  obtain ⟨quoted, depth⟩ := nesting
  simp [surfaces, isOutside, outside, and_assoc]

end Nesting

theorem isDelimiter_of_isBlank {c : Char} (blank : isBlank c = true) : isDelimiter c = false := by
  by_contra delimiter
  simp only [Bool.not_eq_false, isDelimiter, Bool.or_eq_true, beq_iff_eq] at delimiter
  rcases delimiter with (((rfl | rfl) | rfl) | rfl) | rfl <;> revert blank <;> decide

theorem Blank.after {text : List Char} (blank : Blank text) (nesting : Nesting) :
    nesting.after text = nesting :=
  nesting.after_of_plain fun c member => isDelimiter_of_isBlank (blank c member)

/-! ### Searches -/

theorem walk?_eq_none_iff {stop : Nesting → List Char → List Char → Bool} {nesting : Nesting}
    {read text : List Char} :
    walk? stop nesting read text = none ↔
      ∀ before c after, text = before ++ c :: after →
        stop (nesting.after before) (before.reverse ++ read) (c :: after) = false := by
  induction text generalizing nesting read with
  | nil => simp [walk?]
  | cons c rest continued =>
      simp only [walk?]
      constructor
      · intro missed before d after same
        split at missed
        · cases missed
        · rename_i here
          cases before with
          | nil =>
              obtain ⟨rfl, rfl⟩ := List.cons.inj same
              simpa using here
          | cons first before =>
              obtain ⟨rfl, rfl⟩ := List.cons.inj same
              have later := continued.mp missed before d after rfl
              simpa using later
      · intro nowhere
        have here := nowhere [] c rest rfl
        rw [if_neg (by simpa using here)]
        apply continued.mpr
        rintro before d after rfl
        have later := nowhere (c :: before) d after rfl
        simpa using later

theorem walk?_eq_some {stop : Nesting → List Char → List Char → Bool} {nesting : Nesting}
    {read text front ahead : List Char}
    (found : walk? stop nesting read text = some (front, ahead)) :
    ∃ before c after, text = before ++ c :: after ∧ front = read.reverse ++ before ∧
      ahead = c :: after ∧
      stop (nesting.after before) (before.reverse ++ read) (c :: after) = true ∧
      ∀ first d second, before = first ++ d :: second →
        stop (nesting.after first) (first.reverse ++ read) (d :: (second ++ c :: after)) =
          false := by
  induction text generalizing nesting read with
  | nil => cases found
  | cons c rest continued =>
      simp only [walk?] at found
      split at found
      · rename_i here
        simp only [Option.some.injEq, Prod.mk.injEq] at found
        refine ⟨[], c, rest, rfl, by simp [found.1], found.2.symm, by simpa using here, ?_⟩
        intro first d second same
        simp at same
      · rename_i here
        obtain ⟨before, d, after, rfl, start, rfl, stopped, earlier⟩ := continued found
        refine ⟨c :: before, d, after, rfl, by simpa using start, rfl, by simpa using stopped, ?_⟩
        intro first e second same
        cases first with
        | nil =>
            obtain ⟨rfl, rfl⟩ := List.cons.inj same
            simpa using here
        | cons _ first =>
            obtain ⟨rfl, rfl⟩ := List.cons.inj same
            have passed := earlier first e second rfl
            simpa using passed

theorem walk?_eq_some_of {stop : Nesting → List Char → List Char → Bool} {nesting : Nesting}
    {read before after : List Char} {c : Char}
    (stopped : stop (nesting.after before) (before.reverse ++ read) (c :: after) = true)
    (earlier : ∀ first d second, before = first ++ d :: second →
      stop (nesting.after first) (first.reverse ++ read) (d :: (second ++ c :: after)) = false) :
    walk? stop nesting read (before ++ c :: after) =
      some (read.reverse ++ before, c :: after) := by
  induction before generalizing nesting read with
  | nil =>
      have here : stop nesting read (c :: after) = true := by simpa using stopped
      simp [walk?, here]
  | cons d rest continued =>
      have here : stop nesting read (d :: (rest ++ c :: after)) = false := by
        simpa using earlier [] d rest rfl
      simp only [List.cons_append, walk?, here, Bool.false_eq_true, if_false]
      rw [continued]
      · simp
      · simpa using stopped
      · rintro first e second rfl
        simpa using earlier (d :: first) e second rfl

/-- The position before `c` is on the surface, and `accept` takes it. -/
structure Hit (accept : List Char → List Char → Bool) (before : List Char) (c : Char)
    (after : List Char) : Prop where
  outside : Nesting.outside.after before = .outside
  plain : isDelimiter c = false
  accepted : accept before.reverse (c :: after) = true

/-- There is a hit in `text`, when `ahead` comes after it. -/
def Found (accept : List Char → List Char → Bool) (text ahead : List Char) : Prop :=
  ∃ before c after, text = before ++ c :: after ∧ Hit accept before c (after ++ ahead)

section

variable {accept : List Char → List Char → Bool} {text before ahead : List Char}

theorem surfaceCut?_eq_none_iff : surfaceCut? accept text = none ↔ ¬ Found accept text [] := by
  simp only [surfaceCut?, walk?_eq_none_iff, Bool.and_eq_false_iff, List.append_nil]
  constructor
  · rintro nowhere ⟨before, c, after, rfl, hit⟩
    rw [List.append_nil] at hit
    rcases nowhere before c after rfl with hidden | refused
    · have surfaced := Nesting.surfaces_iff.mpr ⟨hit.outside, hit.plain⟩
      rw [hidden] at surfaced
      cases surfaced
    · have accepted := hit.accepted
      rw [refused] at accepted
      cases accepted
  · rintro missed before c after rfl
    by_contra both
    rw [not_or, Bool.not_eq_false, Bool.not_eq_false] at both
    obtain ⟨outside, plain⟩ := Nesting.surfaces_iff.mp both.1
    exact missed ⟨before, c, after, rfl, by simpa using ⟨outside, plain, both.2⟩⟩

theorem surfaceCut?_eq_some (cut : surfaceCut? accept text = some (before, ahead)) :
    ∃ c after, ahead = c :: after ∧ text = before ++ c :: after ∧ Hit accept before c after ∧
      ¬ Found accept before ahead := by
  obtain ⟨start, c, after, rfl, rfl, rfl, stopped, earlier⟩ := walk?_eq_some cut
  simp only [Bool.and_eq_true, Nesting.surfaces_iff, List.append_nil] at stopped
  obtain ⟨⟨outside, plain⟩, accepted⟩ := stopped
  refine ⟨c, after, rfl, rfl, ⟨outside, plain, accepted⟩, ?_⟩
  rintro ⟨first, d, second, same, hit⟩
  have passed := earlier first d second same
  have surfaced := Nesting.surfaces_iff.mpr ⟨hit.outside, hit.plain⟩
  have accepted := hit.accepted
  simp [surfaced, accepted] at passed

theorem surfaceCut?_eq_some_of {c : Char} {after : List Char} (hit : Hit accept before c after)
    (first : ¬ Found accept before (c :: after)) :
    surfaceCut? accept (before ++ c :: after) = some (before, c :: after) := by
  have surfaced := Nesting.surfaces_iff.mpr ⟨hit.outside, hit.plain⟩
  apply walk?_eq_some_of
  · simpa [surfaced] using hit.accepted
  · rintro start d second rfl
    by_contra both
    simp only [Bool.not_eq_false, Bool.and_eq_true, List.append_nil] at both
    obtain ⟨outside, plain⟩ := Nesting.surfaces_iff.mp both.1
    exact first ⟨start, d, second, rfl, outside, plain, both.2⟩

end

/-! ### Cuts -/

/-- An acceptance that more text on either side does not undo. -/
def Stable (accept : List Char → List Char → Bool) : Prop :=
  ∀ read c after more back, accept read (c :: after) = true →
    accept (read ++ more) (c :: (after ++ back)) = true

theorem stable_pattern (pattern : List Char) :
    Stable fun _ ahead => pattern.isPrefixOf ahead := by
  intro read c after more back matched
  rw [List.isPrefixOf_iff_prefix] at matched ⊢
  exact matched.trans (List.prefix_append (c :: after) back)

section

variable {accept : List Char → List Char → Bool} {front text back ahead more : List Char}

/-- A hit in a text is a hit in a longer one, if the walk meets the text outside
quotes and brackets and the acceptance carries over. -/
theorem Found.extend (found : Found accept text ahead)
    (outside : Nesting.outside.after front = .outside)
    (carried : ∀ before c after, text = before ++ c :: after →
      accept before.reverse (c :: (after ++ ahead)) = true →
      accept (before.reverse ++ front.reverse) (c :: (after ++ back ++ more)) = true) :
    Found accept (front ++ text ++ back) more := by
  obtain ⟨before, c, after, rfl, hit⟩ := found
  refine ⟨front ++ before, c, after ++ back, by simp, ?_, hit.plain, ?_⟩
  · rw [Nesting.after_append, outside, hit.outside]
  · rw [List.reverse_append]
    exact carried before c after rfl hit.accepted

theorem Found.of_trim (stable : Stable accept) (found : Found accept (trim text) []) :
    Found accept text ahead := by
  obtain ⟨front, back, blank, _, whole⟩ := exists_trim text
  rw [whole]
  apply found.extend (blank.after _)
  intro before c after _ accepted
  rw [List.append_nil] at accepted
  rw [List.append_assoc]
  exact stable _ _ _ _ _ accepted

end

/-- The texts `left` and `right` around a separator on the surface of a text. -/
structure Parted (text left separator right : List Char) : Prop where
  whole : text = left ++ separator ++ right
  outside : Nesting.outside.after left = .outside
  plain : ∀ c ∈ separator, isDelimiter c = false

namespace Parted

variable {text left separator right : List Char} {accept : List Char → List Char → Bool}

/-- The walk reaches the right part as it starts, outside everything. -/
theorem outside_right (parted : Parted text left separator right) {front : List Char}
    (blank : Blank front) : Nesting.outside.after (left ++ separator ++ front) = .outside := by
  rw [Nesting.after_append, Nesting.after_append, parted.outside,
    Nesting.after_of_plain parted.plain, blank.after]

theorem exists_right (parted : Parted text left separator right) :
    ∃ front back, Blank front ∧ Blank back ∧
      text = (left ++ separator ++ front) ++ trim right ++ back := by
  obtain ⟨front, back, frontBlank, backBlank, whole⟩ := exists_trim right
  refine ⟨front, back, frontBlank, backBlank, ?_⟩
  calc text = left ++ separator ++ right := parted.whole
    _ = left ++ separator ++ (front ++ trim right ++ back) := congrArg _ whole
    _ = (left ++ separator ++ front) ++ trim right ++ back := by simp only [List.append_assoc]

end Parted

/-- The parts around the first occurrence of a pattern on the surface. -/
theorem surfaceSplit?_eq_some {pattern text left right : List Char}
    (plain : ∀ c ∈ pattern, isDelimiter c = false)
    (split : surfaceSplit? pattern text = some (left, right)) :
    Parted text left pattern right ∧
      ¬ Found (fun _ ahead => pattern.isPrefixOf ahead) left (pattern ++ right) := by
  simp only [surfaceSplit?, Option.map_eq_some_iff, Prod.mk.injEq] at split
  obtain ⟨⟨before, ahead⟩, cut, rfl, rfl⟩ := split
  obtain ⟨c, after, rfl, rfl, hit, first⟩ := surfaceCut?_eq_some cut
  obtain ⟨rest, same⟩ := List.isPrefixOf_iff_prefix.mp hit.accepted
  have dropped : (c :: after).drop pattern.length = rest := by
    rw [← same, List.drop_left]
  rw [dropped, same]
  exact ⟨⟨by rw [List.append_assoc, same], hit.outside, plain⟩, first⟩

theorem surfaceSplit?_eq_none_iff {pattern text : List Char} :
    surfaceSplit? pattern text = none ↔
      ¬ Found (fun _ ahead => pattern.isPrefixOf ahead) text [] := by
  simp only [surfaceSplit?, Option.map_eq_none_iff, surfaceCut?_eq_none_iff]

end TableScript.Text
