import Mathlib.Data.List.TakeWhile
import TableScript.Text.Blank

namespace TableScript.Text

/-! Trimming takes blanks away at the two ends of a text and nothing else. -/

def Blank (text : List Char) : Prop :=
  ∀ c ∈ text, isBlank c = true

/-- A text that neither starts nor ends with a blank. -/
structure Trimmed (text : List Char) : Prop where
  start : ∀ c, text.head? = some c → isBlank c = false
  finish : ∀ c, text.getLast? = some c → isBlank c = false

theorem Blank.reverse {text : List Char} (blank : Blank text) : Blank text.reverse :=
  fun c member => blank c (List.mem_reverse.mp member)

theorem trimStart_append {front : List Char} (blank : Blank front) (text : List Char) :
    trimStart (front ++ text) = trimStart text := by
  induction front with
  | nil => rfl
  | cons c rest continued =>
      have first : isBlank c = true := blank c (by simp)
      have later := continued fun d member => blank d (by simp [member])
      simpa [trimStart, first] using later

theorem trimEnd_append {back : List Char} (blank : Blank back) (text : List Char) :
    trimEnd (text ++ back) = trimEnd text := by
  have same := trimStart_append blank.reverse text.reverse
  simp only [trimStart] at same
  simp only [trimEnd, List.reverse_append, same]

theorem trimStart_eq_self {text : List Char}
    (start : ∀ c, text.head? = some c → isBlank c = false) : trimStart text = text := by
  cases text with
  | nil => rfl
  | cons c rest => simp [trimStart, start c rfl]

theorem trimEnd_eq_self {text : List Char}
    (finish : ∀ c, text.getLast? = some c → isBlank c = false) : trimEnd text = text := by
  have turned : ∀ c, text.reverse.head? = some c → isBlank c = false := by
    simpa using finish
  have same := trimStart_eq_self turned
  simp only [trimStart] at same
  simp only [trimEnd, same, List.reverse_reverse]

theorem exists_trimStart (text : List Char) :
    ∃ front, Blank front ∧ text = front ++ trimStart text :=
  ⟨text.takeWhile isBlank, fun _ => List.mem_takeWhile_imp,
    List.takeWhile_append_dropWhile.symm⟩

theorem exists_trimEnd (text : List Char) :
    ∃ back, Blank back ∧ text = trimEnd text ++ back := by
  obtain ⟨front, blank, whole⟩ := exists_trimStart text.reverse
  refine ⟨front.reverse, blank.reverse, ?_⟩
  have turned := congrArg List.reverse whole
  simpa [trimEnd, trimStart] using turned

/-- A text is its trimmed form with blanks around it. -/
theorem exists_trim (text : List Char) :
    ∃ front back, Blank front ∧ Blank back ∧ text = front ++ trim text ++ back := by
  obtain ⟨front, frontBlank, start⟩ := exists_trimStart text
  obtain ⟨back, backBlank, finish⟩ := exists_trimEnd (trimStart text)
  refine ⟨front, back, frontBlank, backBlank, ?_⟩
  rw [List.append_assoc, trim, ← finish]
  exact start

theorem trim_eq_self {text : List Char} (trimmed : Trimmed text) : trim text = text := by
  rw [trim, trimStart_eq_self trimmed.start, trimEnd_eq_self trimmed.finish]

theorem trimmed_singleton {c : Char} (visible : isBlank c = false) : Trimmed [c] := by
  constructor <;> (intro d same; cases same; exact visible)

theorem trimmed_enclosed {opening closing : Char} (inside : List Char)
    (visible : isBlank opening = false ∧ isBlank closing = false) :
    Trimmed (opening :: inside ++ [closing]) := by
  constructor
  · intro c first
    cases first
    exact visible.1
  · intro c last
    rw [List.getLast?_concat, Option.some.injEq] at last
    rw [← last]
    exact visible.2

theorem start_trimStart (text : List Char) :
    ∀ c, (trimStart text).head? = some c → isBlank c = false := by
  intro c first
  have passed := List.head?_dropWhile_not isBlank text
  simp only [trimStart] at first
  rw [first] at passed
  simpa using passed

theorem trimmed_trim (text : List Char) : Trimmed (trim text) := by
  constructor
  · intro c first
    obtain ⟨back, _, whole⟩ := exists_trimEnd (trimStart text)
    apply start_trimStart text c
    rw [whole, List.head?_append]
    exact Option.or_eq_some_iff.mpr (.inl first)
  · intro c last
    have first := start_trimStart (trimStart text).reverse c
    simp only [trim, trimEnd, trimStart, List.getLast?_reverse] at first last
    exact first last

theorem trim_append {front back : List Char} (frontBlank : Blank front) (backBlank : Blank back)
    (text : List Char) : trim (front ++ text ++ back) = trim text := by
  rw [List.append_assoc, trim, trimStart_append frontBlank]
  cases inner : trimStart text with
  | nil =>
      have all : Blank text := by
        intro c member
        have dropped : text.dropWhile isBlank = [] := inner
        exact List.dropWhile_eq_nil_iff.mp dropped c member
      rw [trimStart_append all, trim, inner]
      have none : trimStart back = [] := List.dropWhile_eq_nil_iff.mpr backBlank
      rw [none]
  | cons c rest =>
      obtain ⟨front, blank, whole⟩ := exists_trimStart text
      have kept : trimStart (text ++ back) = trimStart text ++ back := by
        rw [whole, List.append_assoc, trimStart_append blank, trimStart_append blank]
        have first : isBlank c = false := start_trimStart text c (by rw [inner]; rfl)
        rw [inner]
        simp [trimStart, first]
      rw [kept, trimEnd_append backBlank, trim]

theorem trim_append_blank {text : List Char} (trimmed : Trimmed text) :
    trim (text ++ [' ']) = text := by
  have blank : Blank [' '] := List.forall_mem_singleton.mpr (by decide)
  have same := trim_append (List.forall_mem_nil _) blank text
  rw [List.nil_append, trim_eq_self trimmed] at same
  exact same

theorem trim_cons_blank (text : List Char) : trim (' ' :: text) = trim text := by
  have blank : Blank [' '] := List.forall_mem_singleton.mpr (by decide)
  have same := trim_append blank (List.forall_mem_nil _) text
  rwa [List.append_nil] at same

/-- What is not blank survives. -/
theorem mem_trim {text : List Char} {c : Char} (member : c ∈ text) (visible : isBlank c = false) :
    c ∈ trim text := by
  obtain ⟨front, back, frontBlank, backBlank, whole⟩ := exists_trim text
  rw [whole, List.mem_append, List.mem_append] at member
  rcases member with (early | inside) | late
  · rw [frontBlank c early] at visible
    cases visible
  · exact inside
  · rw [backBlank c late] at visible
    cases visible

/-- Nothing is left of a blank text, and of no other. -/
theorem trim_eq_nil_iff {text : List Char} : trim text = [] ↔ Blank text := by
  constructor
  · intro empty c member
    by_contra visible
    have kept := mem_trim member (by simpa using visible)
    rw [empty] at kept
    cases kept
  · intro blank
    have none := trim_append blank (List.forall_mem_nil _) []
    rwa [List.append_nil, List.append_nil] at none

theorem infix_trim (text : List Char) : trim text <:+: text := by
  obtain ⟨front, back, _, _, whole⟩ := exists_trim text
  exact ⟨front, back, whole.symm⟩

theorem trimEnd_append_visible {c : Char} (visible : isBlank c = false) (text rest : List Char) :
    trimEnd (text ++ c :: rest) = text ++ c :: trimEnd rest := by
  simp only [trimEnd, List.reverse_append, List.reverse_cons, List.append_assoc,
    List.dropWhile_append]
  split
  · rename_i blank
    simp [List.isEmpty_iff.mp blank, visible]
  · simp

/-- Whether a text starts with a pattern without blanks shows before its first blank. -/
theorem isPrefixOf_append_blank {pattern line gap : List Char}
    (visible : ∀ c ∈ pattern, isBlank c = false) (blank : Blank gap) (apart : gap ≠ [])
    (rest : List Char) :
    pattern.isPrefixOf (line ++ gap ++ rest) = pattern.isPrefixOf line := by
  induction line generalizing pattern with
  | nil =>
      cases pattern with
      | nil => rfl
      | cons c pattern =>
          obtain ⟨d, gap, rfl⟩ := List.exists_cons_of_ne_nil apart
          have different : c ≠ d := by
            rintro rfl
            have shown := visible c List.mem_cons_self
            rw [blank c List.mem_cons_self] at shown
            cases shown
          simp [List.isPrefixOf, different]
  | cons d line continued =>
      cases pattern with
      | nil => rfl
      | cons c pattern =>
          have later := continued (List.forall_mem_cons.mp visible).2
          simp only [List.cons_append, List.isPrefixOf, later]

theorem count_trim {c : Char} (visible : isBlank c = false) (text : List Char) :
    (trim text).count c = text.count c := by
  obtain ⟨front, back, frontBlank, backBlank, whole⟩ := exists_trim text
  have absent {blanks : List Char} (blank : Blank blanks) : blanks.count c = 0 := by
    rw [List.count_eq_zero]
    intro member
    rw [blank c member] at visible
    cases visible
  have total := congrArg (List.count c) whole
  rw [List.count_append, List.count_append, absent frontBlank, absent backBlank] at total
  omega

end TableScript.Text
