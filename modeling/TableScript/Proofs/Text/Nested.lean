import TableScript.Proofs.Text.Surface

namespace TableScript.Text

/-! Texts whose quotes and brackets match.  Such a text leaves the nesting as it
found it, so it can stand anywhere in a longer text, and the searches of that
text pass over everything the text encloses. -/

inductive Nested : List Char → Prop where
  | nil : Nested []
  | plain {c : Char} {text : List Char} (visible : isDelimiter c = false) (rest : Nested text) :
      Nested (c :: text)
  | quoted {value text : List Char} (unquoted : '\'' ∉ value) (rest : Nested text) :
      Nested ('\'' :: (value ++ '\'' :: text))
  | paren {inner text : List Char} (inside : Nested inner) (rest : Nested text) :
      Nested ('(' :: (inner ++ ')' :: text))
  | bracket {inner text : List Char} (inside : Nested inner) (rest : Nested text) :
      Nested ('[' :: (inner ++ ']' :: text))

namespace Nested

theorem append {first second : List Char} (left : Nested first) (right : Nested second) :
    Nested (first ++ second) := by
  induction left with
  | nil => exact right
  | plain visible _ continued => exact .plain visible continued
  | quoted unquoted _ continued => simpa using quoted unquoted continued
  | paren inside _ _ continued => simpa using paren inside continued
  | bracket inside _ _ continued => simpa using bracket inside continued

theorem of_plain {text : List Char} (visible : ∀ c ∈ text, isDelimiter c = false) :
    Nested text := by
  induction text with
  | nil => exact .nil
  | cons c rest continued =>
      exact .plain (visible c (by simp)) (continued fun d member => visible d (by simp [member]))

theorem quote {value : List Char} (unquoted : '\'' ∉ value) : Nested ('\'' :: value ++ ['\'']) :=
  quoted unquoted .nil

theorem enclose {inner : List Char} (inside : Nested inner) : Nested ('[' :: inner ++ [']']) :=
  bracket inside .nil

theorem apply {inner : List Char} (inside : Nested inner) : Nested ('(' :: inner ++ [')']) :=
  paren inside .nil

end Nested

theorem after_unquoted {value : List Char} (unquoted : '\'' ∉ value) (depth : Nat) :
    Nesting.after ⟨true, depth⟩ value = ⟨true, depth⟩ := by
  induction value with
  | nil => rfl
  | cons c rest continued =>
      rw [List.mem_cons, not_or] at unquoted
      have other : (c == '\'') = false := by simpa using Ne.symm unquoted.1
      simpa [Nesting.step, other] using continued unquoted.2

theorem Nested.after {text : List Char} (nested : Nested text) (depth : Nat) :
    Nesting.after ⟨false, depth⟩ text = ⟨false, depth⟩ := by
  induction nested generalizing depth with
  | nil => rfl
  | plain visible _ continued =>
      rw [Nesting.after_cons, Nesting.step_of_plain visible]
      exact continued depth
  | quoted unquoted _ continued =>
      rw [Nesting.after_cons, Nesting.after_append]
      simpa [Nesting.step, after_unquoted unquoted] using continued depth
  | paren _ _ inside continued =>
      rw [Nesting.after_cons, Nesting.after_append]
      simpa [Nesting.step, inside] using continued depth
  | bracket _ _ inside continued =>
      rw [Nesting.after_cons, Nesting.after_append]
      simpa [Nesting.step, inside] using continued depth

/-- The characters met outside quotes and brackets, with those that open a
quote or a bracket. -/
def outer (nesting : Nesting) : List Char → List Char
  | [] => []
  | c :: rest =>
      if nesting.isOutside then c :: outer (nesting.step c) rest else outer (nesting.step c) rest

theorem outer_append (nesting : Nesting) (first second : List Char) :
    outer nesting (first ++ second) =
      outer nesting first ++ outer (nesting.after first) second := by
  induction first generalizing nesting with
  | nil => rfl
  | cons c rest continued =>
      simp only [List.cons_append, outer, Nesting.after_cons, continued]
      split <;> simp

theorem outer_unquoted {value : List Char} (unquoted : '\'' ∉ value) (depth : Nat) :
    outer ⟨true, depth⟩ value = [] := by
  induction value with
  | nil => rfl
  | cons c rest continued =>
      rw [List.mem_cons, not_or] at unquoted
      have other : (c == '\'') = false := by simpa using Ne.symm unquoted.1
      simpa [outer, Nesting.isOutside, Nesting.step, other] using continued unquoted.2

namespace Nested

theorem outer_inside {text : List Char} (nested : Nested text) (depth : Nat) :
    outer ⟨false, depth + 1⟩ text = [] := by
  induction nested generalizing depth with
  | nil => rfl
  | plain visible _ continued =>
      simpa [outer, Nesting.isOutside, Nesting.step_of_plain visible] using continued depth
  | quoted unquoted _ continued =>
      simpa [outer, Nesting.isOutside, Nesting.step, outer_append, outer_unquoted unquoted,
        after_unquoted unquoted] using continued depth
  | paren inner _ inside continued =>
      simpa [outer, Nesting.isOutside, Nesting.step, outer_append, inside, inner.after]
        using continued depth
  | bracket inner _ inside continued =>
      simpa [outer, Nesting.isOutside, Nesting.step, outer_append, inside, inner.after]
        using continued depth

theorem outer_append_eq {first : List Char} (nested : Nested first) (second : List Char) :
    outer .outside (first ++ second) = outer .outside first ++ outer .outside second := by
  rw [outer_append, Nesting.outside, nested.after]

theorem outer_quote {value : List Char} (unquoted : '\'' ∉ value) :
    outer .outside ('\'' :: value ++ ['\'']) = ['\''] := by
  simp [outer, Nesting.outside, Nesting.isOutside, Nesting.step, outer_append,
    outer_unquoted unquoted, after_unquoted unquoted]

theorem outer_enclose {inner : List Char} (inside : Nested inner) :
    outer .outside ('[' :: inner ++ [']']) = ['['] := by
  simp [outer, Nesting.outside, Nesting.isOutside, Nesting.step, outer_append,
    inside.outer_inside, inside.after]

theorem outer_apply {inner : List Char} (inside : Nested inner) :
    outer .outside ('(' :: inner ++ [')']) = ['('] := by
  simp [outer, Nesting.outside, Nesting.isOutside, Nesting.step, outer_append,
    inside.outer_inside, inside.after]

theorem outer_of_plain {text : List Char} (visible : ∀ c ∈ text, isDelimiter c = false) :
    outer .outside text = text := by
  induction text with
  | nil => rfl
  | cons c rest continued =>
      have later := continued fun d member => visible d (by simp [member])
      have step := Nesting.step_of_plain (visible c (by simp)) .outside
      have outside : Nesting.outside.isOutside = true := rfl
      rw [outer, if_pos outside, step, later]

end Nested

theorem mem_outer {nesting : Nesting} {before after : List Char} {c : Char}
    (outside : (nesting.after before).isOutside = true) :
    c ∈ outer nesting (before ++ c :: after) := by
  rw [outer_append]
  simp [outer, outside]

theorem mem_of_mem_outer {nesting : Nesting} {text : List Char} {c : Char}
    (member : c ∈ outer nesting text) : c ∈ text := by
  induction text generalizing nesting with
  | nil => exact member
  | cons d rest continued =>
      simp only [outer] at member
      split at member
      · rcases List.mem_cons.mp member with rfl | later
        · exact List.mem_cons_self
        · exact List.mem_cons_of_mem d (continued later)
      · exact List.mem_cons_of_mem d (continued member)

/-! ### Searches over nested texts -/

section

variable {accept : List Char → List Char → Bool} {text first second ahead : List Char}

/-- Nothing is found among characters that are not accepted. -/
theorem not_found_of_outer
    (refused : ∀ c ∈ outer .outside text, ∀ read after, accept read (c :: after) = false) :
    ¬ Found accept text ahead := by
  rintro ⟨before, c, after, rfl, hit⟩
  have member : c ∈ outer .outside (before ++ c :: after) :=
    mem_outer (by rw [hit.outside]; rfl)
  have accepted := hit.accepted
  rw [refused c member] at accepted
  cases accepted

theorem Found.append_cases (nested : Nested first) (found : Found accept (first ++ second) ahead) :
    Found accept first (second ++ ahead) ∨
      ∃ before c after, second = before ++ c :: after ∧
        Nesting.outside.after before = .outside ∧ isDelimiter c = false ∧
        accept (before.reverse ++ first.reverse) (c :: (after ++ ahead)) = true := by
  obtain ⟨before, c, after, whole, hit⟩ := found
  rcases append_eq_append_cons whole with ⟨rest, rfl, rfl⟩ | ⟨rest, rfl, rfl⟩
  · exact .inl ⟨before, c, rest, rfl, by simpa using hit⟩
  · refine .inr ⟨rest, c, after, rfl, ?_, hit.plain, by simpa using hit.accepted⟩
    have outside := hit.outside
    rwa [Nesting.after_append, Nesting.outside, nested.after] at outside

end

/-- The first opening parenthesis comes right after a text that shows none. -/
theorem openingParen?_append {first rest : List Char} (nested : Nested first)
    (unopened : '(' ∉ outer .outside first) :
    openingParen? (first ++ '(' :: rest) = some (first, rest) := by
  have reached : Nesting.outside.after first = .outside := nested.after 0
  have found : walk? (fun nesting _ ahead => nesting.isOutside && ahead.head? == some '(')
      .outside [] (first ++ '(' :: rest) = some (first, '(' :: rest) := by
    apply walk?_eq_some_of
    · rw [reached]
      rfl
    · rintro start d second rfl
      by_contra both
      simp only [List.head?_cons, Bool.not_eq_false, Bool.and_eq_true, beq_iff_eq,
        Option.some.injEq] at both
      obtain ⟨outside, rfl⟩ := both
      exact unopened (mem_outer outside)
  simp only [openingParen?, found]
  rfl

theorem openingParen?_eq_some {text callee rest : List Char}
    (found : openingParen? text = some (callee, rest)) :
    text = callee ++ '(' :: rest ∧ (Nesting.outside.after callee).isOutside = true := by
  simp only [openingParen?, Option.map_eq_some_iff, Prod.mk.injEq] at found
  obtain ⟨⟨front, ahead⟩, walked, rfl, rfl⟩ := found
  obtain ⟨before, c, after, rfl, rfl, rfl, stopped, _⟩ := walk?_eq_some walked
  simp only [List.head?_cons, Bool.and_eq_true, beq_iff_eq, Option.some.injEq] at stopped
  obtain ⟨outside, rfl⟩ := stopped
  exact ⟨rfl, outside⟩

theorem openingParen?_eq_none {text : List Char} (unopened : '(' ∉ outer .outside text) :
    openingParen? text = none := by
  rw [openingParen?, Option.map_eq_none_iff, walk?_eq_none_iff]
  rintro before c after rfl
  by_contra both
  simp only [List.head?_cons, Bool.not_eq_false, Bool.and_eq_true, beq_iff_eq,
    Option.some.injEq] at both
  obtain ⟨outside, rfl⟩ := both
  exact unopened (mem_outer outside)

theorem closingParen?_unquoted {value rest : List Char} (unquoted : '\'' ∉ value) (inner : Nat) :
    closingParen? true inner (value ++ '\'' :: rest) =
      (closingParen? false inner rest).map fun (before, after) =>
        (value ++ '\'' :: before, after) := by
  induction value with
  | nil => simp [closingParen?]
  | cons c value continued =>
      rw [List.mem_cons, not_or] at unquoted
      have other : (c == '\'') = false := by simpa using Ne.symm unquoted.1
      simp [closingParen?, other, continued unquoted.2, Function.comp_def]

/-- The search for the closing parenthesis passes over a nested text. -/
theorem Nested.closingParen? {text : List Char} (nested : Nested text) (inner : Nat)
    (rest : List Char) :
    Text.closingParen? false inner (text ++ rest) =
      (Text.closingParen? false inner rest).map fun (before, after) => (text ++ before, after) := by
  induction nested generalizing inner rest with
  | nil => simp
  | @plain c text visible _ continued =>
      simp only [isDelimiter, Bool.or_eq_false_iff] at visible
      obtain ⟨⟨⟨⟨quote, paren⟩, _⟩, closing⟩, _⟩ := visible
      simp [Text.closingParen?, quote, paren, closing, continued, Function.comp_def]
  | quoted unquoted _ continued =>
      simp [Text.closingParen?, closingParen?_unquoted unquoted, continued, Function.comp_def]
  | paren _ _ inside continued =>
      simp [Text.closingParen?, inside, continued, Function.comp_def]
  | bracket _ _ inside continued =>
      simp [Text.closingParen?, inside, continued, Function.comp_def]

/-- A piece goes on until a separator is met on the surface. -/
theorem surfacePieces_append {separator : Char} {nesting : Nesting} {first second piece : List Char}
    {others : List (List Char)} (unseparated : separator ∉ outer nesting first)
    (rest : surfacePieces separator (nesting.after first) second = piece :: others) :
    surfacePieces separator nesting (first ++ second) = (first ++ piece) :: others := by
  induction first generalizing nesting with
  | nil => exact rest
  | cons c first continued =>
      have passed : (nesting.surfaces c && c == separator) = false := by
        by_contra both
        simp only [Bool.not_eq_false, Bool.and_eq_true, Nesting.surfaces_iff, beq_iff_eq] at both
        obtain ⟨⟨rfl, _⟩, rfl⟩ := both
        exact unseparated (by simp [outer, Nesting.outside, Nesting.isOutside])
      have later : separator ∉ outer (nesting.step c) first := by
        intro member
        apply unseparated
        simp only [outer]
        split
        · exact List.mem_cons_of_mem _ member
        · exact member
      simp [surfacePieces, passed, continued later rest]

end TableScript.Text
