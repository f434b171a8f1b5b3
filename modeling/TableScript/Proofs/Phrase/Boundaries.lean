import TableScript.Proofs.Phrase.Literals
import TableScript.Proofs.Text.Parens
import TableScript.Proofs.Text.Pieces

namespace TableScript

open Text

/-! Boundaries.  The searches of the reader give byte offsets, and the texts that it reads
on are cut out of the bytes around them.  Whatever the text, unbalanced or not closed, with
characters of one byte or of more, no search points outside of it or into a character, and
no cut takes its bounds in the wrong order. -/

/-- The patterns that are looked for on the surface of a text. -/
def searchedPatterns : List (List Char) :=
  Comparison.searchOrder.map Comparison.symbol ++ [['^'], [';']]

/-- A search that finds its symbol finds it strictly inside the text, and parts the text
there. -/
structure SearchesInside (text : List Char) : Prop where
  assignment : ∀ target value, Shape.assignment? text = some (target, value) →
    CutAt text (byteSize target) ['='] target value
  operator : ∀ op left right, Shape.arithmetic? text = some (op, left, right) →
    CutAt text (byteSize left) [op.symbol] left right
  pattern : ∀ pattern ∈ searchedPatterns, ∀ left right,
    surfaceSplit? pattern text = some (left, right) →
      surfaceOffset? pattern text = some (byteSize left) ∧
        CutAt text (byteSize left) pattern left right
  opening : ∀ callee rest, openingParen? text = some (callee, rest) →
    CutAt text (byteSize callee) ['('] callee rest
  closing : ∀ start, Slice text start (start + 1) ['('] → Closes text start

/-- The texts that are read for a line: all of it, or the condition and the increment of
its header. -/
inductive ReadFor (line : List Char) : List Char → Prop where
  | whole : ReadFor line (trim line)
  | clause {clause : List Char}
      (keyword : Phrase.afterKeyword? ['i', 'f'] (trim line) = some clause) :
      ReadFor line (Phrase.withoutParens clause)
  | header {header inside condition increment part : List Char}
      (keyword : Phrase.afterKeyword? ['f', 'o', 'r'] (trim line) = some header)
      (enclosed : between? '(' ')' header = some inside)
      (split : surfaceSplit? [';'] inside = some (condition, increment))
      (side : part = condition ∨ part = increment) : ReadFor line part

/-- What is cut out between two symbols, or read on the way, is a slice of the text. -/
structure SlicesInside (text : List Char) : Prop where
  call : ∀ callee rest inside, openingParen? text = some (callee, rest) →
    closingParen? false 0 rest = some (inside, []) →
      Slice text (byteSize callee + 1) (byteSize text - 1) inside
  clause : Phrase.withoutParens text ≠ text →
    Slice text 1 (byteSize text - 1) (Phrase.withoutParens text)
  /-- Quoted literals, elements in brackets and the headers of loops. -/
  enclosed : ∀ ends ∈ [('\'', '\''), ('[', ']'), ('(', ')')], ∀ inside,
    between? ends.1 ends.2 text = some inside → Slice text 1 (byteSize text - 1) inside
  index : ∀ index rest, firstBracket? text = some (index, rest) →
    ∃ stop inside, index = trim inside ∧ Slice text 1 stop inside ∧
      CutAt text stop [']'] ('[' :: inside) rest
  reached : ∀ piece, Piece text piece → ∃ start stop, Slice text start stop piece
  line : ∀ part piece, ReadFor text part → Piece part piece →
    ∃ start stop, Slice text start stop piece

section

variable {text : List Char}

theorem surfaceOffset?_of_split {pattern left right : List Char}
    (split : surfaceSplit? pattern text = some (left, right)) :
    surfaceOffset? pattern text = some (byteSize left) := by
  simp only [surfaceSplit?, Option.map_eq_some_iff, Prod.mk.injEq] at split
  obtain ⟨⟨before, ahead⟩, cut, rfl, _⟩ := split
  rw [surfaceOffset?, cut]
  rfl

theorem searchedPatterns_spelled {pattern : List Char} (searched : pattern ∈ searchedPatterns) :
    pattern ≠ [] ∧ ∀ c ∈ pattern, c.val ≤ 127 ∧ isDelimiter c = false := by
  have spelled : (searchedPatterns.all fun pattern => !pattern.isEmpty &&
      pattern.all fun c => c.val ≤ 127 && !isDelimiter c) = true := by decide
  simpa using List.all_eq_true.mp spelled pattern searched

theorem cutAt_of_searched {pattern left right : List Char} (searched : pattern ∈ searchedPatterns)
    (split : surfaceSplit? pattern text = some (left, right)) :
    CutAt text (byteSize left) pattern left right := by
  obtain ⟨given, plain⟩ := searchedPatterns_spelled searched
  have parted := (surfaceSplit?_eq_some (fun c member => (plain c member).2) split).1
  exact cutAt_of_append (fun c member => (plain c member).1) given parted.whole

theorem searchesInside (text : List Char) : SearchesInside text where
  assignment target value cut :=
    cutAt_of_char (by decide) (Shape.hit_of_assignment? cut).1
  operator op left right cut := by
    have ascii : op.symbol.val ≤ 127 := by cases op <;> decide
    have whole := (Shape.arithmetic?_eq_some cut).1.whole
    exact cutAt_of_append (List.forall_mem_singleton.mpr ascii) (List.cons_ne_nil _ _) whole
  pattern pattern searched left right split :=
    ⟨surfaceOffset?_of_split split, cutAt_of_searched searched split⟩
  opening callee rest found := cutAt_of_char (by decide) (openingParen?_eq_some found).1
  closing start opening := closes_of_slice opening

/-! ### Slices -/

theorem slice_call {callee rest inside : List Char}
    (opened : openingParen? text = some (callee, rest))
    (closed : closingParen? false 0 rest = some (inside, [])) :
    Slice text (byteSize callee + 1) (byteSize text - 1) inside := by
  have whole : text = callee ++ ('(' :: inside ++ [')']) := by
    rw [(openingParen?_eq_some opened).1, closingParen?_eq_append closed]
    rfl
  exact slice_enclosed whole (by decide)

theorem withoutParens_cases (text : List Char) :
    Phrase.withoutParens text = text ∨ text = '(' :: Phrase.withoutParens text ++ [')'] := by
  unfold Phrase.withoutParens
  split
  · split
    · rename_i inside closed
      rw [closingParen?_eq_append closed]
      exact .inr rfl
    · exact .inl rfl
  · exact .inl rfl

theorem slice_firstBracket? {index rest : List Char}
    (found : firstBracket? text = some (index, rest)) :
    ∃ stop inside, index = trim inside ∧ Slice text 1 stop inside ∧
      CutAt text stop [']'] ('[' :: inside) rest := by
  obtain ⟨inside, whole, same⟩ := firstBracket?_eq_some found
  have front := slice_append ['['] inside (']' :: rest)
  have split : text = ['['] ++ inside ++ ']' :: rest := by simpa using whole
  rw [← split] at front
  exact ⟨_, inside, same, front, cutAt_of_char (by decide) whole⟩

/-! ### Texts that are read on the way -/

theorem infix_of_side {left symbol right part : List Char} (whole : text = left ++ symbol ++ right)
    (side : part = left ∨ part = right) : part <:+: text := by
  rw [whole]
  rcases side with rfl | rfl
  · rw [List.append_assoc]
    exact (List.prefix_append _ _).isInfix
  · exact (List.suffix_append _ _).isInfix

theorem infix_of_mem_arguments {inside argument : List Char}
    (member : argument ∈ Shape.arguments inside) : argument <:+: inside := by
  unfold Shape.arguments at member
  split at member
  · cases member
  · exact infix_of_mem_surfacePieces member

/-- The key of an element stands between brackets at the end of the text. -/
theorem infix_of_entry {index : String} {key : List Char}
    (found : Shape.entry text = .ok (.element index key)) : key <:+: text := by
  unfold Shape.entry at found
  split at found
  · rename_i first rest bracket
    obtain ⟨opened, whole, _⟩ := firstBracket?_eq_some bracket
    have behind : rest <:+: text := by
      rw [whole]
      exact ⟨'[' :: opened ++ [']'], [], by simp⟩
    split at found
    · cases found
    · split at found
      · cases found
      · split at found
        · rename_i inside bracketed
          obtain ⟨held, enclosed, rfl⟩ := Option.map_eq_some_iff.mp bracketed
          have within : held <:+: rest := ⟨['['], [']'], (between?_eq_some enclosed).symm⟩
          split at found
          · cases found
          · cases found
            exact (infix_trim held).trans (within.trans behind)
        · cases found
  · cases found

theorem infix_of_atom {index : String} {key : List Char}
    (found : Shape.atom text = .ok (.element index key)) : key <:+: text := by
  unfold Shape.atom at found
  split at found
  · split at found <;> cases found
  · split at found
    · split at found <;> cases found
    · exact infix_of_entry found
    · split at found <;> cases found
    · unfold Shape.literal at found
      split at found
      · cases found
      · split at found <;> cases found

/-- The operands of a construct are cut out of its text. -/
theorem infix_of_mem_operands {construct : Shape} (found : shape text = .ok construct)
    {operand : List Char} (member : operand ∈ construct.operands) : operand <:+: text := by
  cases (shaped_of_shape found).2 with
  | assign cut goal =>
      have whole := (Shape.hit_of_assignment? cut).1
      rw [← List.singleton_append, ← List.append_assoc] at whole
      exact infix_of_side whole (.inr (List.mem_singleton.mp member))
  | arithmetic _ cut =>
      have parted := (Shape.arithmetic?_eq_some cut).1
      exact infix_of_side parted.whole (by simpa [Shape.operands] using member)
  | compare _ _ cut =>
      have parted := (surfaceSplit?_eq_some (Shape.isDelimiter_comparison _)
        (Shape.comparison?_eq_some cut).1).1
      exact infix_of_side parted.whole (by simpa [Shape.operands] using member)
  | concat _ _ _ _ cut =>
      have parted := (surfaceSplit?_eq_some (List.forall_mem_singleton.mpr rfl) cut).1
      exact infix_of_side parted.whole (by simpa [Shape.operands] using member)
  | call _ _ _ applied =>
      obtain ⟨callee, inside, whole, _, same⟩ := Shape.call?_eq_some applied
      rw [same] at member
      have within : inside <:+: text := ⟨callee ++ ['('], [')'], by simp [whole]⟩
      exact (infix_of_mem_arguments member).trans within
  | atom _ _ _ _ _ found =>
      cases Shape.atomic_of_atom found with
      | element valid =>
          cases List.mem_singleton.mp member
          exact infix_of_atom found
      | register | parameter | entry | item | reference | literal => cases member

theorem infix_of_piece {piece : List Char} (part : Piece text piece) : piece <:+: text := by
  induction part with
  | self text => exact List.infix_rfl
  | operand found member _ continued =>
      exact continued.trans ((infix_of_mem_operands found member).trans (infix_trim _))

theorem infix_of_afterKeyword? {word rest : List Char}
    (found : Phrase.afterKeyword? word text = some rest) : rest <:+: text := by
  unfold Phrase.afterKeyword? at found
  split at found
  · rename_i c behind keyword
    have whole := List.isPrefixOf?_eq_some_iff_append_eq.mp keyword
    split at found
    · cases found
      exact (infix_trim _).trans ⟨word, [], by rw [List.append_nil, whole]⟩
    · cases found
  · cases found

theorem infix_withoutParens (text : List Char) : Phrase.withoutParens text <:+: text := by
  rcases withoutParens_cases text with same | whole
  · exact same.symm ▸ List.infix_rfl
  · exact ⟨['('], [')'], whole.symm⟩

theorem infix_of_readFor {part : List Char} (handed : ReadFor text part) : part <:+: text := by
  cases handed with
  | whole => exact infix_trim text
  | clause keyword =>
      exact (infix_withoutParens _).trans ((infix_of_afterKeyword? keyword).trans (infix_trim text))
  | @header header inside _ _ _ keyword enclosed split side =>
      have parted := (surfaceSplit?_eq_some (List.forall_mem_singleton.mpr rfl) split).1
      have within : inside <:+: header := ⟨['('], [')'], (between?_eq_some enclosed).symm⟩
      have behind : header <:+: text := (infix_of_afterKeyword? keyword).trans (infix_trim text)
      exact (infix_of_side parted.whole side).trans (within.trans behind)

theorem slicesInside (text : List Char) : SlicesInside text where
  call callee rest inside opened closed := slice_call opened closed
  clause enclosed := by
    rcases withoutParens_cases text with same | whole
    · exact absurd same enclosed
    · exact @slice_enclosed text [] '(' ')' _ whole (by decide)
  enclosed ends listed inside found := by
    have ascii : ends.1.val ≤ 127 ∧ ends.2.val ≤ 127 := by
      simp only [List.mem_cons, List.not_mem_nil, or_false] at listed
      rcases listed with rfl | rfl | rfl <;> decide
    exact @slice_enclosed text [] ends.1 ends.2 inside (between?_eq_some found) ascii
  index index rest found := slice_firstBracket? found
  reached piece part := exists_slice_of_infix (infix_of_piece part)
  line part piece handed inner :=
    exists_slice_of_infix ((infix_of_piece inner).trans (infix_of_readFor handed))

end

/-- Reading cuts every text on boundaries between its characters. -/
theorem cuts_on_boundaries (text : List Char) : SearchesInside text ∧ SlicesInside text :=
  ⟨searchesInside text, slicesInside text⟩

/-- Characters of two and of three bytes next to the cuts, a parenthesis in quotes, and one
that is never closed. -/
theorem cuts_on_boundaries_multibyte :
    CutAt "$é = f('ü)', (€))".toList 4 ['='] "$é ".toList " f('ü)', (€))".toList ∧
      Slice "f('ü)', (€))".toList 2 14 "'ü)', (€)".toList ∧
      IsLeast (balancedEnds "f('ü)', (€))".toList 1) 14 ∧
      balancedEnds "f('ü)', (€)".toList 1 = ∅ := by
  have assigned : Shape.assignment? "$é = f('ü)', (€))".toList =
      some ("$é ".toList, " f('ü)', (€))".toList) := by decide
  have opened : openingParen? "f('ü)', (€))".toList =
      some (['f'], "'ü)', (€))".toList) := by decide
  have closed : closingParen? false 0 "'ü)', (€))".toList =
      some ("'ü)', (€)".toList, []) := by decide
  have unclosed : openingParen? "f('ü)', (€)".toList =
      some (['f'], "'ü)', (€)".toList) := by decide
  obtain ⟨searches, slices⟩ := cuts_on_boundaries "f('ü)', (€))".toList
  obtain ⟨fruitless, _⟩ := cuts_on_boundaries "f('ü)', (€)".toList
  have start := (searches.opening _ _ opened).stands
  have startUnclosed := (fruitless.opening _ _ unclosed).stands
  refine ⟨(cuts_on_boundaries _).1.assignment _ _ assigned, slices.call _ _ _ opened closed, ?_, ?_⟩
  · exact ((searches.closing 1 start).found 14).mp (by decide)
  · exact (fruitless.closing 1 startUnclosed).missing.mp (by decide)

end TableScript
