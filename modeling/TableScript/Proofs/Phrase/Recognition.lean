import TableScript.Proofs.Phrase.Written

namespace TableScript

open Text

/-! What the recognisers find in canonical texts.  An operator stands between
blanks, so a search meets it either in an operand or between the operands, and
what binds more loosely than a text shows nowhere in it. -/

/-! ### Cuts at an operator between blanks -/

/-- A test that refuses blanks and does not look back beyond one. -/
structure Apart (accept : List Char → List Char → Bool) : Prop where
  blank : ∀ read after, accept read (' ' :: after) = false
  back : ∀ read more ahead, accept (read ++ ' ' :: more) ahead = true → accept read ahead = true

section

variable {accept : List Char → List Char → Bool} {left symbol right ahead : List Char}

theorem spaced_eq (left symbol right : List Char) :
    spaced left symbol right = left ++ ' ' :: (symbol ++ ' ' :: right) := by
  simp [spaced]

theorem surfaceCut?_spaced {c : Char} {rest : List Char} (nested : Nested left)
    (plain : isDelimiter c = false)
    (missed : ¬ Found accept left (' ' :: c :: (rest ++ ' ' :: right)))
    (passed : accept left.reverse (' ' :: c :: (rest ++ ' ' :: right)) = false)
    (accepted : accept (' ' :: left.reverse) (c :: (rest ++ ' ' :: right)) = true) :
    surfaceCut? accept (spaced left (c :: rest) right) =
      some (left ++ [' '], c :: (rest ++ ' ' :: right)) := by
  have whole : spaced left (c :: rest) right = (left ++ [' ']) ++ c :: (rest ++ ' ' :: right) := by
    simp [spaced]
  rw [whole]
  apply surfaceCut?_eq_some_of
  · refine ⟨?_, plain, by simpa using accepted⟩
    rw [Nesting.after_append, Nesting.outside, nested.after]
    rfl
  · intro found
    rcases found.append_cases nested with early | ⟨before, d, after, single, _, _, reached⟩
    · exact missed (by simpa using early)
    · cases before with
      | nil =>
          obtain ⟨rfl, rfl⟩ := List.cons.inj single
          simp only [List.reverse_nil, List.nil_append, passed] at reached
          cases reached
      | cons e before => simp at single

/-- What is found in a text is found in its left operand, in its operator or in
its right operand. -/
theorem found_spaced (apart : Apart accept) (nested : Nested left)
    (plain : ∀ c ∈ symbol, isDelimiter c = false)
    (found : Found accept (spaced left symbol right) ahead) :
    Found accept left (' ' :: (symbol ++ ' ' :: (right ++ ahead))) ∨
      (∃ before c after, symbol = before ++ c :: after ∧
        accept before.reverse (c :: (after ++ ' ' :: (right ++ ahead))) = true) ∨
      Found accept right ahead := by
  rw [spaced_eq] at found
  rcases found.append_cases nested with early | ⟨before, c, after, whole, outside, visible, reached⟩
  · exact .inl (by simpa using early)
  · refine .inr ?_
    have unblank : c ≠ ' ' := by
      rintro rfl
      rw [apart.blank] at reached
      cases reached
    cases before with
    | nil => exact absurd (List.cons.inj whole).1.symm unblank
    | cons d before =>
        obtain ⟨rfl, remaining⟩ := List.cons.inj whole
        rcases append_eq_append_cons remaining with ⟨rest, rfl, rfl⟩ | ⟨rest, rfl, later⟩
        · refine .inl ⟨before, c, rest, rfl, apart.back _ left.reverse _ ?_⟩
          simpa using reached
        · cases rest with
          | nil => exact absurd (List.cons.inj later).1.symm unblank
          | cons d rest =>
              obtain ⟨rfl, rfl⟩ := List.cons.inj later
              refine .inr ⟨rest, c, after, rfl, ?_, visible, ?_⟩
              · rw [Nesting.after_cons, Nesting.after_append, Nesting.after_cons,
                  Nesting.step_of_plain rfl, Nesting.after_of_plain plain,
                  Nesting.step_of_plain rfl] at outside
                exact outside
              · refine apart.back _ (symbol.reverse ++ ' ' :: left.reverse) _ ?_
                simpa using reached

end

theorem apart_isAssignment : Apart Shape.isAssignment where
  blank _ _ := rfl
  back := by
    intro read more ahead accepted
    unfold Shape.isAssignment at accepted ⊢
    split at accepted
    · cases read with
      | nil => simpa using accepted
      | cons c read => simpa using accepted
    · cases accepted

theorem apart_comparison (op : Comparison) : Apart fun _ ahead => op.symbol.isPrefixOf ahead where
  blank _ _ := by cases op <;> rfl
  back _ _ _ accepted := accepted

/-! ### The operators of a canonical text -/

theorem isAssignment_of_ne {c : Char} (different : c ≠ '=') (read after : List Char) :
    Shape.isAssignment read (c :: after) = false := by
  unfold Shape.isAssignment
  split
  · rename_i same
    exact absurd (List.cons.inj same).1 different
  · rfl

theorem isOperator_of_grip {c : Char} (tight : 2 < grip c) (read after : List Char) :
    Shape.isOperator read (c :: after) = false := by
  have none : Arithmetic.ofSymbol? c = none := by
    by_contra symbol
    obtain ⟨op, symbol⟩ := Option.ne_none_iff_exists'.mp symbol
    obtain rfl := Arithmetic.ofSymbol?_eq_some_iff.mp symbol
    revert tight
    cases op <;> decide
  simp [Shape.isOperator, none]

theorem isPrefixOf_of_grip {c : Char} (tight : 3 < grip c) (op : Comparison) (after : List Char) :
    op.symbol.isPrefixOf (c :: after) = false := by
  have different : ∀ d, grip d ≤ 3 → (d == c) = false := by
    intro d loose
    rw [beq_eq_false_iff_ne]
    rintro rfl
    omega
  cases op <;> simp [Comparison.symbol, List.isPrefixOf, different _ (by decide : grip '<' ≤ 3),
    different _ (by decide : grip '>' ≤ 3), different _ (by decide : grip '=' ≤ 3)]

namespace Comparison

variable {op other : Comparison} {before after : List Char} {c : Char}

theorem symbol_eq_append_cons (within : op.symbol = before ++ c :: after) :
    before = [] ∨ ∃ d, before = [d] := by
  have short : op.symbol.length ≤ 2 := by cases op <;> decide
  rcases before with _ | ⟨d, _ | ⟨e, before⟩⟩
  · exact .inl rfl
  · exact .inr ⟨d, rfl⟩
  · rw [within] at short
    simp only [List.length_append, List.length_cons] at short
    omega

theorem isAssignment_symbol (within : op.symbol = before ++ c :: after) (rest : List Char) :
    Shape.isAssignment before.reverse (c :: (after ++ ' ' :: rest)) = false := by
  rcases symbol_eq_append_cons within with rfl | ⟨d, rfl⟩ <;> cases op <;> cases within <;> rfl

/-- A comparison whose symbol shows in that of another, with a blank behind it,
comes later in the search order. -/
theorem rank_le_of_symbol {rest : List Char} (within : op.symbol = before ++ c :: after)
    (found : other.symbol.isPrefixOf (c :: (after ++ ' ' :: rest)) = true) :
    op.rank ≤ other.rank := by
  rcases symbol_eq_append_cons within with rfl | ⟨d, rfl⟩ <;> cases op <;> cases within <;>
    cases other <;> first | decide | cases found

end Comparison

namespace Phrase

section

variable {phrase : Phrase}

theorem not_found_operator (formed : phrase.WellFormed) (level : 2 ≤ phrase.binding)
    (ahead : List Char) : ¬ Found Shape.isOperator phrase.render ahead :=
  (written_render phrase formed).not_found fun _ seen =>
    isOperator_of_grip (Nat.lt_of_le_of_lt level seen)

theorem not_found_comparison (formed : phrase.WellFormed) (level : 3 ≤ phrase.binding)
    (op : Comparison) (ahead : List Char) :
    ¬ Found (fun _ ahead => op.symbol.isPrefixOf ahead) phrase.render ahead :=
  (written_render phrase formed).not_found fun _ seen _ =>
    isPrefixOf_of_grip (Nat.lt_of_le_of_lt level seen) op

theorem not_found_concat (formed : phrase.WellFormed) (level : 4 ≤ phrase.binding)
    (ahead : List Char) : ¬ Found (fun _ ahead => ['^'].isPrefixOf ahead) phrase.render ahead := by
  apply (written_render phrase formed).not_found
  intro c seen _ after
  have different : ('^' == c) = false := by
    rw [beq_eq_false_iff_ne]
    rintro rfl
    exact absurd (Nat.lt_of_le_of_lt level seen) (by decide)
  simp [List.isPrefixOf, different]

end

/-- A text that is not an assignment shows no lone `=`. -/
theorem not_found_assignment (phrase : Phrase) (formed : phrase.WellFormed)
    (level : 1 ≤ phrase.binding) (ahead : List Char) :
    ¬ Found Shape.isAssignment phrase.render ahead := by
  have closed (tight : 3 ≤ phrase.binding) : ¬ Found Shape.isAssignment phrase.render ahead := by
    apply (written_render phrase formed).not_found
    intro c seen
    apply isAssignment_of_ne
    rintro rfl
    exact absurd (Nat.lt_of_le_of_lt tight seen) (by decide)
  cases phrase with
  | assign _ _ => simp [binding] at level
  | arithmetic op left right =>
      have leftFormed : left.WellFormed := formed.child (by simp [children])
      have rightFormed : right.WellFormed := formed.child (by simp [children])
      obtain ⟨leftTight, rightTight⟩ := formed.self.1
      intro found
      rcases found_spaced apart_isAssignment (written_render left leftFormed).nested
        (by simpa using Shape.isDelimiter_symbol op) found with inLeft |
        ⟨before, c, after, within, accepted⟩ | inRight
      · exact not_found_assignment left leftFormed (Nat.le_of_succ_le leftTight) _ inLeft
      · have symbol : c ∈ [op.symbol] := by simp [within]
        rw [isAssignment_of_ne] at accepted
        · cases accepted
        · rw [List.mem_singleton.mp symbol]
          cases op <;> decide
      · exact not_found_assignment right rightFormed rightTight _ inRight
  | compare op left right =>
      have leftFormed : left.WellFormed := formed.child (by simp [children])
      have rightFormed : right.WellFormed := formed.child (by simp [children])
      obtain ⟨leftTight, rightTight, _⟩ := formed.self.1
      intro found
      rcases found_spaced apart_isAssignment (written_render left leftFormed).nested
        (Shape.isDelimiter_comparison op) found with inLeft |
        ⟨before, c, after, within, accepted⟩ | inRight
      · exact not_found_assignment left leftFormed (Nat.le_of_succ_le leftTight) _ inLeft
      · rw [Comparison.isAssignment_symbol within] at accepted
        cases accepted
      · exact not_found_assignment right rightFormed (Nat.le_of_succ_le rightTight) _ inRight
  | ifHeader _ | forHeader _ _ | call _ _ | builtin _ _ | concat _ _ | register _ | parameter _
  | entry _ | element _ _ | reference _ | literal _ | close => exact closed (by simp [binding])

/-- The comparisons that show in a text are those of its chain, or parts of them. -/
theorem exists_chain_of_found (phrase : Phrase) (formed : phrase.WellFormed)
    (level : 2 ≤ phrase.binding) {other : Comparison} {ahead : List Char}
    (found : Found (fun _ ahead => other.symbol.isPrefixOf ahead) phrase.render ahead) :
    ∃ op ∈ phrase.chain, op.rank ≤ other.rank := by
  have closed (tight : 3 ≤ phrase.binding) : ∃ op ∈ phrase.chain, op.rank ≤ other.rank :=
    absurd found (not_found_comparison formed tight other ahead)
  cases phrase with
  | assign _ _ | arithmetic _ _ _ => simp [binding] at level
  | compare op left right =>
      have leftFormed : left.WellFormed := formed.child (by simp [children])
      have rightFormed : right.WellFormed := formed.child (by simp [children])
      obtain ⟨leftTight, rightTight, _⟩ := formed.self.1
      rcases found_spaced (apart_comparison other) (written_render left leftFormed).nested
        (Shape.isDelimiter_comparison op) found with inLeft |
        ⟨before, c, after, within, accepted⟩ | inRight
      · obtain ⟨first, member, earlier⟩ :=
          exists_chain_of_found left leftFormed leftTight inLeft
        exact ⟨first, by simp [chain, member], earlier⟩
      · exact ⟨op, by simp [chain], Comparison.rank_le_of_symbol within accepted⟩
      · obtain ⟨first, member, earlier⟩ :=
          exists_chain_of_found right rightFormed rightTight inRight
        exact ⟨first, by simp [chain, member], earlier⟩
  | ifHeader _ | forHeader _ _ | call _ _ | builtin _ _ | concat _ _ | register _ | parameter _
  | entry _ | element _ _ | reference _ | literal _ | close => exact closed (by simp [binding])

end Phrase

/-! ### Recognisers on texts with their operator between blanks -/

section

variable {left right : List Char}

theorem surfaceSplit?_spaced {c : Char} {rest : List Char} (nested : Nested left)
    (plain : isDelimiter c = false) (different : c ≠ ' ')
    (missed : ∀ ahead, ¬ Found (fun _ ahead => (c :: rest).isPrefixOf ahead) left ahead) :
    surfaceSplit? (c :: rest) (spaced left (c :: rest) right) =
      some (left ++ [' '], ' ' :: right) := by
  have cut := surfaceCut?_spaced nested plain (missed _)
    (by simp [List.isPrefixOf, different] : (c :: rest).isPrefixOf
      (' ' :: c :: (rest ++ ' ' :: right)) = false)
    (List.isPrefixOf_iff_prefix.mpr (List.prefix_append (c :: rest) (' ' :: right)))
  rw [surfaceSplit?, cut]
  simp

theorem arithmetic?_spaced {op : Arithmetic} {level : Nat} (written : Written level left)
    (missed : ∀ ahead, ¬ Found Shape.isOperator left ahead) :
    Shape.arithmetic? (spaced left [op.symbol] right) =
      some (op, left ++ [' '], ' ' :: right) := by
  have symbol : Arithmetic.ofSymbol? op.symbol = some op :=
    Arithmetic.ofSymbol?_eq_some_iff.mpr rfl
  obtain ⟨rest, last, whole, visible, ended⟩ := written.finish
  have blank : isBlank ' ' = true := by decide
  have accepted : Shape.isOperator (' ' :: left.reverse) (op.symbol :: ([] ++ ' ' :: right)) =
      true := by
    simpa [Shape.isOperator, symbol, whole, trimStart, blank, visible] using ended
  have cut := surfaceCut?_spaced written.nested (Shape.isDelimiter_symbol op) (missed _)
    (isOperator_of_grip (by decide) _ _) accepted
  rw [Shape.arithmetic?, cut]
  simp [symbol]

theorem comparison?_spaced {op : Comparison} (nested : Nested left)
    (missed : ∀ ahead, ¬ Found (fun _ ahead => op.symbol.isPrefixOf ahead) left ahead)
    (earlier : ∀ other : Comparison, other.rank < op.rank →
      ¬ Found (fun _ ahead => other.symbol.isPrefixOf ahead) (spaced left op.symbol right) []) :
    Shape.comparison? (spaced left op.symbol right) = some (op, left ++ [' '], ' ' :: right) := by
  have split : surfaceSplit? op.symbol (spaced left op.symbol right) =
      some (left ++ [' '], ' ' :: right) := by
    cases op <;> exact surfaceSplit?_spaced nested rfl (by decide) missed
  rw [Shape.comparison?, List.findSome?_eq_some_iff]
  refine ⟨Comparison.searchOrder.take op.rank, op, Comparison.searchOrder.drop (op.rank + 1),
    by cases op <;> rfl, by rw [split]; rfl, ?_⟩
  intro other member
  have before : other.rank < op.rank := by
    revert member
    cases op <;> cases other <;> decide
  rw [Option.map_eq_none_iff, surfaceSplit?_eq_none_iff]
  exact earlier other before

end

/-! ### Brackets around indices -/

section

variable {index : List Char}

theorem firstBracket?_index (valid : isIndex index = true) (rest : List Char) :
    firstBracket? ('[' :: index ++ ']' :: rest) = some (index, rest) :=
  firstBracket?_append (isIndex_trimmed valid) (not_mem_of_isIndex valid (by decide))

theorem bracketedIndex?_index (valid : isIndex index = true) :
    bracketedIndex? ('[' :: index ++ [']']) = some (String.ofList index) := by
  rw [bracketedIndex?, wholeBracket?_append (isIndex_trimmed valid)]
  simp [valid]

/-- An index is never taken for the mark of a register. -/
theorem isPrefixOf?_registerMark (valid : isIndex index = true) (rest : List Char) :
    registerMark.isPrefixOf? ('[' :: index ++ ']' :: rest) = none := by
  rw [Option.eq_none_iff_forall_ne_some]
  intro beyond found
  have same : index ++ ']' :: rest = ['h', 'e', 'r', 'e'] ++ ']' :: beyond := by
    have whole := List.isPrefixOf?_eq_some_iff_append_eq.mp found
    simpa [registerMark] using whole.symm
  rcases append_eq_append_cons same with ⟨_, rfl, _⟩ | ⟨more, whole, later⟩
  · exact not_mem_of_isIndex (c := ']') valid (by decide) (by simp)
  · cases more with
    | nil =>
        rw [List.append_nil] at whole
        rw [← whole] at valid
        cases valid
    | cons d more =>
        obtain ⟨rfl, _⟩ := List.cons.inj later
        have member : ']' ∈ ['h', 'e', 'r', 'e'] := by simp [whole]
        revert member
        decide

end

theorem Target.equals_not_mem {target : Target} {value : Phrase}
    (grouped : (Phrase.assign target value).Grouped)
    (spelled : (Phrase.assign target value).Spelled) : '=' ∉ target.render := by
  have absent {index : String} (valid : isIndex index.toList = true) : '=' ∉ index.toList :=
    not_mem_of_isIndex valid (by decide)
  cases target with
  | entry index | register index | append index =>
      simpa [render, toString] using absent grouped
  | parameter name => simpa [render, toString] using absent spelled

theorem Target.read_written {target : Target} {value : Phrase}
    (grouped : (Phrase.assign target value).Grouped)
    (spelled : (Phrase.assign target value).Spelled) :
    Target.read (target.render ++ [' ']) = .ok target := by
  cases target with
  | entry index =>
      have valid : isIndex index.toList = true := grouped
      rw [render, toList_bracketed, Target.read,
        trim_append_blank (written_bracketed valid).trimmed]
      simp only [isPrefixOf?_registerMark valid, firstBracket?_index valid]
      simp [valid]
  | register index =>
      have valid : isIndex index.toList = true := grouped
      have mark : registerMark.isPrefixOf? (registerMark ++ ('[' :: index.toList ++ [']'])) =
          some ('[' :: index.toList ++ [']']) := List.isPrefixOf?_eq_some_iff_append_eq.mpr rfl
      rw [render, toList_registered, Target.read,
        trim_append_blank (written_registered valid).trimmed]
      simp only [mark, bracketedIndex?_index valid, String.ofList_toList]
  | append index =>
      have valid : isIndex index.toList = true := grouped
      have written : Written 5 (('[' :: index.toList ++ [']']) ++ ['[', ']']) :=
        .append (written_bracketed valid).toLeading (.bracket .nil)
      rw [render_append, Target.read, trim_append_blank written.trimmed, List.append_assoc]
      simp only [List.singleton_append, isPrefixOf?_registerMark valid, firstBracket?_index valid]
      simp [valid]
  | parameter name =>
      have valid : isIndex name.toList = true := spelled
      have trimmed : Trimmed ('$' :: name.toList) := by
        refine ⟨fun c first => by cases first; decide, fun c last => ?_⟩
        obtain ⟨d, rest, whole⟩ := List.exists_cons_of_ne_nil (isIndex_ne_nil valid)
        rw [whole, List.getLast?_cons_cons, ← whole] at last
        exact (isIndex_trimmed valid).finish c last
      rw [render, toList_dollar, Target.read, trim_append_blank trimmed]
      simp [registerMark, List.isPrefixOf?]

/-! ### Calls -/

namespace Shape

/-- What is applied to arguments holds no operator. -/
theorem applied?_eq_none {callee : List Char} (operated : '^' ∈ callee)
    (arguments : List (List Char)) : applied? callee arguments = none := by
  have absent {inside : List Char} (valid : isIndex (trim inside) = true) : '^' ∉ inside :=
    fun member => not_mem_of_isIndex valid (by decide) (mem_trim member (by decide))
  unfold applied?
  split
  · rename_i index rest bracket
    obtain ⟨inside, rfl, rfl⟩ := firstBracket?_eq_some bracket
    split
    · rfl
    · rename_i valid
      have outside : '^' ∉ inside := absent (by simpa using valid)
      have beyond : '^' ∈ rest := by simpa [outside] using operated
      split
      · rename_i empty
        rw [empty] at beyond
        cases beyond
      · rw [Option.map_eq_none_iff]
        unfold bracketedIndex?
        split
        · rename_i index whole
          simp only [wholeBracket?, Option.map_eq_some_iff] at whole
          obtain ⟨inner, enclosed, rfl⟩ := whole
          rw [between?_eq_some enclosed] at beyond
          rw [if_neg]
          intro valid
          exact absent valid (by simpa using beyond)
        · rfl
  · rw [if_neg]
    intro named
    have word := (isIndexChar_of_isName named operated).1
    revert word
    decide

section

variable {front inner : List Char}

theorem closing_inner (inside : Nested inner) (rest : List Char) :
    closingParen? false 0 (inner ++ ')' :: rest) = some (inner, rest) := by
  rw [inside.closingParen?]
  simp [closingParen?]

theorem call?_apply (written : Written 5 front) (inside : Nested inner) :
    call? (front ++ '(' :: (inner ++ [')'])) = applied? front (arguments inner) := by
  have unopened : '(' ∉ outer .outside front := fun member =>
    absurd (written.shown '(' member) (by decide)
  simp only [call?, openingParen?_append written.nested unopened, closing_inner inside,
    trim_eq_self written.trimmed]

theorem call?_apply_append (written : Written 5 front) (inside : Nested inner) (c : Char)
    (rest : List Char) : call? (front ++ '(' :: (inner ++ ')' :: c :: rest)) = none := by
  have unopened : '(' ∉ outer .outside front := fun member =>
    absurd (written.shown '(' member) (by decide)
  simp only [call?, openingParen?_append written.nested unopened, closing_inner inside]

/-- A concatenation is not a call, whatever follows the first operand. -/
theorem call?_concat (written : Written 5 front) (rest : List Char) :
    call? (front ++ ' ' :: '^' :: rest) = none := by
  unfold call?
  split
  · rename_i callee remaining opened
    obtain ⟨whole, outside⟩ := openingParen?_eq_some opened
    have operated : '^' ∈ callee := by
      rcases append_eq_append_cons whole with ⟨more, rfl, _⟩ | ⟨more, rfl, later⟩
      · exact absurd (written.shown '(' (mem_outer outside)) (by decide)
      · rcases more with _ | ⟨d, _ | ⟨e, more⟩⟩
        · cases later
        · cases later
        · cases later
          simp
    split
    · exact applied?_eq_none (mem_trim operated (by decide)) _
    · rfl
  · rfl

end

end Shape

theorem Callee.applied?_render {callee : Callee} (valid : callee.Indexed)
    (arguments : List (List Char)) :
    Shape.applied? callee.render.toList arguments = some (.call callee arguments) := by
  cases callee with
  | entry index =>
      have valid : isIndex index.toList = true := valid
      rw [render, toList_bracketed, Shape.applied?]
      simp only [firstBracket?_index valid]
      simp [valid]
  | method object function =>
      rw [render_method, List.append_assoc, Shape.applied?]
      simp only [List.singleton_append, firstBracket?_index valid.1, bracketedIndex?_index valid.2]
      simp [valid.1]

theorem applied?_name {name : String} (named : isName name.toList = true)
    (arguments : List (List Char)) :
    Shape.applied? name.toList arguments = some (.builtin name arguments) := by
  have unbracketed : firstBracket? name.toList = none := by
    rw [Option.eq_none_iff_forall_ne_some]
    rintro ⟨index, rest⟩ bracket
    obtain ⟨inside, whole, _⟩ := firstBracket?_eq_some bracket
    have word := (isIndexChar_of_isName named (by simp [whole] : '[' ∈ name.toList)).1
    revert word
    decide
  simp [Shape.applied?, unbracketed, named]

end TableScript
