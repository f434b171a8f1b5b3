import TableScript.Proofs.Phrase.Recognition

namespace TableScript

open Text

/-! Canonical texts are read back.  At every node the recognisers that come too
early find nothing, the right one finds the operator of the node and no other of
its kind, and the texts it cuts out are those of the operands. -/

/-! ### The recognisers in their order -/

namespace Phrase

section

variable {phrase : Phrase} {construct : Shape}

theorem unassigned (formed : phrase.WellFormed) (level : 1 ≤ phrase.binding) :
    Shape.assignment? phrase.render = none :=
  Shape.assignment?_eq_none_iff.mpr (not_found_assignment phrase formed level [])

theorem uncomputed (formed : phrase.WellFormed) (level : 2 ≤ phrase.binding) :
    Shape.arithmetic? phrase.render = none :=
  Shape.arithmetic?_eq_none_iff.mpr (not_found_operator formed level [])

theorem uncompared (formed : phrase.WellFormed) (level : 3 ≤ phrase.binding) :
    Shape.comparison? phrase.render = none :=
  Shape.comparison?_eq_none_iff.mpr fun op =>
    surfaceSplit?_eq_none_iff.mpr (not_found_comparison formed level op [])

theorem shape_of_written (formed : phrase.WellFormed) (shaped : Shaped phrase.render construct) :
    shape (trim phrase.render) = .ok construct := by
  have written := written_render phrase formed
  rw [trim_eq_self written.trimmed]
  exact shape_of_shaped written.given shaped

theorem shape_of_call (formed : phrase.WellFormed) (level : 4 ≤ phrase.binding)
    (applied : Shape.call? phrase.render = some construct) :
    shape (trim phrase.render) = .ok construct :=
  shape_of_written formed (.call (unassigned formed (by omega)) (uncomputed formed (by omega))
    (uncompared formed (by omega)) applied)

theorem shape_of_atom (formed : phrase.WellFormed) (firm : phrase.firmness = 5)
    (found : Shape.atom phrase.render = .ok construct) :
    shape (trim phrase.render) = .ok construct := by
  have level : phrase.binding = 4 := by
    cases phrase <;> simp [firmness, binding] at firm ⊢
  have uncalled : Shape.call? phrase.render = none := by
    have unopened : '(' ∉ outer .outside phrase.render := by
      intro member
      have seen := (written_firm phrase formed).shown '(' member
      rw [firm] at seen
      exact absurd seen (by decide)
    rw [Shape.call?, openingParen?_eq_none unopened]
  exact shape_of_written formed (.atom (unassigned formed (by omega))
    (uncomputed formed (by omega)) (uncompared formed (by omega)) uncalled
    (surfaceSplit?_eq_none_iff.mpr (not_found_concat formed (by omega) [])) found)

/-- The text of a key is never taken for a plain index. -/
theorem isIndex_render (formed : phrase.WellFormed) : isIndex phrase.render = false := by
  rw [Bool.eq_false_iff]
  intro valid
  have absent (c : Char) (other : isIndexChar c = false) : c ∉ phrase.render :=
    not_mem_of_isIndex valid other
  cases phrase with
  | ifHeader _ | forHeader _ _ | close => exact formed.self.1.elim
  | assign _ _ | arithmetic _ _ _ | compare _ _ _ | concat _ _ =>
      exact absent ' ' (by decide) (by simp [render, spaced])
  | call _ _ | builtin _ _ => exact absent '(' (by decide) (by simp [render])
  | register _ | entry _ | element _ _ =>
      exact absent '[' (by decide) (by simp [render, toString])
  | parameter _ => exact absent '$' (by decide) (by simp [render, toString])
  | reference _ => exact absent '&' (by decide) (by simp [render, toString])
  | literal _ => exact absent '\'' (by decide) (by simp [render])

end

theorem Reads.of_trim_eq {first second : List Char} {phrase : Phrase}
    (same : trim first = trim second) (reads : Reads first phrase) : Reads second phrase := by
  cases reads with
  | leaf found => exact .leaf (same ▸ found)
  | assign found inner => exact .assign (same ▸ found) inner
  | arithmetic found leftRead rightRead => exact .arithmetic (same ▸ found) leftRead rightRead
  | compare found leftRead rightRead => exact .compare (same ▸ found) leftRead rightRead
  | concat found leftRead rightRead => exact .concat (same ▸ found) leftRead rightRead
  | call found inner => exact .call (same ▸ found) inner
  | builtin found inner => exact .builtin (same ▸ found) inner
  | element found inner => exact .element (same ▸ found) inner

theorem Reads.append_blank {phrase : Phrase} (formed : phrase.WellFormed)
    (reads : Reads phrase.render phrase) : Reads (phrase.render ++ [' ']) phrase := by
  have trimmed := (written_render phrase formed).trimmed
  exact reads.of_trim_eq (by rw [trim_append_blank trimmed, trim_eq_self trimmed])

theorem Reads.cons_blank {text : List Char} {phrase : Phrase} (reads : Reads text phrase) :
    Reads (' ' :: text) phrase :=
  reads.of_trim_eq (trim_cons_blank text).symm

/-! ### Arguments -/

theorem readsAll_pieces {phrases : List Phrase} (formed : ∀ phrase ∈ phrases, phrase.WellFormed)
    (given : phrases ≠ []) (reads : ReadsAll (renderAll phrases) phrases) :
    ReadsAll (surfacePieces ',' .outside (commaSeparated (renderAll phrases))) phrases := by
  have unseparated (phrase : Phrase) (formed : phrase.WellFormed) :
      ',' ∉ outer .outside phrase.render := fun member =>
    Nat.not_lt_zero _ ((written_render phrase formed).shown ',' member)
  have reached (phrase : Phrase) (formed : phrase.WellFormed) :
      Nesting.outside.after phrase.render = .outside :=
    (written_render phrase formed).nested.after 0
  induction phrases with
  | nil => exact absurd rfl given
  | cons phrase others continued =>
      rw [List.forall_mem_cons] at formed
      obtain ⟨phraseFormed, othersFormed⟩ := formed
      cases reads with
      | cons first rest =>
          cases others with
          | nil =>
              have whole := surfacePieces_append (unseparated phrase phraseFormed)
                (rfl : surfacePieces ',' _ [] = [[]])
              simp only [List.append_nil] at whole
              simp only [renderAll, commaSeparated, whole]
              exact .cons first .nil
          | cons next later =>
              have tail := continued othersFormed (by simp) rest
              cases pieces : surfacePieces ',' .outside
                (commaSeparated (renderAll (next :: later))) with
              | nil =>
                  rw [pieces] at tail
                  cases tail
              | cons piece more =>
                  have split : surfacePieces ',' .outside
                      (',' :: ' ' :: commaSeparated (renderAll (next :: later))) =
                        [] :: (' ' :: piece) :: more := by
                    have comma : Nesting.outside.step ',' = .outside := rfl
                    have blank : Nesting.outside.step ' ' = .outside := rfl
                    simp only [surfacePieces, comma, blank, pieces]
                    rfl
                  have whole := surfacePieces_append (unseparated phrase phraseFormed)
                    (by rw [reached phrase phraseFormed]; exact split)
                  rw [pieces] at tail
                  cases tail with
                  | cons second rest =>
                      have written : commaSeparated (renderAll (phrase :: next :: later)) =
                          phrase.render ++
                            ',' :: ' ' :: commaSeparated (renderAll (next :: later)) := by
                        simp [renderAll, commaSeparated]
                      rw [written, whole, List.append_nil]
                      exact .cons first (.cons second.cons_blank rest)

theorem readsAll_arguments {phrases : List Phrase}
    (formed : ∀ phrase ∈ phrases, phrase.WellFormed)
    (reads : ReadsAll (renderAll phrases) phrases) :
    ReadsAll (Shape.arguments (commaSeparated (renderAll phrases))) phrases := by
  cases phrases with
  | nil => exact .nil
  | cons phrase others =>
      obtain ⟨c, rest, start, visible⟩ := (written_render phrase (formed phrase (by simp))).start
      have member : c ∈ phrase.render := by simp [start]
      have shown : ¬ (trim (commaSeparated (renderAll (phrase :: others)))).isEmpty = true :=
        trim_commaSeparated member visible
      rw [Shape.arguments, if_neg shown]
      exact readsAll_pieces formed (by simp) reads

/-! ### The shape of each canonical text -/

theorem shape_render_assign {target : Target} {value : Phrase}
    (formed : (assign target value).WellFormed) :
    shape (trim (assign target value).render) = .ok (.assign target (' ' :: value.render)) := by
  obtain ⟨grouped, spelled⟩ := formed.self
  have missed (ahead : List Char) : ¬ Found Shape.isAssignment target.render ahead := by
    apply not_found_of_outer
    intro c member
    apply isAssignment_of_ne
    rintro rfl
    exact Target.equals_not_mem grouped spelled (mem_of_mem_outer member)
  have cut : surfaceCut? Shape.isAssignment (assign target value).render =
      some (target.render ++ [' '], '=' :: ([] ++ ' ' :: value.render)) :=
    surfaceCut?_spaced (Target.leading_render grouped spelled).nested rfl (missed _) rfl rfl
  have assigned : Shape.assignment? (assign target value).render =
      some (target.render ++ [' '], ' ' :: value.render) := by
    rw [Shape.assignment?, cut]
    rfl
  exact shape_of_written formed (.assign assigned (Target.read_written grouped spelled))

theorem shape_render_arithmetic {op : Arithmetic} {left right : Phrase}
    (formed : (arithmetic op left right).WellFormed) :
    shape (trim (arithmetic op left right).render) =
      .ok (.arithmetic op (left.render ++ [' ']) (' ' :: right.render)) := by
  have leftFormed : left.WellFormed := formed.child (by simp [children])
  have cut : Shape.arithmetic? (arithmetic op left right).render =
      some (op, left.render ++ [' '], ' ' :: right.render) :=
    arithmetic?_spaced (written_render left leftFormed)
      (not_found_operator leftFormed formed.self.1.1)
  exact shape_of_written formed (.arithmetic (unassigned formed (Nat.le_refl 1)) cut)

theorem shape_render_compare {op : Comparison} {left right : Phrase}
    (formed : (compare op left right).WellFormed) :
    shape (trim (compare op left right).render) =
      .ok (.compare op (left.render ++ [' ']) (' ' :: right.render)) := by
  have leftFormed : left.WellFormed := formed.child (by simp [children])
  obtain ⟨leftTight, _, leftLater, rightLater⟩ := formed.self.1
  have missed (ahead : List Char) :
      ¬ Found (fun _ ahead => op.symbol.isPrefixOf ahead) left.render ahead := by
    intro found
    obtain ⟨other, member, earlier⟩ := exists_chain_of_found left leftFormed leftTight found
    exact absurd (leftLater other member) (Nat.not_lt_of_le earlier)
  have earlier (other : Comparison) (before : other.rank < op.rank) :
      ¬ Found (fun _ ahead => other.symbol.isPrefixOf ahead) (compare op left right).render [] := by
    intro found
    obtain ⟨first, member, rank⟩ := exists_chain_of_found _ formed (Nat.le_refl 2) found
    have least : op.rank ≤ first.rank := by
      simp only [chain, List.mem_cons, List.mem_append] at member
      rcases member with rfl | inLeft | inRight
      · exact Nat.le_refl _
      · exact Nat.le_of_lt (leftLater first inLeft)
      · exact rightLater first inRight
    omega
  have cut : Shape.comparison? (compare op left right).render =
      some (op, left.render ++ [' '], ' ' :: right.render) :=
    comparison?_spaced (written_render left leftFormed).nested missed earlier
  exact shape_of_written formed (.compare (unassigned formed (Nat.le_succ 1))
    (uncomputed formed (Nat.le_refl 2)) cut)

/-- A concatenation that starts or ends with a call is not read as a call. -/
theorem call?_render_concat {left right : Phrase} (formed : (concat left right).WellFormed) :
    Shape.call? (concat left right).render = none := by
  have leftFormed : left.WellFormed := formed.child (by simp [children])
  have leftTight : 4 ≤ left.binding := formed.self.1.1
  have leftWritten := written_firm left leftFormed
  have atomic (firm : left.firmness = 5) : Shape.call? (concat left right).render = none := by
    rw [firm] at leftWritten
    rw [render, spaced_eq]
    exact Shape.call?_concat leftWritten _
  cases left with
  | assign _ _ | arithmetic _ _ _ | compare _ _ _ | concat _ _ => simp [binding] at leftTight
  | call callee arguments =>
      have inside := nested_commaSeparated
        (nested_renderAll arguments fun _ => leftFormed.child)
      have called := Shape.call?_apply_append (Callee.written_render leftFormed.self.1) inside ' '
        ('^' :: ' ' :: right.render)
      simpa [render, spaced] using called
  | builtin name arguments =>
      have inside := nested_commaSeparated
        (nested_renderAll arguments fun _ => leftFormed.child)
      have called := Shape.call?_apply_append (written_name leftFormed.self.1) inside ' '
        ('^' :: ' ' :: right.render)
      simpa [render, spaced] using called
  | ifHeader _ | forHeader _ _ | register _ | parameter _ | entry _ | element _ _ | reference _
  | literal _ | close => exact atomic rfl

theorem shape_render_concat {left right : Phrase} (formed : (concat left right).WellFormed) :
    shape (trim (concat left right).render) =
      .ok (.concat (left.render ++ [' ']) (' ' :: right.render)) := by
  have leftFormed : left.WellFormed := formed.child (by simp [children])
  have cut : surfaceSplit? ['^'] (concat left right).render =
      some (left.render ++ [' '], ' ' :: right.render) :=
    surfaceSplit?_spaced (written_render left leftFormed).nested rfl (by decide)
      (not_found_concat leftFormed formed.self.1.1)
  exact shape_of_written formed (.concat (unassigned formed (by simp [binding]))
    (uncomputed formed (by simp [binding])) (uncompared formed (Nat.le_refl 3))
    (call?_render_concat formed) cut)

theorem shape_render_call {callee : Callee} {arguments : List Phrase}
    (formed : (call callee arguments).WellFormed) :
    shape (trim (call callee arguments).render) =
      .ok (.call callee (Shape.arguments (commaSeparated (renderAll arguments)))) := by
  have inside := nested_commaSeparated (nested_renderAll arguments fun _ => formed.child)
  have called := Shape.call?_apply (Callee.written_render formed.self.1) inside
  rw [Callee.applied?_render formed.self.1] at called
  apply shape_of_call formed (Nat.le_refl 4)
  simpa [render] using called

theorem shape_render_builtin {name : String} {arguments : List Phrase}
    (formed : (builtin name arguments).WellFormed) :
    shape (trim (builtin name arguments).render) =
      .ok (.builtin name (Shape.arguments (commaSeparated (renderAll arguments)))) := by
  have inside := nested_commaSeparated (nested_renderAll arguments fun _ => formed.child)
  have called := Shape.call?_apply (written_name formed.self.1) inside
  rw [applied?_name formed.self.1] at called
  apply shape_of_call formed (Nat.le_refl 4)
  simpa [render] using called

theorem shape_render_element {index : String} {key : Phrase}
    (formed : (element index key).WellFormed) :
    shape (trim (element index key).render) = .ok (.element index key.render) := by
  have valid : isIndex index.toList = true := formed.self.1
  have keyFormed : key.WellFormed := formed.child (by simp [children])
  have whole : (element index key).render =
      '[' :: index.toList ++ ']' :: ('[' :: key.render ++ [']']) := by
    simp [render, toString]
  apply shape_of_atom formed rfl
  rw [whole]
  unfold Shape.atom
  simp only [isPrefixOf?_registerMark valid]
  change Shape.entry ('[' :: index.toList ++ ']' :: ('[' :: key.render ++ [']'])) = _
  simp only [Shape.entry, firstBracket?_index valid,
    wholeBracket?_append (written_render key keyFormed).trimmed, isIndex_render keyFormed]
  simp [valid]

theorem shape_render_register {index : String} (formed : (register index).WellFormed) :
    shape (trim (register index).render) = .ok (.leaf (.register index)) := by
  have mark : registerMark.isPrefixOf? (registerMark ++ ('[' :: index.toList ++ [']'])) =
      some ('[' :: index.toList ++ [']']) := List.isPrefixOf?_eq_some_iff_append_eq.mpr rfl
  apply shape_of_atom formed rfl
  rw [render, toList_registered]
  unfold Shape.atom
  simp only [mark, bracketedIndex?_index formed.self.1, String.ofList_toList]

theorem shape_render_parameter {name : String} (formed : (parameter name).WellFormed) :
    shape (trim (parameter name).render) = .ok (.leaf (.parameter name)) := by
  have valid : isIndex name.toList = true := formed.self.1.1
  apply shape_of_atom formed rfl
  rw [render, toList_dollar]
  unfold Shape.atom
  simp [registerMark, List.isPrefixOf?, valid]

theorem shape_render_entry {index : String} (formed : (entry index).WellFormed) :
    shape (trim (entry index).render) = .ok (.leaf (.entry index)) := by
  have valid : isIndex index.toList = true := formed.self.1
  apply shape_of_atom formed rfl
  rw [render, toList_bracketed]
  unfold Shape.atom
  simp only [isPrefixOf?_registerMark valid]
  change Shape.entry ('[' :: index.toList ++ [']']) = _
  simp only [Shape.entry, firstBracket?_index valid]
  simp [valid]

theorem shape_render_reference {index : String} (formed : (reference index).WellFormed) :
    shape (trim (reference index).render) = .ok (.leaf (.reference index)) := by
  have bracketed := bracketedIndex?_index (formed.self.1 : isIndex index.toList = true)
  apply shape_of_atom formed rfl
  rw [render, toList_reference]
  rw [List.cons_append] at bracketed
  unfold Shape.atom
  simp [registerMark, List.isPrefixOf?, bracketed]

theorem shape_render_literal {value : String} (formed : (literal value).WellFormed) :
    shape (trim (literal value).render) = .ok (.leaf (.literal value)) := by
  have quoted : quoted? ('\'' :: value.toList ++ ['\'']) = some value.toList :=
    between?_append '\'' '\'' value.toList
  apply shape_of_atom formed rfl
  change Shape.literal ('\'' :: value.toList ++ ['\'']) = _
  rw [Shape.literal, quoted]
  simp

/-! ### Every phrase -/

mutual

theorem reads_render (phrase : Phrase) (formed : phrase.WellFormed) :
    Reads phrase.render phrase := by
  cases phrase with
  | ifHeader _ | forHeader _ _ | close => exact formed.self.1.elim
  | assign target value =>
      have valueRead := reads_render value (formed.child (by simp [children]))
      exact .assign (shape_render_assign formed) valueRead.cons_blank
  | arithmetic op left right =>
      have leftFormed : left.WellFormed := formed.child (by simp [children])
      have rightRead := reads_render right (formed.child (by simp [children]))
      exact .arithmetic (shape_render_arithmetic formed)
        ((reads_render left leftFormed).append_blank leftFormed) rightRead.cons_blank
  | compare op left right =>
      have leftFormed : left.WellFormed := formed.child (by simp [children])
      have rightRead := reads_render right (formed.child (by simp [children]))
      exact .compare (shape_render_compare formed)
        ((reads_render left leftFormed).append_blank leftFormed) rightRead.cons_blank
  | concat left right =>
      have leftFormed : left.WellFormed := formed.child (by simp [children])
      have rightRead := reads_render right (formed.child (by simp [children]))
      exact .concat (shape_render_concat formed)
        ((reads_render left leftFormed).append_blank leftFormed) rightRead.cons_blank
  | call callee arguments =>
      have argumentsFormed : ∀ phrase ∈ arguments, phrase.WellFormed := fun _ => formed.child
      exact .call (shape_render_call formed)
        (readsAll_arguments argumentsFormed (readsAll_renderAll arguments argumentsFormed))
  | builtin name arguments =>
      have argumentsFormed : ∀ phrase ∈ arguments, phrase.WellFormed := fun _ => formed.child
      exact .builtin (shape_render_builtin formed)
        (readsAll_arguments argumentsFormed (readsAll_renderAll arguments argumentsFormed))
  | element index key =>
      exact .element (shape_render_element formed)
        (reads_render key (formed.child (by simp [children])))
  | register index => exact .leaf (shape_render_register formed)
  | parameter name => exact .leaf (shape_render_parameter formed)
  | entry index => exact .leaf (shape_render_entry formed)
  | reference index => exact .leaf (shape_render_reference formed)
  | literal value => exact .leaf (shape_render_literal formed)

theorem readsAll_renderAll (phrases : List Phrase)
    (formed : ∀ phrase ∈ phrases, phrase.WellFormed) :
    ReadsAll (renderAll phrases) phrases := by
  cases phrases with
  | nil => exact .nil
  | cons phrase others =>
      rw [List.forall_mem_cons] at formed
      exact .cons (reads_render phrase formed.1) (readsAll_renderAll others formed.2)

end

/-! ### Lines -/

section

variable {word : List Char}

theorem afterKeyword?_eq_none {text : List Char}
    (joined : ∀ c rest, text = word ++ c :: rest → isBlank c = false ∧ c ≠ '(') :
    afterKeyword? word text = none := by
  unfold afterKeyword?
  split
  · rename_i c rest found
    have whole := (List.isPrefixOf?_eq_some_iff_append_eq.mp found).symm
    obtain ⟨visible, different⟩ := joined c rest whole
    simp [visible, different]
  · rfl

theorem afterKeyword?_name {name : List Char} (letters : ∀ c ∈ word, isIndexChar c = true)
    (named : isName name = true) (different : name ≠ word) (rest : List Char) :
    afterKeyword? word (name ++ '(' :: rest) = none := by
  apply afterKeyword?_eq_none
  intro c after whole
  rcases append_eq_append_cons whole with ⟨more, rfl, _⟩ | ⟨more, rfl, later⟩
  · have valid := (isIndexChar_of_isName named (by simp : c ∈ word ++ c :: more)).1
    refine ⟨isBlank_of_isIndexChar valid, ?_⟩
    rintro rfl
    revert valid
    decide
  · cases more with
    | nil => exact absurd (List.append_nil name).symm different
    | cons d more =>
        obtain ⟨rfl, _⟩ := List.cons.inj later
        exact absurd (letters '(' (by simp)) (by decide)

/-- The first word of a canonical text is no keyword, unless a built-in function
has its name. -/
theorem afterKeyword?_render (keyword : word = ['i', 'f'] ∨ word = ['f', 'o', 'r'])
    (phrase : Phrase) (formed : phrase.WellFormed) (rest : List Char) :
    afterKeyword? word (phrase.render ++ rest) = none := by
  have sign (c : Char) (text : List Char) (other : c ≠ 'i' ∧ c ≠ 'f') :
      afterKeyword? word (c :: text) = none := by
    rcases keyword with rfl | rfl <;>
      simp [afterKeyword?, List.isPrefixOf?, Ne.symm other.1, Ne.symm other.2]
  have bracket (text : List Char) := sign '[' text (by decide)
  have dollar (text : List Char) := sign '$' text (by decide)
  cases phrase with
  | ifHeader _ | forHeader _ _ | close => exact formed.self.1.elim
  | assign target value =>
      cases target <;> simp [render, Target.render, spaced, toString, bracket, dollar]
  | arithmetic op left right | compare op left right | concat left right =>
      have leftFormed : left.WellFormed := formed.child (by simp [children])
      rw [render, spaced_eq, List.append_assoc]
      exact afterKeyword?_render keyword left leftFormed _
  | call callee arguments => cases callee <;> simp [render, Callee.render, toString, bracket]
  | builtin name arguments =>
      obtain ⟨named, noIf, noFor⟩ := formed.self
      have letters : ∀ c ∈ word, isIndexChar c = true :=
        List.all_eq_true.mp (by rcases keyword with rfl | rfl <;> decide)
      have different : name.toList ≠ word := by
        rintro rfl
        rcases keyword with same | same
        · exact noIf (String.toList_injective same)
        · exact noFor (String.toList_injective same)
      have joined := afterKeyword?_name letters named different
        (commaSeparated (renderAll arguments) ++ ')' :: rest)
      simpa [render] using joined
  | register _ | entry _ | element _ _ => simp [render, toString, bracket]
  | parameter _ => simp [render, toString, dollar]
  | reference _ => simpa [render, toString] using sign '&' _ (by decide)
  | literal _ => simpa [render] using sign '\'' _ (by decide)

end

/-- Every well-formed phrase is read back from its canonical text, as an
expression and as a line. -/
theorem read_render (phrase : Phrase) (formed : phrase.WellFormed) :
    read phrase.render = .ok phrase ∧ readLine phrase.render = .ok phrase := by
  have accepted : read phrase.render = .ok phrase := (reads_render phrase formed).read_eq_ok
  have written := written_render phrase formed
  have noIf := afterKeyword?_render (.inl rfl) phrase formed []
  have noFor := afterKeyword?_render (.inr rfl) phrase formed []
  rw [List.append_nil] at noIf noFor
  have given : ¬ phrase.render.isEmpty = true := by simpa using written.given
  refine ⟨accepted, ?_⟩
  simp only [readLine, trim_eq_self written.trimmed, noIf, noFor, if_neg given, accepted]

/-- An assignment with an operator of every level, calls in each other's
arguments, and operators and brackets in quotes. -/
def sampleAssignment : Phrase :=
  .assign (.append "log")
    (.arithmetic .subtract
      (.compare .less (.parameter "n")
        (.concat
          (.call (.method "store" "get")
            [.literal "a, (b = c", .element "k" (.builtin "size" [.reference "k"])])
          (.register "x-1")))
      (.literal "1"))

theorem read_render_assignment :
    sampleAssignment.render =
        "[log][] = $n < [store][get]('a, (b = c', [k][size(&[k])]) ^ [here][x-1] - '1'".toList ∧
      sampleAssignment.WellFormed ∧
      read sampleAssignment.render = .ok sampleAssignment ∧
      readLine sampleAssignment.render = .ok sampleAssignment := by
  have formed : sampleAssignment.WellFormed := by decide
  exact ⟨by decide, formed, read_render sampleAssignment formed⟩

end Phrase

end TableScript
