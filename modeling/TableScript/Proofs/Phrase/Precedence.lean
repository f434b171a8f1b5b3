import TableScript.Proofs.Index
import TableScript.Proofs.Phrase.Grammar
import TableScript.Proofs.Text.Surface

namespace TableScript

open Text

/-! Precedence.  An assignment binds loosest, then arithmetic, the comparisons in
their search order, and concatenation; everything else is closed in brackets,
quotes or parentheses, or is a single word.  The reader looks for the loosest
operator first and reads the texts around it anew, so what is shown here is that
cutting a text brings no looser operator to light in its parts. -/

namespace Comparison

/-- The place of a comparison in the search order. -/
def rank (op : Comparison) : Nat :=
  searchOrder.idxOf op

theorem rank_injective {first second : Comparison} (same : first.rank = second.rank) :
    first = second := by
  revert same
  cases first <;> cases second <;> decide

end Comparison

/-- Whatever is assigned to has an index; a parameter is refused later. -/
def Target.Indexed : Target → Prop
  | .entry index | .register index | .append index => isIndex index.toList = true
  | .parameter _ => True

def Callee.Indexed : Callee → Prop
  | .entry index => isIndex index.toList = true
  | .method object function => isIndex object.toList = true ∧ isIndex function.toList = true

instance : DecidablePred Target.Indexed
  | .entry _ | .register _ | .append _ => inferInstanceAs (Decidable (_ = true))
  | .parameter _ => inferInstanceAs (Decidable True)

instance : DecidablePred Callee.Indexed
  | .entry _ => inferInstanceAs (Decidable (_ = true))
  | .method _ _ => inferInstanceAs (Decidable (_ = true ∧ _ = true))

namespace Phrase

mutual

/-- All nodes of a phrase, itself included. -/
def nodes : Phrase → List Phrase
  | ifHeader condition => ifHeader condition :: nodes condition
  | forHeader condition increment =>
      forHeader condition increment :: (nodes condition ++ nodes increment)
  | assign target value => assign target value :: nodes value
  | arithmetic op left right => arithmetic op left right :: (nodes left ++ nodes right)
  | compare op left right => compare op left right :: (nodes left ++ nodes right)
  | call callee arguments => call callee arguments :: nodesAll arguments
  | builtin name arguments => builtin name arguments :: nodesAll arguments
  | concat left right => concat left right :: (nodes left ++ nodes right)
  | element index key => element index key :: nodes key
  | register index => [register index]
  | parameter name => [parameter name]
  | entry index => [entry index]
  | reference index => [reference index]
  | literal value => [literal value]
  | close => [close]

def nodesAll : List Phrase → List Phrase
  | [] => []
  | phrase :: others => nodes phrase ++ nodesAll others

end

/-- How tightly the outermost operator binds: an assignment not at all, then
arithmetic, a comparison and a concatenation; 4 stands for no operator. -/
def binding : Phrase → Nat
  | assign _ _ => 0
  | arithmetic _ _ _ => 1
  | compare _ _ _ => 2
  | concat _ _ => 3
  | _ => 4

/-- The comparisons reached from a phrase through comparisons only. -/
def chain : Phrase → List Comparison
  | compare op left right => op :: (chain left ++ chain right)
  | _ => []

/-- What a node promises: operands that bind tightly enough for its operator,
and valid indices and names. -/
def Grouped : Phrase → Prop
  | ifHeader _ | forHeader _ _ | close => False
  | assign target _ => target.Indexed
  | arithmetic _ left right => 2 ≤ left.binding ∧ 1 ≤ right.binding
  | compare op left right =>
      2 ≤ left.binding ∧ 2 ≤ right.binding ∧
        (∀ other ∈ left.chain, op.rank < other.rank) ∧
        ∀ other ∈ right.chain, op.rank ≤ other.rank
  | concat left right => 4 ≤ left.binding ∧ 3 ≤ right.binding
  | call callee _ => callee.Indexed
  | builtin name _ => isName name.toList = true
  | register index | entry index | reference index | element index _ =>
      isIndex index.toList = true
  | parameter name => isIndex name.toList = true ∧ '-' ∉ name.toList
  | literal _ => True

instance : DecidablePred Grouped
  | ifHeader _ | forHeader _ _ | close => inferInstanceAs (Decidable False)
  | assign target _ => inferInstanceAs (Decidable target.Indexed)
  | arithmetic _ left right => inferInstanceAs (Decidable (2 ≤ left.binding ∧ 1 ≤ right.binding))
  | compare op left right =>
      inferInstanceAs (Decidable (2 ≤ left.binding ∧ 2 ≤ right.binding ∧
        (∀ other ∈ left.chain, op.rank < other.rank) ∧
        ∀ other ∈ right.chain, op.rank ≤ other.rank))
  | concat left right => inferInstanceAs (Decidable (4 ≤ left.binding ∧ 3 ≤ right.binding))
  | call callee _ => inferInstanceAs (Decidable callee.Indexed)
  | builtin _ _ | register _ | entry _ | reference _ | element _ _ =>
      inferInstanceAs (Decidable (_ = true))
  | parameter name => inferInstanceAs (Decidable (_ = true ∧ '-' ∉ name.toList))
  | literal _ => inferInstanceAs (Decidable True)

end Phrase

/-! ### What the recognisers find -/

theorem not_mem_operatorChars {c : Char} (valid : isIndexChar c = true) (different : c ≠ '-') :
    c ∉ Shape.operatorChars := by
  intro member
  simp only [Shape.operatorChars, List.mem_cons, List.not_mem_nil, or_false] at member
  rcases member with rfl | rfl | rfl | rfl | rfl | rfl | rfl | rfl <;>
    first | exact different rfl | revert valid; decide

theorem isIndex_of_bracketedIndex? {text : List Char} {index : String}
    (found : bracketedIndex? text = some index) : isIndex index.toList = true := by
  unfold bracketedIndex? at found
  split at found
  · rename_i inside _
    split at found
    · rename_i valid
      cases found
      rw [String.toList_ofList]
      exact valid
    · cases found
  · cases found

theorem Target.indexed_of_read {text : List Char} {target : Target}
    (found : Target.read text = .ok target) : target.Indexed := by
  simp only [Target.read] at found
  split at found
  · split at found
    · rename_i index bracketed
      cases found
      exact isIndex_of_bracketedIndex? bracketed
    · cases found
  · split at found
    · cases found
      trivial
    · split at found
      · rename_i index rest _
        split at found
        · cases found
        · rename_i valid
          have valid : isIndex index = true := by simpa using valid
          split at found
          · cases found
            simpa [Target.Indexed] using valid
          · split at found
            · cases found
              simpa [Target.Indexed] using valid
            · cases found
      · cases found

theorem Target.ne_nil_of_read {text : List Char} {target : Target}
    (found : Target.read text = .ok target) : text ≠ [] := by
  rintro rfl
  cases found

namespace Shape

/-- The forms of a call. -/
inductive Applied : Shape → Prop where
  | call {callee : Callee} {arguments : List (List Char)} (valid : callee.Indexed) :
      Applied (.call callee arguments)
  | builtin {name : String} {arguments : List (List Char)} (valid : isName name.toList = true) :
      Applied (.builtin name arguments)

theorem applied_of_applied? {callee : List Char} {arguments : List (List Char)} {shape : Shape}
    (found : applied? callee arguments = some shape) : Applied shape := by
  unfold applied? at found
  split at found
  · rename_i index rest _
    split at found
    · cases found
    · rename_i valid
      have valid : isIndex index = true := by simpa using valid
      split at found
      · cases found
        exact .call (by simpa [Callee.Indexed] using valid)
      · simp only [Option.map_eq_some_iff] at found
        obtain ⟨function, bracketed, rfl⟩ := found
        exact .call ⟨by simpa using valid, isIndex_of_bracketedIndex? bracketed⟩
  · split at found
    · rename_i named
      cases found
      exact .builtin (by simpa using named)
    · cases found

theorem applied_of_call? {text : List Char} {shape : Shape} (found : call? text = some shape) :
    Applied shape := by
  unfold call? at found
  split at found
  · split at found
    · exact applied_of_applied? found
    · cases found
  · cases found

/-- The forms without an operator and without arguments. -/
inductive Atomic (text : List Char) : Shape → Prop where
  | register {index : String} (valid : isIndex index.toList = true) :
      Atomic text (.leaf (.register index))
  | parameter {name : List Char} (written : text = '$' :: name) (valid : isIndex name = true) :
      Atomic text (.leaf (.parameter (String.ofList name)))
  | entry {index : String} (valid : isIndex index.toList = true) :
      Atomic text (.leaf (.entry index))
  | item {index key : String} (valid : isIndex index.toList = true) :
      Atomic text (.leaf (.element index (.literal key)))
  | element {index : String} {key : List Char} (valid : isIndex index.toList = true) :
      Atomic text (.element index key)
  | reference {index : String} (valid : isIndex index.toList = true) :
      Atomic text (.leaf (.reference index))
  | literal {value : String} : Atomic text (.leaf (.literal value))

theorem atomic_of_entry {text : List Char} {shape : Shape} (found : entry text = .ok shape) :
    Atomic text shape := by
  unfold entry at found
  split at found
  · rename_i index rest _
    split at found
    · cases found
    · rename_i valid
      have valid : isIndex (String.ofList index).toList = true := by simpa using valid
      split at found
      · cases found
        exact .entry valid
      · split at found
        · split at found
          · cases found
            exact .item valid
          · cases found
            exact .element valid
        · cases found
  · cases found

theorem atomic_of_atom {text : List Char} {shape : Shape} (found : atom text = .ok shape) :
    Atomic text shape := by
  unfold atom at found
  split at found
  · split at found
    · rename_i index bracketed
      cases found
      exact .register (isIndex_of_bracketedIndex? bracketed)
    · cases found
  · split at found
    · rename_i name _
      split at found
      · rename_i valid
        cases found
        exact .parameter rfl valid
      · cases found
    · exact atomic_of_entry found
    · split at found
      · rename_i index bracketed
        cases found
        exact .reference (isIndex_of_bracketedIndex? bracketed)
      · cases found
    · unfold literal at found
      split at found
      · cases found
        exact .literal
      · split at found
        · cases found
          exact .literal
        · cases found

end Shape

/-! ### The recogniser behind each shape -/

section

variable {text left right value : List Char}

theorem shape_assign {target : Target} (found : shape text = .ok (.assign target value)) :
    ∃ goal, Shape.assignment? text = some (goal, value) ∧ Target.read goal = .ok target := by
  cases (shaped_of_shape found).2 with
  | assign cut goal => exact ⟨_, cut, goal⟩
  | call _ _ _ applied => cases Shape.applied_of_call? applied
  | atom _ _ _ _ _ found => cases Shape.atomic_of_atom found

theorem shape_arithmetic {op : Arithmetic} (found : shape text = .ok (.arithmetic op left right)) :
    Shape.assignment? text = none ∧ Shape.arithmetic? text = some (op, left, right) := by
  cases (shaped_of_shape found).2 with
  | arithmetic unassigned cut => exact ⟨unassigned, cut⟩
  | call _ _ _ applied => cases Shape.applied_of_call? applied
  | atom _ _ _ _ _ found => cases Shape.atomic_of_atom found

theorem shape_compare {op : Comparison} (found : shape text = .ok (.compare op left right)) :
    Shape.assignment? text = none ∧ Shape.arithmetic? text = none ∧
      Shape.comparison? text = some (op, left, right) := by
  cases (shaped_of_shape found).2 with
  | compare unassigned uncomputed cut => exact ⟨unassigned, uncomputed, cut⟩
  | call _ _ _ applied => cases Shape.applied_of_call? applied
  | atom _ _ _ _ _ found => cases Shape.atomic_of_atom found

theorem shape_concat (found : shape text = .ok (.concat left right)) :
    Shape.assignment? text = none ∧ Shape.arithmetic? text = none ∧
      Shape.comparison? text = none ∧ surfaceSplit? ['^'] text = some (left, right) := by
  cases (shaped_of_shape found).2 with
  | concat unassigned uncomputed uncompared _ cut =>
      exact ⟨unassigned, uncomputed, uncompared, cut⟩
  | call _ _ _ applied => cases Shape.applied_of_call? applied
  | atom _ _ _ _ _ found => cases Shape.atomic_of_atom found

theorem shape_call {callee : Callee} {arguments : List (List Char)}
    (found : shape text = .ok (.call callee arguments)) : callee.Indexed := by
  cases (shaped_of_shape found).2 with
  | call _ _ _ applied => cases Shape.applied_of_call? applied; assumption
  | atom _ _ _ _ _ found => cases Shape.atomic_of_atom found

theorem shape_builtin {name : String} {arguments : List (List Char)}
    (found : shape text = .ok (.builtin name arguments)) : isName name.toList = true := by
  cases (shaped_of_shape found).2 with
  | call _ _ _ applied => cases Shape.applied_of_call? applied; assumption
  | atom _ _ _ _ _ found => cases Shape.atomic_of_atom found

theorem shape_element {index : String} (found : shape text = .ok (.element index value)) :
    isIndex index.toList = true := by
  cases (shaped_of_shape found).2 with
  | call _ _ _ applied => cases Shape.applied_of_call? applied
  | atom _ _ _ _ _ found => cases Shape.atomic_of_atom found; assumption

/-- A leaf comes from the last recogniser. -/
theorem shape_leaf {phrase : Phrase} (found : shape text = .ok (.leaf phrase)) :
    Shape.arithmetic? text = none ∧ Shape.Atomic text (.leaf phrase) := by
  cases (shaped_of_shape found).2 with
  | call _ _ _ applied => cases Shape.applied_of_call? applied
  | atom _ uncomputed _ _ _ found => exact ⟨uncomputed, Shape.atomic_of_atom found⟩

end

/-! ### Cutting at operators -/

namespace Shape

theorem stable_isOperator : Stable isOperator := by
  intro read c after more back accepted
  simp only [isOperator, Bool.and_eq_true, Option.any_eq_true] at accepted ⊢
  obtain ⟨operator, last, closest, operand⟩ := accepted
  refine ⟨operator, last, ?_, operand⟩
  obtain ⟨front, blank, whole⟩ := exists_trimStart read
  obtain ⟨rest, visible⟩ := List.head?_eq_some_iff.mp closest
  have shown : isBlank last = false := start_trimStart read last closest
  rw [whole, visible, List.append_assoc, trimStart_append blank]
  simp [trimStart, shown]

/-- A lone `=` with text on both sides stays one in a longer text. -/
theorem isAssignment_extend {read after : List Char} {c : Char}
    (accepted : isAssignment read (c :: after) = true) (precededBy : read ≠ [])
    (followedBy : after ≠ []) (more back : List Char) :
    isAssignment (read ++ more) (c :: (after ++ back)) = true := by
  obtain ⟨d, read, rfl⟩ := List.exists_cons_of_ne_nil precededBy
  obtain ⟨e, after, rfl⟩ := List.exists_cons_of_ne_nil followedBy
  unfold isAssignment at accepted ⊢
  split at accepted
  · rename_i same
    cases same
    simpa using accepted
  · cases accepted

theorem assignment?_eq_none_iff {text : List Char} :
    assignment? text = none ↔ ¬ Found isAssignment text [] := by
  simp only [assignment?, Option.map_eq_none_iff, surfaceCut?_eq_none_iff]

theorem hit_of_assignment? {text target value : List Char}
    (cut : assignment? text = some (target, value)) :
    text = target ++ '=' :: value ∧ Hit isAssignment target '=' value := by
  simp only [assignment?, Option.map_eq_some_iff, Prod.mk.injEq] at cut
  obtain ⟨⟨before, ahead⟩, found, rfl, rfl⟩ := cut
  obtain ⟨c, after, rfl, rfl, hit, _⟩ := surfaceCut?_eq_some found
  have lone : c = '=' := by
    have accepted := hit.accepted
    unfold isAssignment at accepted
    split at accepted
    · rename_i same
      exact (List.cons.inj same).1
    · cases accepted
  subst lone
  exact ⟨rfl, hit⟩

theorem isDelimiter_symbol (op : Arithmetic) : isDelimiter op.symbol = false := by
  cases op <;> rfl

theorem arithmetic?_eq_some {text left right : List Char} {op : Arithmetic}
    (cut : arithmetic? text = some (op, left, right)) :
    Parted text left [op.symbol] right ∧ ¬ Found isOperator left (op.symbol :: right) := by
  unfold arithmetic? at cut
  split at cut
  · rename_i before c after found
    simp only [Option.map_eq_some_iff, Prod.mk.injEq] at cut
    obtain ⟨_, symbol, rfl, rfl, rfl⟩ := cut
    obtain rfl := Arithmetic.ofSymbol?_eq_some_iff.mp symbol
    obtain ⟨d, rest, same, whole, hit, first⟩ := surfaceCut?_eq_some found
    obtain ⟨rfl, rfl⟩ := List.cons.inj same
    refine ⟨⟨by simpa using whole, hit.outside, ?_⟩, first⟩
    simpa using isDelimiter_symbol _
  · cases cut

theorem arithmetic?_eq_none_iff {text : List Char} :
    arithmetic? text = none ↔ ¬ Found isOperator text [] := by
  rw [← surfaceCut?_eq_none_iff]
  unfold arithmetic?
  split
  · rename_i before c after found
    obtain ⟨d, rest, same, _, hit, _⟩ := surfaceCut?_eq_some found
    obtain ⟨rfl, rfl⟩ := List.cons.inj same
    have accepted := hit.accepted
    simp only [isOperator, Bool.and_eq_true, Option.isSome_iff_exists] at accepted
    obtain ⟨⟨op, symbol⟩, _⟩ := accepted
    simp [found, symbol]
  · rename_i other
    cases found : surfaceCut? isOperator text with
    | none => simp
    | some parts =>
        obtain ⟨before, ahead⟩ := parts
        obtain ⟨c, after, rfl, _⟩ := surfaceCut?_eq_some found
        exact absurd found (other before c after)

theorem isDelimiter_comparison (op : Comparison) : ∀ c ∈ op.symbol, isDelimiter c = false := by
  cases op <;> simp [Comparison.symbol, isDelimiter]

/-- The comparison that is found comes first in the search order. -/
theorem comparison?_eq_some {text left right : List Char} {op : Comparison}
    (cut : comparison? text = some (op, left, right)) :
    surfaceSplit? op.symbol text = some (left, right) ∧
      ∀ other : Comparison, other.rank < op.rank → surfaceSplit? other.symbol text = none := by
  obtain ⟨earlier, tried, later, order, mapped, missed⟩ := List.findSome?_eq_some_iff.mp cut
  simp only [Option.map_eq_some_iff, Prod.mk.injEq] at mapped
  obtain ⟨parts, found, rfl, rfl, rfl⟩ := mapped
  refine ⟨found, ?_⟩
  intro other before
  have place : tried.rank ≤ earlier.length := by
    rw [Comparison.rank, order, List.idxOf_append]
    split
    · exact List.idxOf_le_length
    · simp
  have member : other ∈ earlier := by
    by_contra absent
    rw [Comparison.rank, order, List.idxOf_append, if_neg absent] at before
    omega
  have nothing := missed other member
  simpa only [Option.map_eq_none_iff] using nothing

theorem comparison?_eq_none_iff {text : List Char} :
    comparison? text = none ↔ ∀ op : Comparison, surfaceSplit? op.symbol text = none := by
  simp only [comparison?, List.findSome?_eq_none_iff, Option.map_eq_none_iff]
  constructor
  · intro missed op
    exact missed op (by cases op <;> decide)
  · intro missed op _
    exact missed op

/-- How tightly the operator of a shape binds. -/
def binding : Shape → Nat
  | assign _ _ => 0
  | arithmetic _ _ _ => 1
  | compare _ _ _ => 2
  | concat _ _ => 3
  | _ => 4

theorem Applied.binding_eq {shape : Shape} (applied : Applied shape) : shape.binding = 4 := by
  cases applied <;> rfl

theorem Atomic.binding_eq {text : List Char} {shape : Shape} (atomic : Atomic text shape) :
    shape.binding = 4 := by
  cases atomic <;> rfl

end Shape

/-- The operator of a shape is one that was found. -/
theorem Shaped.operator {text : List Char} {construct : Shape} (shaped : Shaped text construct) :
    (construct.binding = 1 → Shape.arithmetic? text ≠ none) ∧
      (construct.binding = 2 → Shape.comparison? text ≠ none) ∧
      (construct.binding = 3 → surfaceSplit? ['^'] text ≠ none) := by
  cases shaped with
  | assign cut _ => simp [Shape.binding]
  | arithmetic _ cut => simp [Shape.binding, cut]
  | compare _ _ cut => simp [Shape.binding, cut]
  | concat _ _ _ _ cut => simp [Shape.binding, cut]
  | call _ _ _ applied => simp [(Shape.applied_of_call? applied).binding_eq]
  | atom _ _ _ _ _ found => simp [(Shape.atomic_of_atom found).binding_eq]

/-- The text of an operand lies in a text where the walk has nothing open. -/
def Operand (text operand : List Char) : Prop :=
  ∃ front back, Nesting.outside.after front = .outside ∧ text = front ++ trim operand ++ back

theorem Text.Parted.operand_left {text left separator right : List Char}
    (parted : Parted text left separator right) : Operand text left := by
  obtain ⟨front, back, blank, _, whole⟩ := exists_trim left
  refine ⟨front, back ++ separator ++ right, blank.after _, ?_⟩
  calc text = left ++ separator ++ right := parted.whole
    _ = (front ++ trim left ++ back) ++ separator ++ right :=
        congrArg (· ++ separator ++ right) whole
    _ = front ++ trim left ++ (back ++ separator ++ right) := by simp only [List.append_assoc]

theorem Text.Parted.operand_right {text left separator right : List Char}
    (parted : Parted text left separator right) : Operand text right := by
  obtain ⟨front, back, blank, _, split⟩ := parted.exists_right
  exact ⟨left ++ separator ++ front, back, parted.outside_right blank, split⟩

namespace Operand

variable {text operand : List Char}

theorem found {accept : List Char → List Char → Bool} (inner : Operand text operand)
    (stable : Stable accept) (found : Found accept (trim operand) []) : Found accept text [] := by
  obtain ⟨front, back, outside, rfl⟩ := inner
  apply found.extend outside
  intro before c after _ accepted
  rw [List.append_nil] at accepted
  rw [List.append_nil]
  exact stable _ _ _ _ _ accepted

theorem uncomputed (inner : Operand text operand) (missed : Shape.arithmetic? text = none) :
    Shape.arithmetic? (trim operand) = none := by
  rw [Shape.arithmetic?_eq_none_iff] at missed ⊢
  exact fun found => missed (inner.found Shape.stable_isOperator found)

theorem unmatched (inner : Operand text operand) {pattern : List Char}
    (missed : surfaceSplit? pattern text = none) :
    surfaceSplit? pattern (trim operand) = none := by
  rw [surfaceSplit?_eq_none_iff] at missed ⊢
  exact fun found => missed (inner.found (stable_pattern pattern) found)

theorem uncompared (inner : Operand text operand) (missed : Shape.comparison? text = none) :
    Shape.comparison? (trim operand) = none := by
  rw [Shape.comparison?_eq_none_iff] at missed ⊢
  exact fun op => inner.unmatched (missed op)

end Operand

namespace Phrase

theorem Reads.shaped {text : List Char} {phrase : Phrase} (reads : Reads text phrase) :
    ∃ construct, Shaped (trim text) construct ∧ construct.binding = phrase.binding := by
  cases reads with
  | leaf found =>
      refine ⟨_, (shaped_of_shape found).2, ?_⟩
      cases (shape_leaf found).2 <;> rfl
  | assign found _ | arithmetic found _ _ | compare found _ _ | concat found _ _ | call found _
  | builtin found _ | element found _ => exact ⟨_, (shaped_of_shape found).2, rfl⟩

theorem Reads.trim_ne_nil {text : List Char} {phrase : Phrase} (reads : Reads text phrase) :
    trim text ≠ [] := by
  cases reads with
  | leaf found | assign found _ | arithmetic found _ _ | compare found _ _ | concat found _ _
  | call found _ | builtin found _ | element found _ => exact (shaped_of_shape found).1

section

variable {text operand : List Char} {phrase : Phrase}

theorem Reads.binding_ne_one (reads : Reads text phrase)
    (missed : Shape.arithmetic? (trim text) = none) : phrase.binding ≠ 1 := by
  obtain ⟨construct, shaped, same⟩ := reads.shaped
  rw [← same]
  exact fun level => shaped.operator.1 level missed

theorem Reads.binding_ne_two (reads : Reads text phrase)
    (missed : Shape.comparison? (trim text) = none) : phrase.binding ≠ 2 := by
  obtain ⟨construct, shaped, same⟩ := reads.shaped
  rw [← same]
  exact fun level => shaped.operator.2.1 level missed

theorem Reads.binding_ne_three (reads : Reads text phrase)
    (missed : surfaceSplit? ['^'] (trim text) = none) : phrase.binding ≠ 3 := by
  obtain ⟨construct, shaped, same⟩ := reads.shaped
  rw [← same]
  exact fun level => shaped.operator.2.2 level missed

/-- An operand is an assignment only if the whole text is one.  A lone `=` that
the cut brought to light, as in `a <== b`, has no text on one of its sides and is
refused; one with text on both sides was alone before. -/
theorem Reads.binding_ne_zero (reads : Reads operand phrase) (inner : Operand text operand)
    (missed : Shape.assignment? text = none) : phrase.binding ≠ 0 := by
  cases reads with
  | leaf found => cases (shape_leaf found).2 <;> simp [binding]
  | arithmetic _ _ _ | compare _ _ _ | concat _ _ _ | call _ _ | builtin _ _ | element _ _ =>
      simp [binding]
  | @assign _ value _ _ found valueRead =>
      intro _
      obtain ⟨front, back, outside, rfl⟩ := inner
      apply Shape.assignment?_eq_none_iff.mp missed
      obtain ⟨goal, cut, goalRead⟩ := shape_assign found
      have goalGiven := Target.ne_nil_of_read goalRead
      have valueGiven : value ≠ [] := by
        rintro rfl
        exact valueRead.trim_ne_nil rfl
      obtain ⟨whole, hit⟩ := Shape.hit_of_assignment? cut
      refine ⟨front ++ goal, '=', value ++ back, ?_, ?_, hit.plain, ?_⟩
      · rw [whole]
        simp
      · rw [Nesting.after_append, outside, hit.outside]
      · rw [List.reverse_append, List.append_nil]
        exact Shape.isAssignment_extend hit.accepted (by simpa using goalGiven) valueGiven _ _

end

/-- Every comparison of a chain stands on the surface of the text. -/
theorem Reads.found_chain {text : List Char} {phrase : Phrase} (reads : Reads text phrase) :
    ∀ op ∈ phrase.chain, Found (fun _ ahead => op.symbol.isPrefixOf ahead) (trim text) [] := by
  cases reads with
  | leaf found => cases (shape_leaf found).2 <;> simp [chain]
  | assign _ _ | arithmetic _ _ _ | concat _ _ _ | call _ _ | builtin _ _ | element _ _ =>
      simp [chain]
  | @compare _ first second op left right found leftRead rightRead =>
      obtain ⟨split, _⟩ := Shape.comparison?_eq_some (shape_compare found).2.2
      obtain ⟨parted, _⟩ := surfaceSplit?_eq_some (Shape.isDelimiter_comparison op) split
      intro other member
      simp only [chain, List.mem_cons, List.mem_append] at member
      rcases member with rfl | inLeft | inRight
      · by_contra missed
        rw [← surfaceSplit?_eq_none_iff, split] at missed
        cases missed
      · exact parted.operand_left.found (stable_pattern _) (leftRead.found_chain other inLeft)
      · exact parted.operand_right.found (stable_pattern _) (rightRead.found_chain other inRight)

/-! ### Every node of an accepted text -/

/-- A parameter that is read has no `-` in its name: the first one would have
been found as an operator, with the dollar sign or an index before it. -/
theorem dash_not_mem {name : List Char} (valid : isIndex name = true)
    (missed : Shape.arithmetic? ('$' :: name) = none) : '-' ∉ name := by
  intro member
  apply Shape.arithmetic?_eq_none_iff.mp missed
  obtain ⟨before, after, rfl, fresh⟩ := List.eq_append_cons_of_mem member
  have indexed : ∀ c ∈ before, isIndexChar c = true := fun c inside =>
    isIndexChar_of_mem valid (by simp [inside])
  refine ⟨'$' :: before, '-', after, rfl, ?_, rfl, ?_⟩
  · apply Nesting.after_of_plain
    intro c inside
    rcases List.mem_cons.mp inside with rfl | inside
    · rfl
    · exact isDelimiter_of_isIndexChar (indexed c inside)
  · rcases List.eq_nil_or_concat before with rfl | ⟨start, last, rfl⟩
    · rfl
    · have valid : isIndexChar last = true := indexed last (by simp)
      have visible := isBlank_of_isIndexChar valid
      have different : last ≠ '-' := by
        rintro rfl
        exact fresh (by simp)
      have operand := not_mem_operatorChars valid different
      simpa [Shape.isOperator, trimStart, visible, Arithmetic.ofSymbol?] using operand

theorem grouped_of_atomic {text : List Char} {phrase : Phrase}
    (missed : Shape.arithmetic? text = none) (atomic : Shape.Atomic text (.leaf phrase)) :
    ∀ node ∈ phrase.nodes, node.Grouped := by
  cases atomic with
  | register valid | entry valid | reference valid | item valid =>
      simpa [nodes, Grouped] using valid
  | literal => simp [nodes, Grouped]
  | parameter written valid =>
      subst written
      simpa [nodes, Grouped] using ⟨valid, dash_not_mem valid missed⟩

section

variable {text first second : List Char} {left right : Phrase}

theorem grouped_arithmetic {op : Arithmetic}
    (found : shape text = .ok (.arithmetic op first second)) (leftRead : Reads first left)
    (rightRead : Reads second right) : (arithmetic op left right).Grouped := by
  obtain ⟨unassigned, cut⟩ := shape_arithmetic found
  obtain ⟨parted, leftmost⟩ := Shape.arithmetic?_eq_some cut
  have leftUncomputed : Shape.arithmetic? (trim first) = none :=
    Shape.arithmetic?_eq_none_iff.mpr fun found =>
      leftmost (found.of_trim Shape.stable_isOperator)
  have leftAssigned := leftRead.binding_ne_zero parted.operand_left unassigned
  have leftComputed := leftRead.binding_ne_one leftUncomputed
  have rightAssigned := rightRead.binding_ne_zero parted.operand_right unassigned
  exact ⟨by omega, by omega⟩

theorem grouped_compare {op : Comparison}
    (found : shape text = .ok (.compare op first second)) (leftRead : Reads first left)
    (rightRead : Reads second right) : (compare op left right).Grouped := by
  obtain ⟨unassigned, uncomputed, cut⟩ := shape_compare found
  obtain ⟨split, earlier⟩ := Shape.comparison?_eq_some cut
  obtain ⟨parted, leftmost⟩ := surfaceSplit?_eq_some (Shape.isDelimiter_comparison op) split
  have leftAssigned := leftRead.binding_ne_zero parted.operand_left unassigned
  have leftComputed := leftRead.binding_ne_one (parted.operand_left.uncomputed uncomputed)
  have rightAssigned := rightRead.binding_ne_zero parted.operand_right unassigned
  have rightComputed := rightRead.binding_ne_one (parted.operand_right.uncomputed uncomputed)
  have notEarlier (operand : List Char) (inner : Operand text operand) (other : Comparison)
      (found : Found (fun _ ahead => other.symbol.isPrefixOf ahead) (trim operand) []) :
      op.rank ≤ other.rank := by
    by_contra before
    apply surfaceSplit?_eq_none_iff.mp (earlier other (Nat.lt_of_not_le before))
    exact inner.found (stable_pattern _) found
  refine ⟨by omega, by omega, ?_, ?_⟩
  · intro other member
    have found := leftRead.found_chain other member
    have different : op.rank ≠ other.rank := by
      intro same
      obtain rfl := Comparison.rank_injective same
      exact leftmost (found.of_trim (stable_pattern _))
    exact Nat.lt_of_le_of_ne (notEarlier first parted.operand_left other found) different
  · intro other member
    exact notEarlier second parted.operand_right other (rightRead.found_chain other member)

theorem grouped_concat (found : shape text = .ok (.concat first second))
    (leftRead : Reads first left) (rightRead : Reads second right) :
    (concat left right).Grouped := by
  obtain ⟨unassigned, uncomputed, uncompared, cut⟩ := shape_concat found
  obtain ⟨parted, leftmost⟩ := surfaceSplit?_eq_some (List.forall_mem_singleton.mpr rfl) cut
  have leftUnjoined : surfaceSplit? ['^'] (trim first) = none :=
    surfaceSplit?_eq_none_iff.mpr fun found => leftmost (found.of_trim (stable_pattern _))
  have leftAssigned := leftRead.binding_ne_zero parted.operand_left unassigned
  have leftComputed := leftRead.binding_ne_one (parted.operand_left.uncomputed uncomputed)
  have leftCompared := leftRead.binding_ne_two (parted.operand_left.uncompared uncompared)
  have leftJoined := leftRead.binding_ne_three leftUnjoined
  have rightAssigned := rightRead.binding_ne_zero parted.operand_right unassigned
  have rightComputed := rightRead.binding_ne_one (parted.operand_right.uncomputed uncomputed)
  have rightCompared := rightRead.binding_ne_two (parted.operand_right.uncompared uncompared)
  exact ⟨by omega, by omega⟩

end

mutual

theorem Reads.grouped {text : List Char} {phrase : Phrase} (reads : Reads text phrase) :
    ∀ node ∈ phrase.nodes, node.Grouped := by
  cases reads with
  | leaf found => exact grouped_of_atomic (shape_leaf found).1 (shape_leaf found).2
  | assign found inner =>
      obtain ⟨_, _, goal⟩ := shape_assign found
      exact List.forall_mem_cons.mpr ⟨Target.indexed_of_read goal, inner.grouped⟩
  | arithmetic found leftRead rightRead =>
      exact List.forall_mem_cons.mpr ⟨grouped_arithmetic found leftRead rightRead,
        List.forall_mem_append.mpr ⟨leftRead.grouped, rightRead.grouped⟩⟩
  | compare found leftRead rightRead =>
      exact List.forall_mem_cons.mpr ⟨grouped_compare found leftRead rightRead,
        List.forall_mem_append.mpr ⟨leftRead.grouped, rightRead.grouped⟩⟩
  | concat found leftRead rightRead =>
      exact List.forall_mem_cons.mpr ⟨grouped_concat found leftRead rightRead,
        List.forall_mem_append.mpr ⟨leftRead.grouped, rightRead.grouped⟩⟩
  | call found inner => exact List.forall_mem_cons.mpr ⟨shape_call found, inner.grouped⟩
  | builtin found inner => exact List.forall_mem_cons.mpr ⟨shape_builtin found, inner.grouped⟩
  | element found inner => exact List.forall_mem_cons.mpr ⟨shape_element found, inner.grouped⟩

theorem ReadsAll.grouped {texts : List (List Char)} {phrases : List Phrase}
    (reads : ReadsAll texts phrases) : ∀ node ∈ nodesAll phrases, node.Grouped := by
  cases reads with
  | nil => simp [nodesAll]
  | cons first rest => exact List.forall_mem_append.mpr ⟨first.grouped, rest.grouped⟩

end

/-! ### Conditions -/

/-- What stands directly under the comparisons of a chain. -/
def operands : Phrase → List Phrase
  | compare _ left right => operands left ++ operands right
  | phrase => [phrase]

theorem binding_operands (phrase : Phrase) (grouped : ∀ node ∈ phrase.nodes, node.Grouped)
    (comparing : 2 ≤ phrase.binding) : ∀ operand ∈ phrase.operands, 3 ≤ operand.binding := by
  cases phrase with
  | compare op left right =>
      simp only [nodes, List.forall_mem_cons, List.forall_mem_append] at grouped
      obtain ⟨⟨leftTight, rightTight, _, _⟩, leftGrouped, rightGrouped⟩ := grouped
      exact List.forall_mem_append.mpr ⟨binding_operands left leftGrouped leftTight,
        binding_operands right rightGrouped rightTight⟩
  | assign _ _ | arithmetic _ _ _ => simp [binding] at comparing
  | _ => simp [operands, binding]

theorem readClause_eq_ok {text : List Char} {phrase : Phrase}
    (accepted : readClause text = .ok phrase) :
    read text = .ok phrase ∧ phrase.binding = 2 := by
  unfold readClause at accepted
  split at accepted
  · cases accepted
  · rename_i found
    cases accepted
    exact ⟨found, rfl⟩
  · cases accepted

/-- What a line may be: a header whose condition is a clause, a blank line, or
an expression. -/
theorem readLine_eq_ok {line : List Char} {phrase : Phrase}
    (accepted : readLine line = .ok phrase) :
    (∃ text condition, readClause text = .ok condition ∧ phrase = .ifHeader condition) ∨
      (∃ text rest condition increment, readClause text = .ok condition ∧
        read rest = .ok increment ∧ phrase = .forHeader condition increment) ∨
      phrase = .close ∨ read (trim line) = .ok phrase := by
  simp only [readLine] at accepted
  split at accepted
  · obtain ⟨condition, clause, same⟩ := bind_eq_ok accepted
    cases same
    exact .inl ⟨_, condition, clause, rfl⟩
  · split at accepted
    · unfold readForHeader at accepted
      split at accepted
      · obtain ⟨condition, clause, accepted⟩ := bind_eq_ok accepted
        obtain ⟨increment, found, same⟩ := bind_eq_ok accepted
        cases same
        exact .inr (.inl ⟨_, _, condition, increment, clause, found, rfl⟩)
      · cases accepted
    · split at accepted
      · cases accepted
        exact .inr (.inr (.inl rfl))
      · exact .inr (.inr (.inr accepted))

theorem mem_nodes_self (phrase : Phrase) : phrase ∈ phrase.nodes := by
  cases phrase <;> simp [nodes]

/-- The condition of a header is read as a clause. -/
theorem exists_clause {line : List Char} {condition : Phrase}
    (header : readLine line = .ok (.ifHeader condition) ∨
      ∃ increment, readLine line = .ok (.forHeader condition increment)) :
    ∃ text, readClause text = .ok condition := by
  have refused (text : List Char) (phrase : Phrase) (promised : ¬ phrase.Grouped) :
      read text ≠ .ok phrase := by
    intro accepted
    exact promised ((read_eq_ok_iff.mp accepted).grouped phrase (mem_nodes_self phrase))
  rcases header with accepted | ⟨increment, accepted⟩
  · rcases readLine_eq_ok accepted with ⟨text, _, clause, same⟩ | ⟨_, _, _, _, _, _, same⟩ |
      same | accepted
    · cases same
      exact ⟨text, clause⟩
    · cases same
    · cases same
    · exact absurd accepted (refused _ _ id)
  · rcases readLine_eq_ok accepted with ⟨_, _, _, same⟩ | ⟨text, _, _, _, clause, _, same⟩ |
      same | accepted
    · cases same
    · cases same
      exact ⟨text, clause⟩
    · cases same
    · exact absurd accepted (refused _ _ id)

/-- Precedence is respected.  Every node of an accepted text is grouped, and so is
every node of the condition of an accepted header, which is a comparison with
neither arithmetic nor an assignment directly under it. -/
theorem precedence_respected :
    (∀ text phrase, read text = .ok phrase → ∀ node ∈ phrase.nodes, node.Grouped) ∧
    (∀ line condition,
      (readLine line = .ok (.ifHeader condition) ∨
        ∃ increment, readLine line = .ok (.forHeader condition increment)) →
      condition.binding = 2 ∧ (∀ node ∈ condition.nodes, node.Grouped) ∧
        ∀ operand ∈ condition.operands, 3 ≤ operand.binding) := by
  refine ⟨fun text phrase accepted => (read_eq_ok_iff.mp accepted).grouped, ?_⟩
  intro line condition header
  obtain ⟨text, clause⟩ := exists_clause header
  obtain ⟨accepted, level⟩ := readClause_eq_ok clause
  have grouped := (read_eq_ok_iff.mp accepted).grouped
  exact ⟨level, grouped, binding_operands condition grouped (Nat.le_of_eq level.symm)⟩

/-- A clause with a quoted operator and a concatenation under its comparison. -/
def sampleClause : Phrase :=
  .compare .less (.parameter "a") (.concat (.literal "x - y") (.entry "k"))

theorem precedence_respected_clause :
    read "$a < 'x - y' ^ [k]".toList = .ok sampleClause ∧
      readLine "if ($a < 'x - y' ^ [k])".toList = .ok (.ifHeader sampleClause) ∧
      (∀ node ∈ sampleClause.nodes, node.Grouped) ∧
      ∀ operand ∈ sampleClause.operands, 3 ≤ operand.binding := by
  have clause : read "$a < 'x - y' ^ [k]".toList = .ok sampleClause :=
    (Reads.compare rfl (.leaf rfl) (.concat rfl (.leaf rfl) (.leaf rfl))).read_eq_ok
  have header : readLine "if ($a < 'x - y' ^ [k])".toList = .ok (.ifHeader sampleClause) := by
    change (readClause "$a < 'x - y' ^ [k]".toList >>= _) = _
    rw [readClause, clause]
    rfl
  exact ⟨clause, header, precedence_respected.1 _ _ clause,
    (precedence_respected.2 _ _ (.inl header)).2.2⟩

end Phrase

end TableScript
