import TableScript.Layout

namespace TableScript

open Text

/-! The headers of functions.  A function that a layout declares, at any depth of
objects, has its index and its parameters from the line of the source whose
number it carries. -/

namespace Declaration

variable {φ : Type}

mutual

/-- The functions of a declaration with their indices, those of nested objects
included, in the order of the source. -/
def functions : Declaration φ → List (String × φ)
  | scalar _ _ _ | array _ _ _ => []
  | object _ _ members => functionsAll members
  | function index _ body => [(index, body)]

def functionsAll : List (Declaration φ) → List (String × φ)
  | [] => []
  | declaration :: others => functions declaration ++ functionsAll others

end

theorem functionsAll_append (first second : List (Declaration φ)) :
    functionsAll (first ++ second) = functionsAll first ++ functionsAll second := by
  induction first with
  | nil => rfl
  | cons declaration others continued =>
      rw [List.cons_append, functionsAll, functionsAll, continued, List.append_assoc]

end Declaration

namespace Layout

open Declaration

/-- The line with this number, counted from one, is the header of a function: the
reader meets it in the body, and reads it with the constants that it has there. -/
def HeaderAt (lines : List (List Char)) (index : String) (params : List String)
    (number : Nat) : Prop :=
  ∃ before raw after signature,
    lines = before ++ raw :: after ∧ number = before.length + 1 ∧
      (before.foldl step start).phase = .body ∧
      readSides (substitute (before.foldl step start).constants (withoutComment raw)) =
        .ok (index, signature) ∧
      params? signature = some params

/-- What is asked of a function, its body left aside. -/
abbrev Heading := String → List String → Nat → Prop

def Holding (holds : Heading) (functions : List (String × FunctionText)) : Prop :=
  ∀ found ∈ functions, holds found.1 found.2.params found.2.line

/-- The layout has taken `number` lines, and `holds` of all functions declared so
far and of the one that is open. -/
structure Declared (holds : Heading) (number : Nat) (layout : Layout) : Prop where
  line : layout.line = number
  members : Holding holds (functionsAll layout.members)
  objects : ∀ object ∈ layout.objects, Holding holds (functionsAll object.members)
  opened : ∀ opened, layout.phase = .function opened →
    holds opened.index opened.params opened.line

namespace Declared

variable {holds : Heading} {number : Nat} {layout : Layout}

theorem note (declared : Declared holds number layout) (event : Event) :
    Declared holds number (layout.note event) :=
  ⟨declared.line, declared.members, declared.objects, declared.opened⟩

/-- Outside functions nothing is open. -/
theorem enter (declared : Declared holds number layout) {phase : Phase}
    (outside : ∀ opened, phase ≠ .function opened) :
    Declared holds number { layout with phase := phase } :=
  ⟨declared.line, declared.members, declared.objects,
    fun opened inside => absurd inside (outside opened)⟩

theorem fail (declared : Declared holds number layout) (fault : LayoutFault) :
    Declared holds number (layout.fail fault) :=
  declared.enter fun _ same => nomatch same

/-- A declaration goes to the innermost open object, or to the program. -/
theorem add (declared : Declared holds number layout) {declaration : Declaration FunctionText}
    (inside : Holding holds declaration.functions) :
    Declared holds number (layout.add declaration) := by
  have extended {members : List (Declaration FunctionText)}
      (before : Holding holds (functionsAll members)) :
      Holding holds (functionsAll (members ++ [declaration])) := by
    rw [functionsAll_append, functionsAll, functionsAll, List.append_nil]
    exact List.forall_mem_append.mpr ⟨before, inside⟩
  have toObject {layout : Layout} {innermost : OpenObject} {outer : List OpenObject}
      (declared : Declared holds number layout) (within : layout.objects = innermost :: outer) :
      Declared holds number { layout with objects :=
        { innermost with members := innermost.members ++ [declaration] } :: outer } := by
    have around := declared.objects
    rw [within, List.forall_mem_cons] at around
    exact ⟨declared.line, declared.members,
      List.forall_mem_cons.mpr ⟨extended around.1, around.2⟩, declared.opened⟩
  have toProgram {layout : Layout} (declared : Declared holds number layout) :
      Declared holds number { layout with members := layout.members ++ [declaration] } :=
    ⟨declared.line, extended declared.members, declared.objects, declared.opened⟩
  -- The warning about an earlier declaration leaves what is declared alone.
  unfold Layout.add
  cases lastOf? layout.siblings declaration.kind declaration.index with
  | none =>
      simp only
      split
      · exact toObject declared ‹_›
      · exact toProgram declared
  | some previous =>
      simp only
      split
      · exact toObject (declared.note _) ‹_›
      · exact toProgram (declared.note _)

theorem define (declared : Declared holds number layout) (line : List Char) :
    Declared holds number (layout.define line) := by
  unfold Layout.define
  split
  · exact ⟨declared.line, declared.members, declared.objects, declared.opened⟩
  · exact declared.fail _

theorem startLine (declared : Declared holds number layout) (line : List Char) :
    Declared holds number (layout.startLine line) := by
  unfold Layout.startLine
  split
  · exact declared.enter fun _ same => nomatch same
  · split <;> exact declared.fail _

theorem openObject (declared : Declared holds number layout) (index : List Char) :
    Declared holds number (layout.openObject index) := by
  unfold Layout.openObject
  split
  · refine ⟨declared.line, declared.members, ?_, declared.opened⟩
    exact List.forall_mem_cons.mpr ⟨List.forall_mem_nil _, declared.objects⟩
  · exact declared.fail _

theorem closeBracket (declared : Declared holds number layout) :
    Declared holds number layout.closeBracket := by
  unfold Layout.closeBracket
  split
  · rename_i innermost outer within
    have around := declared.objects
    rw [within, List.forall_mem_cons] at around
    have closed : Declared holds number { layout with objects := outer } :=
      ⟨declared.line, declared.members, around.2, declared.opened⟩
    exact (closed.note _).add around.1
  · exact declared.enter fun _ same => nomatch same

theorem addEntry (declared : Declared holds number layout) (line : List Char) :
    Declared holds number (layout.addEntry line) := by
  unfold Layout.addEntry
  split
  · split
    · exact declared.fail _
    · split
      · exact (declared.note _).add (List.forall_mem_nil _)
      · exact (declared.note _).add (List.forall_mem_nil _)
  · exact declared.fail _

/-- The only place where a function comes in. -/
theorem openFunction (declared : Declared holds number layout) {line : List Char}
    (header : ∀ index signature params, readSides line = .ok (index, signature) →
      params? signature = some params → holds index params number) :
    Declared holds number (layout.openFunction line) := by
  unfold Layout.openFunction
  split
  · rename_i index signature sides
    split
    · rename_i params accepted
      refine ⟨declared.line, declared.members, declared.objects, ?_⟩
      intro opened same
      cases same
      rw [declared.line]
      exact header index signature params sides accepted
    · exact declared.fail _
  · exact declared.fail _

theorem bodyLine (declared : Declared holds number layout) {line : List Char}
    (header : ∀ index signature params, readSides line = .ok (index, signature) →
      params? signature = some params → holds index params number) :
    Declared holds number (layout.bodyLine line) := by
  unfold Layout.bodyLine
  split
  · exact declared.openObject _
  · split
    · exact declared.closeBracket
    · split
      · exact declared.fail _
      · split
        · exact declared.openFunction header
        · exact declared.addEntry line

theorem functionLine (declared : Declared holds number layout) {opened : OpenFunction}
    (inside : holds opened.index opened.params opened.line) (raw : List Char) :
    Declared holds number (layout.functionLine opened raw) := by
  have reopened {changed : OpenFunction} (here : holds changed.index changed.params changed.line) :
      Declared holds number { layout with phase := .function changed } := by
    refine ⟨declared.line, declared.members, declared.objects, ?_⟩
    intro opened same
    cases same
    exact here
  unfold Layout.functionLine
  split
  · have outside : Declared holds number { layout with phase := .body } :=
      declared.enter fun _ same => nomatch same
    exact (outside.note _).add (List.forall_mem_singleton.mpr inside)
  · split
    · exact reopened inside
    · split
      · exact declared
      · exact reopened inside

theorem plainLine (declared : Declared holds number layout) {raw : List Char}
    {take : Layout → List Char → Layout}
    (taken : Declared holds number (take layout (withoutComment raw))) :
    Declared holds number (layout.plainLine raw take) := by
  unfold Layout.plainLine
  split
  · exact ⟨declared.line, declared.members, declared.objects, declared.opened⟩
  · split
    · exact declared
    · exact taken

/-- A line brings in no function but the one that it is the header of. -/
theorem step (declared : Declared holds number layout) {raw : List Char}
    (header : layout.phase = .body → ∀ index signature params,
      readSides (substitute layout.constants (withoutComment raw)) = .ok (index, signature) →
      params? signature = some params → holds index params (number + 1)) :
    Declared holds (number + 1) (layout.step raw) := by
  have next : Declared holds (number + 1) { layout with line := layout.line + 1 } :=
    ⟨congrArg (· + 1) declared.line, declared.members, declared.objects, declared.opened⟩
  simp only [Layout.step]
  split
  · apply next.plainLine
    split
    · exact next.define _
    · exact next.startLine _
  · rename_i inBody
    apply next.plainLine
    split
    · exact next.fail _
    · exact next.bodyLine (header inBody)
  · rename_i opened inside
    exact next.functionLine (declared.opened opened inside) raw
  · split
    · exact next
    · exact next.enter fun _ same => nomatch same
  · exact next

end Declared

/-- Taking line after line, the functions declared are those whose headers were
met. -/
theorem declared_foldl {seen : List (List Char)} (rest : List (List Char))
    (declared : Declared (HeaderAt (seen ++ rest)) seen.length (seen.foldl step start)) :
    Declared (HeaderAt (seen ++ rest)) (seen ++ rest).length
      ((seen ++ rest).foldl step start) := by
  -- The lines seen number the next one, so they grow with each step.
  induction rest generalizing seen with
  | nil =>
      rw [List.append_nil] at declared ⊢
      exact declared
  | cons raw later continued =>
      have taken : Declared (HeaderAt (seen ++ raw :: later)) (seen.length + 1)
          ((seen.foldl step start).step raw) := by
        apply declared.step
        intro inBody index signature params sides accepted
        exact ⟨seen, raw, later, signature, rfl, rfl, inBody, sides, accepted⟩
      have whole : seen ++ raw :: later = (seen ++ [raw]) ++ later :=
        List.append_cons seen raw later
      have counted : seen.length + 1 = (seen ++ [raw]).length := by simp
      have reached : (seen.foldl step start).step raw = (seen ++ [raw]).foldl step start := by
        rw [List.foldl_append, List.foldl_cons, List.foldl_nil]
      rw [whole] at taken ⊢
      rw [counted, reached] at taken
      exact continued taken

/-- Every function of a program carries the number of its header. -/
theorem headerAt_of_read {source : List Char} {declarations : List (Declaration FunctionText)}
    (accepted : (read source).result = .ok declarations) :
    Holding (HeaderAt (lines source)) (functionsAll declarations) := by
  have start : Declared (HeaderAt ([] ++ lines source)) ([] : List (List Char)).length
      (([] : List (List Char)).foldl step start) :=
    ⟨rfl, List.forall_mem_nil _, List.forall_mem_nil _, fun _ same => nomatch same⟩
  have declared := declared_foldl (lines source) start
  rw [List.nil_append] at declared
  simp only [read, finish] at accepted
  split at accepted <;> cases accepted <;> exact declared.members

end Layout

end TableScript
