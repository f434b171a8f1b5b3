import TableScript.Proofs.Layout.Comments
import TableScript.Proofs.Layout.Moves
import TableScript.Proofs.Layout.RoundTrip

namespace TableScript

open Text

/-! The outline of what has been read: all entries in the order of their lines,
objects that are still open among them.  An object is recorded where it is opened,
and its members follow it whether it has been closed or not; so a line only ever
adds to the end of the outline. -/

namespace Declaration

/-- A declaration without its members. -/
def shallow : Declaration FunctionText → Declaration FunctionText
  | object index line _ => object index line []
  | declaration => declaration

@[simp] theorem shallow_line (declaration : Declaration FunctionText) :
    declaration.shallow.line = declaration.line := by
  cases declaration <;> rfl

@[simp] theorem shallow_index (declaration : Declaration FunctionText) :
    declaration.shallow.index = declaration.index := by
  cases declaration <;> rfl

/-- Only objects lose anything. -/
theorem eq_of_shallow_eq {declaration other : Declaration FunctionText}
    (same : declaration.shallow = other) (flat : other.kind ≠ .object) : declaration = other := by
  cases declaration with
  | object index line members =>
      subst same
      exact absurd rfl flat
  | scalar index line value | array index line items | function index line text => exact same

theorem entriesAll_append (first second : List (Declaration FunctionText)) :
    entriesAll (first ++ second) = entriesAll first ++ entriesAll second := by
  induction first with
  | nil => rfl
  | cons declaration others continued =>
      rw [List.cons_append, entriesAll, entriesAll, continued, List.append_assoc]

/-- All entries, each without its members. -/
def outline (declarations : List (Declaration FunctionText)) :
    List (Declaration FunctionText) :=
  (entriesAll declarations).map shallow

theorem outline_append_singleton (declarations : List (Declaration FunctionText))
    (last : Declaration FunctionText) :
    outline (declarations ++ [last]) = outline declarations ++ (entries last).map shallow := by
  rw [outline, entriesAll_append, List.map_append, entriesAll, entriesAll, List.append_nil, outline]

end Declaration

/-- An object and its members so far. -/
def OpenObject.outline (object : OpenObject) : List (Declaration FunctionText) :=
  .object object.index object.line [] :: Declaration.outline object.members

namespace Layout

open Declaration

/-- All that has been recorded, the open objects from the outermost on. -/
def outline (layout : Layout) : List (Declaration FunctionText) :=
  Declaration.outline layout.members ++ layout.objects.reverse.flatMap OpenObject.outline

theorem outline_bare (layout : Layout) : layout.bare.outline = layout.outline := rfl

/-! ### One line -/

section

variable {layout after : Layout} {raw : List Char}

/-- Wherever a declaration goes, it comes last. -/
theorem outline_insert (layout : Layout) (declaration : Declaration FunctionText) :
    (layout.insert declaration).outline =
      layout.outline ++ (entries declaration).map shallow := by
  obtain ⟨line, constants, commented, phase, objects, members, journal⟩ := layout
  cases objects with
  | nil => simp [insert, outline, outline_append_singleton]
  | cons object outer =>
      simp [insert, outline, OpenObject.outline, outline_append_singleton]

theorem outline_openObject (layout : Layout) (index : String) :
    { layout with objects := ⟨index, layout.line, []⟩ :: layout.objects }.outline =
      layout.outline ++ [.object index layout.line []] := by
  simp [outline, OpenObject.outline, Declaration.outline, entriesAll]

/-- A closed object stays where it was opened. -/
theorem outline_closeObject {object : OpenObject} {outer : List OpenObject}
    (innermost : layout.objects = object :: outer) :
    ({ layout with objects := outer }.insert
      (.object object.index object.line object.members)).outline = layout.outline := by
  rw [outline_insert]
  simp [outline, innermost, OpenObject.outline, Declaration.outline, entries, shallow]

/-- What a line may add: an entry of its own, or the function that it closes. -/
inductive Added (raw : List Char) (layout : Layout) : Declaration FunctionText → Prop
  | line {declaration : Declaration FunctionText} (other : declaration.kind ≠ .function)
      (valid : isIndex declaration.index.toList = true)
      (here : declaration.line = layout.line) : Added raw layout declaration
  | function {opened : OpenFunction} (inside : layout.phase = .function opened)
      (brace : raw = ['\x7d']) : Added raw layout
        (.function opened.index opened.line ⟨opened.params, opened.lines, opened.line⟩)

theorem Move.outline_eq (move : Move raw layout after) :
    after.outline = layout.outline ∨
      ∃ last, after.outline = layout.outline ++ [last] ∧ Added raw layout last := by
  cases move with
  | pass | mark | define | begin | close | openFunction | take | fail => exact .inl rfl
  | openObject inBody valid => exact .inr ⟨_, outline_openObject layout _, .line nofun valid rfl⟩
  | closeObject inBody innermost => exact .inl (outline_closeObject innermost)
  | scalar inBody valid | array inBody valid =>
      exact .inr ⟨_, outline_insert layout _, .line nofun valid rfl⟩
  | closeFunction inside brace => exact .inr ⟨_, outline_insert _ _, .function inside brace⟩

/-- Inside a function the line before was its header, or another of its lines. -/
theorem Move.function_cases (move : Move raw layout after) {opened : OpenFunction}
    (inside : after.phase = .function opened) :
    after.outline = layout.outline ∧ after.constants = layout.constants ∧
      ((∃ index params, isIndex index.toList = true ∧
          (∀ param ∈ params, isIndex param.toList = true) ∧
          opened = ⟨index, layout.line, params, [], false⟩) ∨
        ∃ earlier, layout.phase = .function earlier ∧ raw ≠ ['\x7d'] ∧
          opened = earlier.take layout.constants raw) := by
  cases move with
  | pass outside | mark outside => exact absurd inside (outside opened)
  | define inPreamble defined =>
      rw [inPreamble] at inside
      cases inside
  | openObject inBody valid =>
      rw [inBody] at inside
      cases inside
  | closeObject inBody innermost | scalar inBody valid | array inBody valid =>
      rw [insert_phase, inBody] at inside
      cases inside
  | closeFunction earlier brace =>
      rw [insert_phase] at inside
      cases inside
  | begin | close | fail => cases inside
  | openFunction inBody valid paramsValid =>
      cases inside
      exact ⟨rfl, rfl, .inl ⟨_, _, valid, paramsValid, rfl⟩⟩
  | take earlier unclosed =>
      cases inside
      exact ⟨rfl, rfl, .inr ⟨_, earlier, unclosed, rfl⟩⟩

/-- A fault is met at the line itself, or has been met before. -/
theorem Move.failed_cases (move : Move raw layout after) {number : Nat} {fault : LayoutFault}
    (failed : after.phase = .failed number fault) :
    number = layout.line ∨ layout.phase = .failed number fault := by
  cases move with
  | pass | mark | define | openObject => exact .inr failed
  | closeObject inBody innermost | scalar inBody valid | array inBody valid =>
      rw [insert_phase] at failed
      exact .inr failed
  | closeFunction inside brace =>
      rw [insert_phase] at failed
      cases failed
  | begin | close | openFunction | take => cases failed
  | fail =>
      cases failed
      exact .inl rfl

end

/-! ### All lines -/

/-- What has been recorded stays, and stays in its place. -/
theorem outline_foldl (layout : Layout) (later : List (List Char)) :
    layout.outline <+: (later.foldl step layout).outline := by
  induction later generalizing layout with
  | nil => exact List.prefix_rfl
  | cons raw later continued =>
      have here : layout.outline <+: (layout.step raw).outline := by
        rcases (move_step layout raw).outline_eq with same | ⟨last, same, _⟩
        · exact (outline_bare _).symm.trans same ▸ List.prefix_rfl
        · exact (outline_bare _).symm.trans same ▸ List.prefix_append _ _
      exact here.trans (continued (layout.step raw))

/-- At the end nothing is open any more. -/
theorem finish_eq_ok {layout : Layout} {declarations : List (Declaration FunctionText)}
    (accepted : layout.finish.result = .ok declarations) :
    layout.objects = [] ∧ layout.members = declarations := by
  unfold finish at accepted
  split at accepted <;> cases accepted <;> exact ⟨‹_›, rfl⟩

theorem outline_finish {layout : Layout} {declarations : List (Declaration FunctionText)}
    (accepted : layout.finish.result = .ok declarations) :
    layout.outline = Declaration.outline declarations := by
  obtain ⟨closed, rfl⟩ := finish_eq_ok accepted
  simp [outline, closed]

/-- What the reader has recorded after some lines is declared in the end. -/
theorem mem_entriesAll_of_reached {source : List Char} {count : Nat}
    {entry : Declaration FunctionText} {declarations : List (Declaration FunctionText)}
    (recorded : entry ∈ (reached source count).outline) (flat : entry.kind ≠ .object)
    (accepted : (read source).result = .ok declarations) : entry ∈ entriesAll declarations := by
  have whole : (lines source).foldl step start =
      ((lines source).drop count).foldl step (reached source count) := by
    rw [reached, ← List.foldl_append, List.take_append_drop]
  have final := (outline_foldl (reached source count) ((lines source).drop count)).subset recorded
  rw [← whole, outline_finish accepted] at final
  obtain ⟨declared, member, same⟩ := List.mem_map.mp final
  rwa [← eq_of_shallow_eq same flat]

end Layout

end TableScript
