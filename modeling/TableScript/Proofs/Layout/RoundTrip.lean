import TableScript.Proofs.Layout.Lines

namespace TableScript

open Text Layout

/-! Canonical layouts are read back.  The reader is a flat loop over lines with a
stack of open objects; it follows the tree that was printed because a block of
lines leaves the stack as it found it and only adds the declaration it stands
for. -/

namespace Declaration

mutual

/-- What a declaration has to promise to be read back from its lines. -/
def Printable : Declaration FunctionText → Prop
  | scalar index _ value => Named index ∧ '\'' ∉ value.toList ∧ '\n' ∉ value.toList
  | array index _ items =>
      Named index ∧
        ∀ item ∈ items, '\'' ∉ item.toList ∧ '\n' ∉ item.toList ∧ ',' ∉ item.toList
  | object index _ members => Named index ∧ PrintableAll members
  | function index _ text =>
      Named index ∧ (∀ param ∈ text.params, isIndex param.toList = true) ∧
        ∀ line ∈ text.lines, BodyLine line.toList

def PrintableAll : List (Declaration FunctionText) → Prop
  | [] => True
  | declaration :: others => Printable declaration ∧ PrintableAll others

end

mutual

/-- A declaration with the lines that it and its members have when it is printed
from `line` on. -/
def locate (line : Nat) : Declaration FunctionText → Declaration FunctionText
  | scalar index _ value => scalar index line value
  | array index _ items => array index line items
  | object index _ members => object index line (locateAll (line + 1) members)
  | function index _ text => function index line { text with line := line }

def locateAll (line : Nat) : List (Declaration FunctionText) → List (Declaration FunctionText)
  | [] => []
  | declaration :: others =>
      locate line declaration :: locateAll (line + (print declaration).length) others

end

mutual

/-- A declaration and all that are nested in it. -/
def entries : Declaration FunctionText → List (Declaration FunctionText)
  | scalar index line value => [scalar index line value]
  | array index line items => [array index line items]
  | object index line members => object index line members :: entriesAll members
  | function index line text => [function index line text]

def entriesAll : List (Declaration FunctionText) → List (Declaration FunctionText)
  | [] => []
  | declaration :: others => entries declaration ++ entriesAll others

end

/-! ### Positions -/

mutual

theorem print_locate (line : Nat) (declaration : Declaration FunctionText) :
    print (locate line declaration) = print declaration := by
  cases declaration with
  | scalar _ _ _ | array _ _ _ | function _ _ _ => rfl
  | object index _ members => rw [locate, print, print, printAll_locateAll (line + 1) members]

theorem printAll_locateAll (line : Nat) (declarations : List (Declaration FunctionText)) :
    printAll (locateAll line declarations) = printAll declarations := by
  cases declarations with
  | nil => rfl
  | cons declaration others =>
      rw [locateAll, printAll, printAll, print_locate line declaration,
        printAll_locateAll (line + (print declaration).length) others]

end

theorem line_locate (line : Nat) (declaration : Declaration FunctionText) :
    (locate line declaration).line = line := by
  cases declaration <;> rfl

mutual

/-- The block of every entry starts at the line the entry carries. -/
theorem exists_block (start : Nat) (declaration : Declaration FunctionText) :
    ∀ entry ∈ entries (locate start declaration), ∃ before after,
      print declaration = before ++ print entry ++ after ∧ entry.line = start + before.length := by
  have whole : ∃ before after,
      print declaration = before ++ print (locate start declaration) ++ after ∧
        (locate start declaration).line = start + before.length :=
    ⟨[], [], by simp [print_locate], by simp [line_locate]⟩
  cases declaration with
  | scalar _ _ _ | array _ _ _ | function _ _ _ => exact List.forall_mem_singleton.mpr whole
  | object index line members =>
      refine List.forall_mem_cons.mpr ⟨whole, ?_⟩
      intro entry member
      obtain ⟨before, after, inside, placed⟩ := exists_block_all (start + 1) members entry member
      refine ⟨(declarationHead index ++ ['[']) :: before, after ++ [[']']], ?_, ?_⟩
      · simp [print, inside]
      · rw [placed, List.length_cons]
        omega

theorem exists_block_all (start : Nat) (declarations : List (Declaration FunctionText)) :
    ∀ entry ∈ entriesAll (locateAll start declarations), ∃ before after,
      printAll declarations = before ++ print entry ++ after ∧
        entry.line = start + before.length := by
  cases declarations with
  | nil => simp [locateAll, entriesAll]
  | cons declaration others =>
      rw [locateAll, entriesAll, List.forall_mem_append]
      constructor
      · intro entry member
        obtain ⟨before, after, inside, placed⟩ := exists_block start declaration entry member
        exact ⟨before, after ++ printAll others, by simp [printAll, inside], placed⟩
      · intro entry member
        obtain ⟨before, after, inside, placed⟩ :=
          exists_block_all (start + (print declaration).length) others entry member
        refine ⟨print declaration ++ before, after, by simp [printAll, inside], ?_⟩
        rw [placed, List.length_append]
        omega

end

/-! ### Lines of the text -/

/-- A line that survives being joined with others and taken apart again. -/
structure Physical (line : List Char) : Prop where
  trimmed : Trimmed line
  single : '\n' ∉ line

theorem physical_head {index : String} {value : List Char} (valid : isIndex index.toList = true)
    (trimmed : Trimmed value) (given : value ≠ []) (single : '\n' ∉ value) :
    Physical (declarationHead index ++ value) :=
  ⟨trimmed_head valid trimmed given, feed_not_mem_head valid single⟩

theorem physical_char {c : Char} (visible : isBlank c = false) : Physical [c] where
  trimmed := trimmed_singleton visible
  single := by
    rw [List.mem_singleton]
    rintro rfl
    revert visible
    decide

theorem physical_header {index : String} {params : List String}
    (valid : isIndex index.toList = true)
    (paramsValid : ∀ param ∈ params, isIndex param.toList = true) :
    Physical (declarationHead index ++
      ('(' :: (commaSeparated (params.map String.toList) ++ [')', ' ']) ++ ['\x7b'])) := by
  have inside : '\n' ∉ commaSeparated (params.map String.toList) :=
    not_mem_params paramsValid (by decide) (by decide)
  apply physical_head valid (trimmed_enclosed _ (by decide)) (by simp)
  simpa using inside

theorem physical_array {index : String} {items : List String} (valid : isIndex index.toList = true)
    (single : ∀ item ∈ items, '\n' ∉ item.toList) :
    Physical (declarationHead index ++
      ('[' :: commaSeparated (items.map quotedText) ++ [']'])) := by
  have inside : '\n' ∉ commaSeparated (items.map quotedText) := by
    apply not_mem_commaSeparated (by decide)
    intro text member
    obtain ⟨item, inItems, rfl⟩ := List.mem_map.mp member
    simpa [quotedText] using single item inItems
  apply physical_head valid (trimmed_enclosed _ (by decide)) (by simp)
  simpa using inside

mutual

theorem physical_print (declaration : Declaration FunctionText)
    (printable : Printable declaration) :
    ∀ line ∈ print declaration, Physical line := by
  cases declaration with
  | scalar index _ value =>
      obtain ⟨named, _, single⟩ := printable
      refine List.forall_mem_singleton.mpr (physical_head named.1 ?_ ?_ ?_)
      · exact trimmed_enclosed value.toList (by decide)
      · simp [quotedText]
      · simpa [quotedText] using single
  | array index _ items =>
      obtain ⟨named, plain⟩ := printable
      have physical := physical_array named.1 fun item member => (plain item member).2.1
      simpa [print] using physical
  | object index _ members =>
      obtain ⟨named, inner⟩ := printable
      have opening : Physical (declarationHead index ++ ['[']) :=
        physical_head named.1 (trimmed_singleton (by decide)) (by simp) (by simp)
      rw [print, List.forall_mem_append, List.forall_mem_cons, List.forall_mem_singleton]
      exact ⟨⟨opening, physical_printAll members inner⟩, physical_char (by decide)⟩
  | function index _ text =>
      obtain ⟨named, valid, texts⟩ := printable
      have header := physical_header named.1 valid
      have whole : declarationHead index ++
          ('(' :: (commaSeparated (text.params.map String.toList) ++ [')', ' ']) ++ ['\x7b']) =
            declarationHead index ++ ['('] ++ commaSeparated (text.params.map String.toList) ++
              [')', ' ', '\x7b'] := by simp
      rw [whole] at header
      rw [print, FunctionText.print, List.forall_mem_append, List.forall_mem_cons,
        List.forall_mem_singleton]
      refine ⟨⟨header, ?_⟩, physical_char (by decide)⟩
      intro line member
      obtain ⟨body, inBody, rfl⟩ := List.mem_map.mp member
      exact ⟨(texts body inBody).trimmed, (texts body inBody).single⟩

theorem physical_printAll (declarations : List (Declaration FunctionText))
    (printable : PrintableAll declarations) : ∀ line ∈ printAll declarations, Physical line := by
  cases declarations with
  | nil => simp [printAll]
  | cons declaration others =>
      rw [printAll, List.forall_mem_append]
      exact ⟨physical_print declaration printable.1, physical_printAll others printable.2⟩

end

/-- The lines of a program text are those that were printed. -/
theorem splitOn_printProgram {declarations : List (Declaration FunctionText)}
    (printable : PrintableAll declarations) :
    (printProgram declarations).splitOn '\n' = [['[']] ++ printAll declarations ++ [[']']] := by
  have single : ∀ line ∈ printAll declarations, '\n' ∉ line := fun line member =>
    (physical_printAll declarations printable line member).single
  apply List.splitOn_intercalate
  · rw [List.forall_mem_append, List.forall_mem_append, List.forall_mem_singleton,
      List.forall_mem_singleton]
    exact ⟨⟨by decide, single⟩, by decide⟩
  · simp

theorem lines_printProgram {declarations : List (Declaration FunctionText)}
    (printable : PrintableAll declarations) :
    lines (printProgram declarations) = [['[']] ++ printAll declarations ++ [[']']] := by
  have fixed : ∀ line ∈ printAll declarations, trim line = line := fun line member =>
    trim_eq_self (physical_printAll declarations printable line member).trimmed
  have same : (printAll declarations).map trim = printAll declarations :=
    (List.map_congr_left fixed).trans (List.map_id' _)
  rw [lines, splitOn_printProgram printable, List.map_append, List.map_append, same]
  rfl

end Declaration

/-! ### Blocks of lines -/

namespace Layout.Place

def addAll (place : Place) (declarations : List (Declaration FunctionText)) : Place :=
  declarations.foldl add place

theorem addAll_cons (place : Place) (declaration : Declaration FunctionText)
    (others : List (Declaration FunctionText)) :
    place.addAll (declaration :: others) = (place.add declaration).addAll others := rfl

theorem addAll_inside {place : Place} {object : OpenObject} {outer : List OpenObject}
    (opened : place.objects = object :: outer) (declarations : List (Declaration FunctionText)) :
    place.addAll declarations =
      { place with
        objects := { object with members := object.members ++ declarations } :: outer } := by
  induction declarations generalizing place object with
  | nil =>
      obtain ⟨line, phase, objects, members⟩ := place
      cases opened
      simp [addAll]
  | cons declaration others continued =>
      have added : place.add declaration =
          { place with
            objects := { object with members := object.members ++ [declaration] } :: outer } := by
        rw [add, opened]
      rw [addAll_cons, continued (by rw [added]), added]
      simp

theorem addAll_outside {place : Place} (closed : place.objects = [])
    (declarations : List (Declaration FunctionText)) :
    place.addAll declarations = { place with members := place.members ++ declarations } := by
  induction declarations generalizing place with
  | nil =>
      obtain ⟨line, phase, objects, members⟩ := place
      simp [addAll]
  | cons declaration others continued =>
      have added : place.add declaration =
          { place with members := place.members ++ [declaration] } := by
        rw [add, closed]
      rw [addAll_cons, continued (by rw [added]; exact closed), added]
      simp

end Layout.Place

namespace Declaration

mutual

theorem leads_print (declaration : Declaration FunctionText) (printable : Printable declaration)
    (absent : ∀ line ∈ print declaration, ¬ ['M', 'A', 'I', 'N'] <:+: line) (place : Place)
    (inBody : place.phase = .body) :
    place.Leads (print declaration)
      ((place.forward (print declaration).length).add (locate (place.line + 1) declaration)) := by
  obtain ⟨number, phase, objects, outside⟩ := place
  cases inBody
  cases declaration with
  | scalar index _ value =>
      obtain ⟨named, unquoted, _⟩ := printable
      exact leads_scalar named unquoted (absent _ List.mem_cons_self)
  | array index _ items =>
      obtain ⟨named, plain⟩ := printable
      exact leads_array named (fun item member => (plain item member).1)
        (fun item member => (plain item member).2.2) (absent _ List.mem_cons_self)
  | object index line members =>
      obtain ⟨named, inner⟩ := printable
      rw [print, List.forall_mem_append, List.forall_mem_cons] at absent
      have opening : Place.Leads ⟨number, .body, objects, outside⟩ _ _ :=
        leads_object named absent.1.1
      have body := leads_printAll members inner absent.1.2
        ⟨number + 1, .body, ⟨index, number + 1, []⟩ :: objects, outside⟩ rfl
      rw [Place.addAll_inside rfl] at body
      have count : number + (print (object index line members)).length =
          number + 1 + (printAll members).length + 1 := by
        simp only [print, List.length_append, List.length_cons, List.length_nil]
        omega
      rw [Place.forward, count]
      exact opening.cons (body.append leads_closing)
  | function index line text =>
      obtain ⟨named, valid, texts⟩ := printable
      rw [print, FunctionText.print, List.forall_mem_append, List.forall_mem_cons,
        List.forall_mem_map] at absent
      have header : Place.Leads ⟨number, .body, objects, outside⟩ _ _ :=
        leads_header named valid absent.1.1
      have body := @leads_bodyLines (number + 1) ⟨index, number + 1, text.params, [], false⟩ objects
        outside text.lines rfl texts absent.1.2
      have count : number + (print (function index line text)).length =
          number + 1 + text.lines.length + 1 := by
        simp only [print, FunctionText.print, List.length_append, List.length_cons,
          List.length_nil, List.length_map]
        omega
      rw [Place.forward, count]
      exact header.cons (body.append leads_brace)

theorem leads_printAll (declarations : List (Declaration FunctionText))
    (printable : PrintableAll declarations)
    (absent : ∀ line ∈ printAll declarations, ¬ ['M', 'A', 'I', 'N'] <:+: line) (place : Place)
    (inBody : place.phase = .body) :
    place.Leads (printAll declarations)
      ((place.forward (printAll declarations).length).addAll
        (locateAll (place.line + 1) declarations)) := by
  cases declarations with
  | nil => exact .nil place
  | cons declaration others =>
      rw [printAll, List.forall_mem_append] at absent
      have first := leads_print declaration printable.1 absent.1 place inBody
      have rest := leads_printAll others printable.2 absent.2
        ((place.forward (print declaration).length).add (locate (place.line + 1) declaration))
        ((Place.add_phase _ _).trans inBody)
      have start : (place.forward (print declaration).length).line + 1 =
          place.line + 1 + (print declaration).length := Nat.add_right_comm _ _ _
      rw [Place.add_forward, Place.forward_forward, Place.add_line, start] at rest
      rw [printAll, List.length_append]
      exact first.append rest

end

theorem leads_program {declarations : List (Declaration FunctionText)}
    (printable : PrintableAll declarations)
    (absent : ∀ line ∈ printAll declarations, ¬ ['M', 'A', 'I', 'N'] <:+: line) :
    Place.Leads ⟨0, .preamble, [], []⟩ ([['[']] ++ printAll declarations ++ [[']']])
      ⟨(printAll declarations).length + 2, .closed 0, [], locateAll 2 declarations⟩ := by
  have opening : Place.Leads ⟨0, .preamble, [], []⟩ [['[']] ⟨1, .body, [], []⟩ :=
    fun journal => ⟨journal, rfl⟩
  have body := leads_printAll declarations printable absent ⟨1, .body, [], []⟩ rfl
  rw [Place.addAll_outside rfl] at body
  have closing : Place.Leads
      ⟨1 + (printAll declarations).length, .body, [], locateAll 2 declarations⟩ [[']']]
      ⟨(printAll declarations).length + 2, .closed 0, [], locateAll 2 declarations⟩ := by
    intro journal
    refine ⟨journal, ?_⟩
    have count : 1 + (printAll declarations).length + 1 = (printAll declarations).length + 2 := by
      omega
    rw [List.foldl_cons, List.foldl_nil, step_body clean_closing, count]
    rfl
  exact (opening.append body).append closing

/-- Every printable program is read back from its canonical layout, with each
entry at the line where its block starts. -/
theorem read_printProgram (declarations : List (Declaration FunctionText))
    (printable : PrintableAll declarations)
    (absent : ∀ line ∈ printAll declarations, ¬ ['M', 'A', 'I', 'N'] <:+: line) :
    (Layout.read (printProgram declarations)).result = .ok (locateAll 2 declarations) ∧
      ∀ entry ∈ entriesAll (locateAll 2 declarations), ∃ before after,
        (printProgram declarations).splitOn '\n' = before ++ print entry ++ after ∧
          entry.line = before.length + 1 := by
  constructor
  · obtain ⟨journal, reached⟩ := leads_program printable absent #[]
    have begun : start = Place.layout ⟨0, .preamble, [], []⟩ #[] := rfl
    rw [Layout.read, lines_printProgram printable, begun, reached]
    rfl
  · intro entry member
    obtain ⟨before, after, inside, placed⟩ := exists_block_all 2 declarations entry member
    refine ⟨['['] :: before, after ++ [[']']], ?_, ?_⟩
    · rw [splitOn_printProgram printable, inside]
      simp
    · rw [placed, List.length_cons]
      omega

/-- A program with a nested object, a comment mark in quotes, a blank line in a
function and two scalars of one name. -/
def sampleProgram : List (Declaration FunctionText) :=
  [.scalar "title" 0 "a // b",
    .object "store" 0
      [.array "k" 0 ["x", "y z"],
        .function "get" 0 ⟨["n"], ["[here][i] = '//'", "", "[k][$n]"], 0⟩,
        .array "none" 0 []],
    .scalar "title" 0 "]"]

theorem read_printProgram_sample :
    PrintableAll sampleProgram ∧
      (∀ line ∈ printAll sampleProgram, ¬ ['M', 'A', 'I', 'N'] <:+: line) ∧
      (Layout.read (printProgram sampleProgram)).result = .ok
        [.scalar "title" 2 "a // b",
          .object "store" 3
            [.array "k" 4 ["x", "y z"],
              .function "get" 5 ⟨["n"], ["[here][i] = '//'", "", "[k][$n]"], 5⟩,
              .array "none" 10 []],
          .scalar "title" 12 "]"] := by
  have printable : PrintableAll sampleProgram := by
    simp only [sampleProgram, PrintableAll, Printable]
    decide
  have letter : ∀ line ∈ printAll sampleProgram, 'M' ∉ line := by decide
  have absent : ∀ line ∈ printAll sampleProgram, ¬ ['M', 'A', 'I', 'N'] <:+: line :=
    fun line member found => letter line member (found.subset (by simp))
  exact ⟨printable, absent, (read_printProgram sampleProgram printable absent).1⟩

end Declaration

end TableScript
