import TableScript.Declaration.Printer
import TableScript.Layout
import TableScript.Proofs.Index
import TableScript.Proofs.Separated
import TableScript.Proofs.Text.Cut
import TableScript.Proofs.Text.Quoted

namespace TableScript.Layout

open Text

/-! The lines of a canonical layout, one kind after the other.  Each moves the
reader from one place to the next; what it notes in the journal on the way
decides nothing. -/

/-- The state of a reader that has met no constants and no comments, without its
journal. -/
structure Place where
  line : Nat
  phase : Phase
  objects : List OpenObject
  members : List (Declaration FunctionText)

namespace Place

def layout (place : Place) (journal : Journal) : Layout :=
  ⟨place.line, predefined, false, place.phase, place.objects, place.members, journal⟩

def forward (place : Place) (count : Nat) : Place :=
  { place with line := place.line + count }

/-- Puts a declaration into the innermost open object, or into the program. -/
def add (place : Place) (declaration : Declaration FunctionText) : Place :=
  match place.objects with
  | object :: outer =>
      { place with objects := { object with members := object.members ++ [declaration] } :: outer }
  | [] => { place with members := place.members ++ [declaration] }

/-- Whatever the journal holds, the lines take the reader from one place to
another. -/
def Leads (first : Place) (lines : List (List Char)) (last : Place) : Prop :=
  ∀ journal, ∃ later, lines.foldl step (first.layout journal) = last.layout later

theorem Leads.nil (place : Place) : Leads place [] place := fun journal => ⟨journal, rfl⟩

theorem Leads.append {first middle last : Place} {lines others : List (List Char)}
    (start : Leads first lines middle) (rest : Leads middle others last) :
    Leads first (lines ++ others) last := by
  intro journal
  obtain ⟨between, reached⟩ := start journal
  obtain ⟨later, finished⟩ := rest between
  exact ⟨later, by rw [List.foldl_append, reached, finished]⟩

theorem Leads.cons {first middle last : Place} {line : List Char} {others : List (List Char)}
    (start : Leads first [line] middle) (rest : Leads middle others last) :
    Leads first (line :: others) last :=
  start.append rest

@[simp] theorem add_line (place : Place) (declaration : Declaration FunctionText) :
    (place.add declaration).line = place.line := by
  unfold add
  split <;> rfl

@[simp] theorem add_phase (place : Place) (declaration : Declaration FunctionText) :
    (place.add declaration).phase = place.phase := by
  unfold add
  split <;> rfl

theorem add_forward (place : Place) (declaration : Declaration FunctionText) (count : Nat) :
    (place.add declaration).forward count = (place.forward count).add declaration := by
  obtain ⟨line, phase, objects, members⟩ := place
  cases objects <;> rfl

theorem forward_forward (place : Place) (first second : Nat) :
    (place.forward first).forward second = place.forward (first + second) := by
  simp [forward, Nat.add_assoc]

theorem add_layout (place : Place) (journal : Journal) (declaration : Declaration FunctionText) :
    ∃ later, (place.layout journal).add declaration = (place.add declaration).layout later := by
  obtain ⟨line, phase, objects, members⟩ := place
  unfold Layout.add
  cases objects with
  | nil => split <;> exact ⟨_, rfl⟩
  | cons object outer => split <;> exact ⟨_, rfl⟩

end Place

/-- A line that is passed on as it is and defines no constant. -/
structure Clean (line : List Char) : Prop where
  given : line ≠ []
  unmarked : isCommentMark line = false
  uncommented : beforeComment? false line = none
  undefined : isDefinition line = false
  unchanged : substitute predefined line = line

theorem substitute_predefined {line : List Char} (absent : ¬ ['M', 'A', 'I', 'N'] <:+: line) :
    substitute predefined line = line := by
  simp [substitute, predefined, occursIn_eq_false absent]

theorem plainLine_clean {line : List Char} (clean : Clean line) {layout : Layout}
    (unopened : layout.commented = false) (take : Layout → List Char → Layout) :
    layout.plainLine line take = take layout line := by
  have same := withoutComment_eq_self clean.uncommented
  have given : line.isEmpty = false := by simpa using clean.given
  simp [plainLine, clean.unmarked, unopened, same, given]

theorem step_body {number : Nat} {objects : List OpenObject}
    {members : List (Declaration FunctionText)} {line : List Char} (clean : Clean line)
    (journal : Journal) :
    (Place.layout ⟨number, .body, objects, members⟩ journal).step line =
      (Place.layout ⟨number + 1, .body, objects, members⟩ journal).bodyLine line := by
  simp only [step, Place.layout]
  rw [plainLine_clean clean rfl]
  simp [clean.undefined, clean.unchanged]

/-! ### Lines with an index -/

/-- An index that can start a line; the word `def` defines a constant there. -/
def Named (index : String) : Prop :=
  isIndex index.toList = true ∧ index ≠ "def"

instance : DecidablePred Named := fun index =>
  inferInstanceAs (Decidable (isIndex index.toList = true ∧ index ≠ "def"))

section

variable {index : String} {value : List Char}

theorem declarationHead_append (index : String) (value : List Char) :
    declarationHead index ++ value = index.toList ++ ' ' :: '=' :: '>' :: ' ' :: value := by
  simp [declarationHead]

theorem isDefinition_head (named : Named index) :
    isDefinition (declarationHead index ++ value) = false := by
  unfold isDefinition
  split
  · rename_i c rest found
    have whole := List.isPrefixOf?_eq_some_iff_append_eq.mp found
    rw [declarationHead_append] at whole
    rcases append_eq_append_cons whole.symm with ⟨more, start, _⟩ | ⟨more, start, later⟩
    · exact isBlank_of_isIndexChar (isIndexChar_of_mem named.1 (by simp [start]))
    · cases more with
      | nil => exact absurd (String.toList_injective (by simpa using start.symm)) named.2
      | cons d more =>
          obtain ⟨rfl, _⟩ := List.cons.inj later
          have member : ' ' ∈ ['d', 'e', 'f'] := by simp [start]
          exact absurd member (by decide)
  · rfl

theorem clean_head (named : Named index) (uncommented : beforeComment? false value = none)
    (absent : ¬ ['M', 'A', 'I', 'N'] <:+: declarationHead index ++ value) :
    Clean (declarationHead index ++ value) where
  given := by simp [declarationHead]
  unmarked := by
    obtain ⟨c, rest, whole⟩ := List.exists_cons_of_ne_nil (isIndex_ne_nil named.1)
    have different : ('~' == c) = false := by
      rw [beq_eq_false_iff_ne]
      rintro rfl
      exact not_mem_of_isIndex (c := '~') named.1 (by decide) (by simp [whole])
    simp [declarationHead, whole, isCommentMark, List.isPrefixOf, different]
  uncommented := by
    apply beforeComment?_plain _ uncommented
    intro c member
    rcases List.mem_append.mp member with inIndex | inArrow
    · have valid := isIndexChar_of_mem named.1 inIndex
      constructor <;> (rintro rfl; revert valid; decide)
    · have arrow : ∀ c ∈ [' ', '=', '>', ' '], c ≠ '\'' ∧ c ≠ '/' := by simp
      exact arrow c inArrow
  undefined := isDefinition_head named
  unchanged := substitute_predefined absent

theorem trimmed_head (valid : isIndex index.toList = true) (trimmed : Trimmed value)
    (given : value ≠ []) : Trimmed (declarationHead index ++ value) := by
  constructor
  · intro c first
    obtain ⟨d, rest, whole⟩ := List.exists_cons_of_ne_nil (isIndex_ne_nil valid)
    apply (isIndex_trimmed valid).start c
    simpa [declarationHead, whole] using first
  · intro c last
    rw [List.getLast?_append_of_ne_nil _ given] at last
    exact trimmed.finish c last

theorem feed_not_mem_head (valid : isIndex index.toList = true) (single : '\n' ∉ value) :
    '\n' ∉ declarationHead index ++ value := by
  have outside : '\n' ∉ index.toList := not_mem_of_isIndex valid (by decide)
  simp [declarationHead, outside, single]

theorem sides?_head (valid : isIndex index.toList = true) (value : List Char) :
    sides? (declarationHead index ++ value) = some (index.toList ++ [' '], ' ' :: value) := by
  have absent : '=' ∉ index.toList ++ [' '] := by
    simpa using not_mem_of_isIndex valid (by decide)
  have cut := cutAtPattern?_append absent ['>'] (' ' :: value)
  rw [declarationHead_append]
  simpa [sides?] using cut

theorem readSides_head (valid : isIndex index.toList = true) (trimmed : Trimmed value) :
    readSides (declarationHead index ++ value) = .ok (index, value) := by
  have index_eq : trim (index.toList ++ [' ']) = index.toList :=
    trim_append_blank (isIndex_trimmed valid)
  have value_eq : trim (' ' :: value) = value := by
    rw [trim_cons_blank, trim_eq_self trimmed]
  simp only [readSides, sides?_head valid, readIndex, index_eq, valid, value_eq,
    String.ofList_toList, if_true]
  rfl

theorem readIndex_head (valid : isIndex index.toList = true) :
    readIndex (index.toList ++ [' ']) = .ok index := by
  simp [readIndex, trim_append_blank (isIndex_trimmed valid), valid]

theorem bodyLine_head (valid : isIndex index.toList = true) (trimmed : Trimmed value)
    (layout : Layout) :
    layout.bodyLine (declarationHead index ++ value) =
      if value = ['['] then layout.openObject (index.toList ++ [' '])
      else if (declarationHead index ++ value).getLast? = some '\x7b' then
        layout.openFunction (declarationHead index ++ value)
      else layout.addEntry (declarationHead index ++ value) := by
  have value_eq : trim (' ' :: value) = value := by
    rw [trim_cons_blank, trim_eq_self trimmed]
  have long (c : Char) : declarationHead index ++ value ≠ [c] := by
    intro same
    have size := congrArg List.length same
    simp only [declarationHead, List.length_append, List.length_cons, List.length_nil] at size
    omega
  simp only [bodyLine, objectStart?, sides?_head valid, value_eq]
  by_cases opens : value = ['[']
  · simp only [if_pos opens]
  · simp only [if_neg opens, if_neg (long ']'), if_neg (long '[')]

end

/-! ### Items and parameters -/

theorem beforeComment?_items {items : List String} (unquoted : ∀ item ∈ items, '\'' ∉ item.toList)
    {rest : List Char} (uncommented : beforeComment? false rest = none) :
    beforeComment? false (commaSeparated (items.map quotedText) ++ rest) = none := by
  induction items with
  | nil => exact uncommented
  | cons item others continued =>
      rw [List.forall_mem_cons] at unquoted
      cases others with
      | nil => simpa [commaSeparated, quotedText] using beforeComment?_quoted unquoted.1 uncommented
      | cons next later =>
          have separated := beforeComment?_plain (by simp : ∀ c ∈ [',', ' '], c ≠ '\'' ∧ c ≠ '/')
            (continued unquoted.2)
          have whole := beforeComment?_quoted unquoted.1 separated
          simpa [commaSeparated, quotedText] using whole

theorem items?_commaSeparated {items : List String}
    (plain : ∀ item ∈ items, ',' ∉ item.toList) :
    items? ('[' :: commaSeparated (items.map quotedText) ++ [']']) = some items := by
  rw [items?, between?_append]
  cases items with
  | nil => rfl
  | cons item others =>
      have unseparated : ∀ text ∈ quotedText item :: others.map quotedText, ',' ∉ text := by
        intro text member
        rw [← List.map_cons, List.mem_map] at member
        obtain ⟨item, member, rfl⟩ := member
        simpa [quotedText] using plain item member
      have quote : '\'' ∈ quotedText item := by simp [quotedText]
      have read (item : String) : String.ofList (unquote (trim (quotedText item))) = item := by
        have trimmed : Trimmed (quotedText item) := trimmed_enclosed item.toList (by decide)
        have unquoted : unquote (quotedText item) = item.toList := unquote_quoted item.toList
        rw [trim_eq_self trimmed, unquoted, String.ofList_toList]
      rw [List.map_cons]
      simp only [if_neg (trim_commaSeparated quote (by decide)),
        splitOn_commaSeparated unseparated]
      simp [Function.comp_def, trim_cons_blank, read]

theorem not_mem_params {params : List String}
    (valid : ∀ param ∈ params, isIndex param.toList = true) {c : Char} (apart : c ≠ ',' ∧ c ≠ ' ')
    (other : isIndexChar c = false) : c ∉ commaSeparated (params.map String.toList) := by
  apply not_mem_commaSeparated apart
  intro text member
  obtain ⟨param, inside, rfl⟩ := List.mem_map.mp member
  exact not_mem_of_isIndex (valid param inside) other

theorem param?_eq_some {param : String} (valid : isIndex param.toList = true) {text : List Char}
    (same : trim text = param.toList) : param? text = some param := by
  unfold param?
  rw [same]
  split
  · rename_i name whole
    have dollar : '$' ∈ param.toList := by simp [whole]
    exact absurd dollar (not_mem_of_isIndex valid (by decide))
  · simp [valid]

theorem mapM_param? {params : List String} (valid : ∀ param ∈ params, isIndex param.toList = true) :
    (params.map fun param => ' ' :: param.toList).mapM param? = some params := by
  induction params with
  | nil => rfl
  | cons param others continued =>
      rw [List.forall_mem_cons] at valid
      have same : trim (' ' :: param.toList) = param.toList := by
        rw [trim_cons_blank, trim_eq_self (isIndex_trimmed valid.1)]
      rw [List.map_cons, List.mapM_cons, param?_eq_some valid.1 same, continued valid.2]
      rfl

theorem params?_signature {params : List String}
    (valid : ∀ param ∈ params, isIndex param.toList = true) :
    params? ('(' :: commaSeparated (params.map String.toList) ++ [')', ' ', '\x7b']) =
      some params := by
  generalize written : commaSeparated (params.map String.toList) = inside
  have whole : '(' :: inside ++ [')', ' ', '\x7b'] = ('(' :: inside ++ [')', ' ']) ++ ['\x7b'] := by
    simp
  have enclosed : trimEnd ('(' :: inside ++ [')', ' ']) = '(' :: inside ++ [')'] := by
    have blank : Blank [' '] := List.forall_mem_singleton.mpr (by decide)
    have same := trimEnd_append blank ('(' :: inside ++ [')'])
    rw [trimEnd_eq_self (trimmed_enclosed inside (by decide)).finish] at same
    simpa using same
  rw [params?, whole, List.getLast?_concat, if_pos rfl, List.dropLast_concat, enclosed,
    between?_append]
  subst written
  cases params with
  | nil => rfl
  | cons param others =>
      have unseparated : ∀ text ∈ param.toList :: others.map String.toList, ',' ∉ text := by
        intro text member
        rw [← List.map_cons, List.mem_map] at member
        obtain ⟨name, member, rfl⟩ := member
        exact not_mem_of_isIndex (valid name member) (by decide)
      rw [List.forall_mem_cons] at valid
      obtain ⟨c, rest, start⟩ := List.exists_cons_of_ne_nil (isIndex_ne_nil valid.1)
      have member : c ∈ param.toList := by simp [start]
      have visible : isBlank c = false := isBlank_of_isIndexChar (isIndexChar_of_mem valid.1 member)
      rw [List.map_cons]
      simp only [if_neg (trim_commaSeparated member visible), splitOn_commaSeparated unseparated,
        List.map_map]
      rw [List.mapM_cons, param?_eq_some valid.1 (trim_eq_self (isIndex_trimmed valid.1))]
      have rest := mapM_param? valid.2
      simp only [Function.comp_def, rest]
      rfl

/-! ### The kinds of lines -/

section

variable {number : Nat} {objects : List OpenObject} {members : List (Declaration FunctionText)}
  {index : String}

theorem leads_scalar {value : String} (named : Named index) (unquoted : '\'' ∉ value.toList)
    (absent : ¬ ['M', 'A', 'I', 'N'] <:+: declarationHead index ++ quotedText value) :
    Place.Leads ⟨number, .body, objects, members⟩ [declarationHead index ++ quotedText value]
      (Place.add ⟨number + 1, .body, objects, members⟩ (.scalar index (number + 1) value)) := by
  have trimmed : Trimmed (quotedText value) := trimmed_enclosed value.toList (by decide)
  have uncommented : beforeComment? false (quotedText value) = none := by
    simpa [quotedText] using beforeComment?_quoted unquoted rfl
  have untabled : items? (quotedText value) = none := by simp [quotedText, items?, between?]
  have text : unquote (quotedText value) = value.toList := unquote_quoted value.toList
  have given : (quotedText value).isEmpty = false := by simp [quotedText]
  have ends : (declarationHead index ++ quotedText value).getLast? = some '\'' := by
    rw [quotedText, ← List.append_assoc, List.getLast?_concat]
  intro journal
  obtain ⟨later, added⟩ := Place.add_layout ⟨number + 1, .body, objects, members⟩
    (journal.push (.scalarRead index value)) (.scalar index (number + 1) value)
  refine ⟨later, ?_⟩
  rw [List.foldl_cons, List.foldl_nil, step_body (clean_head named uncommented absent),
    bodyLine_head named.1 trimmed, if_neg (by simp [quotedText]), if_neg (by rw [ends]; decide),
    addEntry, readSides_head named.1 trimmed]
  simp only [given, untabled, text, String.ofList_toList, Bool.false_eq_true, if_false]
  exact added

theorem leads_array {items : List String} (named : Named index)
    (unquoted : ∀ item ∈ items, '\'' ∉ item.toList) (plain : ∀ item ∈ items, ',' ∉ item.toList)
    (absent : ¬ ['M', 'A', 'I', 'N'] <:+:
      declarationHead index ++ ['['] ++ commaSeparated (items.map quotedText) ++ [']']) :
    Place.Leads ⟨number, .body, objects, members⟩
      [declarationHead index ++ ['['] ++ commaSeparated (items.map quotedText) ++ [']']]
      (Place.add ⟨number + 1, .body, objects, members⟩ (.array index (number + 1) items)) := by
  have whole : declarationHead index ++ ['['] ++ commaSeparated (items.map quotedText) ++ [']'] =
      declarationHead index ++ ('[' :: commaSeparated (items.map quotedText) ++ [']']) := by simp
  rw [whole] at absent ⊢
  have trimmed : Trimmed ('[' :: commaSeparated (items.map quotedText) ++ [']']) :=
    trimmed_enclosed _ (by decide)
  have uncommented :
      beforeComment? false ('[' :: commaSeparated (items.map quotedText) ++ [']']) = none := by
    have inside := beforeComment?_items unquoted (rfl : beforeComment? false [']'] = none)
    exact beforeComment?_plain (by simp : ∀ c ∈ ['['], c ≠ '\'' ∧ c ≠ '/') inside
  have ends : (declarationHead index ++
      ('[' :: commaSeparated (items.map quotedText) ++ [']'])).getLast? = some ']' := by
    rw [← List.append_assoc, List.getLast?_concat]
  intro journal
  obtain ⟨later, added⟩ := Place.add_layout ⟨number + 1, .body, objects, members⟩
    (journal.push (.arrayRead index items)) (.array index (number + 1) items)
  refine ⟨later, ?_⟩
  rw [List.foldl_cons, List.foldl_nil, step_body (clean_head named uncommented absent),
    bodyLine_head named.1 trimmed, if_neg (by simp), if_neg (by rw [ends]; decide),
    addEntry, readSides_head named.1 trimmed]
  simp only [items?_commaSeparated plain]
  exact added

theorem leads_object (named : Named index)
    (absent : ¬ ['M', 'A', 'I', 'N'] <:+: declarationHead index ++ ['[']) :
    Place.Leads ⟨number, .body, objects, members⟩ [declarationHead index ++ ['[']]
      ⟨number + 1, .body, ⟨index, number + 1, []⟩ :: objects, members⟩ := by
  have trimmed : Trimmed ['['] := trimmed_singleton (by decide)
  intro journal
  refine ⟨journal.push (.objectStarted index), ?_⟩
  rw [List.foldl_cons, List.foldl_nil, step_body (clean_head named rfl absent),
    bodyLine_head named.1 trimmed, if_pos rfl, openObject, readIndex_head named.1]
  rfl

theorem clean_closing : Clean [']'] where
  given := by simp
  unmarked := rfl
  uncommented := rfl
  undefined := rfl
  unchanged := by decide

theorem leads_closing {object : OpenObject} :
    Place.Leads ⟨number, .body, object :: objects, members⟩ [[']']]
      (Place.add ⟨number + 1, .body, objects, members⟩
        (.object object.index object.line object.members)) := by
  intro journal
  obtain ⟨later, added⟩ := Place.add_layout ⟨number + 1, .body, objects, members⟩
    (journal.push (.objectFinished object.index))
    (.object object.index object.line object.members)
  refine ⟨later, ?_⟩
  rw [List.foldl_cons, List.foldl_nil, step_body clean_closing]
  exact added

theorem leads_header {params : List String} (named : Named index)
    (valid : ∀ param ∈ params, isIndex param.toList = true)
    (absent : ¬ ['M', 'A', 'I', 'N'] <:+: declarationHead index ++ ['('] ++
      commaSeparated (params.map String.toList) ++ [')', ' ', '\x7b']) :
    Place.Leads ⟨number, .body, objects, members⟩
      [declarationHead index ++ ['('] ++ commaSeparated (params.map String.toList) ++
        [')', ' ', '\x7b']]
      ⟨number + 1, .function ⟨index, number + 1, params, [], false⟩, objects, members⟩ := by
  have signature := params?_signature valid
  have plain : ∀ c ∈ '(' :: commaSeparated (params.map String.toList) ++ [')', ' ', '\x7b'],
      c ≠ '\'' ∧ c ≠ '/' := by
    intro c member
    rw [List.mem_append, List.mem_cons] at member
    have signs : ∀ c ∈ [')', ' ', '\x7b'], c ≠ '\'' ∧ c ≠ '/' := by simp
    rcases member with (rfl | inside) | ending
    · decide
    · constructor
      · rintro rfl
        exact not_mem_params valid (by decide) (by decide) inside
      · rintro rfl
        exact not_mem_params valid (by decide) (by decide) inside
    · exact signs c ending
  have whole : declarationHead index ++ ['('] ++ commaSeparated (params.map String.toList) ++
      [')', ' ', '\x7b'] = declarationHead index ++
        ('(' :: commaSeparated (params.map String.toList) ++ [')', ' ', '\x7b']) := by simp
  rw [whole] at absent ⊢
  have regrouped : '(' :: commaSeparated (params.map String.toList) ++ [')', ' ', '\x7b'] =
      '(' :: (commaSeparated (params.map String.toList) ++ [')', ' ']) ++ ['\x7b'] := by simp
  have trimmed : Trimmed
      ('(' :: commaSeparated (params.map String.toList) ++ [')', ' ', '\x7b']) := by
    rw [regrouped]
    exact trimmed_enclosed _ (by decide)
  have uncommented : beforeComment? false
      ('(' :: commaSeparated (params.map String.toList) ++ [')', ' ', '\x7b']) = none := by
    have alone := beforeComment?_plain plain (rfl : beforeComment? false [] = none)
    rwa [List.append_nil] at alone
  have ends : (declarationHead index ++ ('(' :: commaSeparated (params.map String.toList) ++
      [')', ' ', '\x7b'])).getLast? = some '\x7b' := by
    rw [regrouped, ← List.append_assoc, List.getLast?_concat]
  intro journal
  refine ⟨journal, ?_⟩
  rw [List.foldl_cons, List.foldl_nil, step_body (clean_head named uncommented absent),
    bodyLine_head named.1 trimmed, if_neg (by simp), if_pos ends, openFunction,
    readSides_head named.1 trimmed]
  simp only [signature]
  rfl

end

/-! ### Inside functions -/

/-- A line that belongs to a function as it stands. -/
structure BodyLine (line : List Char) : Prop where
  trimmed : Trimmed line
  single : '\n' ∉ line
  unclosed : line ≠ ['\x7d']
  unmarked : ¬ ['~', '~', '~'] <+: line
  uncommented : ∀ before after, line = before ++ '/' :: '/' :: after → before.count '\'' % 2 = 1

theorem bodyLine_iff {line : List Char} :
    BodyLine line ↔ trim line = line ∧ '\n' ∉ line ∧ line ≠ ['\x7d'] ∧ ¬ ['~', '~', '~'] <+: line ∧
      beforeComment? false line = none := by
  constructor
  · intro text
    exact ⟨trim_eq_self text.trimmed, text.single, text.unclosed, text.unmarked,
      beforeComment?_eq_none_iff.mpr (by simpa using text.uncommented)⟩
  · rintro ⟨trimmed, single, unclosed, unmarked, uncommented⟩
    have kept : Trimmed line := by
      rw [← trimmed]
      exact trimmed_trim line
    have quoted := beforeComment?_eq_none_iff.mp uncommented
    exact ⟨kept, single, unclosed, unmarked, by simpa using quoted⟩

instance : DecidablePred BodyLine := fun _ => decidable_of_iff' _ bodyLine_iff

section

variable {number : Nat} {opened : OpenFunction} {objects : List OpenObject}
  {members : List (Declaration FunctionText)}

theorem leads_bodyLine {line : String} (plain : opened.commented = false)
    (text : BodyLine line.toList) (absent : ¬ ['M', 'A', 'I', 'N'] <:+: line.toList) :
    Place.Leads ⟨number, .function opened, objects, members⟩ [line.toList]
      ⟨number + 1, .function { opened with lines := opened.lines ++ [line] }, objects,
        members⟩ := by
  have unmarked : isCommentMark line.toList = false := by
    rw [isCommentMark, ← Bool.not_eq_true, List.isPrefixOf_iff_prefix]
    exact text.unmarked
  have started : ['/', '/'].isPrefixOf line.toList = false := by
    rw [← Bool.not_eq_true, List.isPrefixOf_iff_prefix]
    rintro ⟨after, whole⟩
    have odd := text.uncommented [] after (by simpa using whole.symm)
    simp at odd
  obtain ⟨_, _, _, _, uncommented⟩ := bodyLine_iff.mp text
  intro journal
  refine ⟨journal, ?_⟩
  simp only [List.foldl_cons, List.foldl_nil, step, Place.layout, functionLine,
    if_neg text.unclosed, unmarked, plain, started, withoutComment_eq_self uncommented,
    substitute_predefined absent, String.ofList_toList, Bool.or_self, Bool.false_eq_true, if_false]

theorem leads_bodyLines {lines : List String} (plain : opened.commented = false)
    (texts : ∀ line ∈ lines, BodyLine line.toList)
    (absent : ∀ line ∈ lines, ¬ ['M', 'A', 'I', 'N'] <:+: line.toList) :
    Place.Leads ⟨number, .function opened, objects, members⟩ (lines.map String.toList)
      ⟨number + lines.length, .function { opened with lines := opened.lines ++ lines }, objects,
        members⟩ := by
  induction lines generalizing number opened with
  | nil =>
      rw [List.append_nil]
      exact .nil _
  | cons line others continued =>
      rw [List.forall_mem_cons] at texts absent
      have first : Place.Leads ⟨number, .function opened, objects, members⟩ [line.toList] _ :=
        leads_bodyLine plain texts.1 absent.1
      have rest := @continued (number + 1) { opened with lines := opened.lines ++ [line] } plain
        texts.2 absent.2
      simp only [List.append_assoc, List.singleton_append] at rest
      rw [List.length_cons, Nat.add_comm others.length 1, ← Nat.add_assoc]
      exact first.cons rest

theorem leads_brace :
    Place.Leads ⟨number, .function opened, objects, members⟩ [['\x7d']]
      (Place.add ⟨number + 1, .body, objects, members⟩
        (.function opened.index opened.line ⟨opened.params, opened.lines, opened.line⟩)) := by
  intro journal
  obtain ⟨later, added⟩ := Place.add_layout ⟨number + 1, .body, objects, members⟩
    (journal.push (.functionRead opened.index opened.params opened.lines.length))
    (.function opened.index opened.line ⟨opened.params, opened.lines, opened.line⟩)
  exact ⟨later, added⟩

end

end TableScript.Layout
