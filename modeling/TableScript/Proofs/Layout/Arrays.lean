import TableScript.Proofs.Layout.Outline

namespace TableScript

open Text

/-! The items of arrays.  An array is cut at every comma, those between quotes
included, while blanks, brackets, arrows and comment marks between quotes are left
alone.  So an array is recorded as it is written if and only if no item holds a
comma; other items fall into pieces. -/

namespace Layout

/-- What the reader makes of an item. -/
def pieces (item : String) : List String :=
  ((quotedText item).splitOn ',').map fun piece => String.ofList (unquote (trim piece))

/-- The line that declares an array of quoted items. -/
def arrayLine (index : String) (items : List String) : List Char :=
  declarationHead index ++ ('[' :: commaSeparated (items.map quotedText) ++ [']'])

/-! ### Pieces of items -/

theorem length_splitOn (separator : Char) (text : List Char) :
    (text.splitOn separator).length = text.count separator + 1 := by
  induction text with
  | nil => rfl
  | cons c rest continued =>
      rw [List.splitOn_cons_eq_if_modifyHead, List.count_cons]
      split
      · rw [List.length_cons, continued]
      · rw [List.length_modifyHead, continued, Nat.add_zero]

theorem length_pieces (item : String) : (pieces item).length = item.toList.count ',' + 1 := by
  rw [pieces, List.length_map, length_splitOn]
  simp [quotedText]

theorem pieces_eq_self {item : String} (plain : ',' ∉ item.toList) : pieces item = [item] := by
  have whole : (quotedText item).splitOn ',' = [quotedText item] := by
    apply List.splitOn_eq_singleton
    simpa [quotedText] using plain
  have trimmed : Trimmed (quotedText item) := trimmed_enclosed item.toList (by decide)
  have unquoted : unquote (quotedText item) = item.toList := unquote_quoted item.toList
  rw [pieces, whole, List.map_singleton, trim_eq_self trimmed, unquoted, String.ofList_toList]

theorem length_flatMap_pieces (items : List String) :
    (items.flatMap pieces).length = items.length + (items.flatMap String.toList).count ',' := by
  induction items with
  | nil => rfl
  | cons item others continued =>
      rw [List.flatMap_cons, List.length_append, length_pieces, continued, List.length_cons,
        List.flatMap_cons, List.count_append]
      omega

/-- A comma shows in the number of items. -/
theorem flatMap_pieces_eq_self_iff (items : List String) :
    items.flatMap pieces = items ↔ ∀ item ∈ items, ',' ∉ item.toList := by
  constructor
  · intro same item member
    have length := length_flatMap_pieces items
    rw [same] at length
    have none : (items.flatMap String.toList).count ',' = 0 := by omega
    exact fun comma =>
      List.count_eq_zero.mp none (List.mem_flatMap.mpr ⟨item, member, comma⟩)
  · intro plain
    have alone : items.flatMap pieces = items.flatMap fun item => [item] :=
      List.flatMap_congr fun item member => pieces_eq_self (plain item member)
    rw [alone, List.flatMap_singleton']

/-! ### The line of an array -/

/-- The blank behind a comma belongs to no item. -/
theorem map_splitOn_blank (text : List Char) :
    ((' ' :: text).splitOn ',').map (fun piece => String.ofList (unquote (trim piece))) =
      (text.splitOn ',').map fun piece => String.ofList (unquote (trim piece)) := by
  obtain ⟨piece, others, split⟩ := List.exists_cons_of_ne_nil (List.splitOn_ne_nil ',' text)
  rw [List.splitOn_cons_eq_if_modifyHead, if_neg (by decide), split]
  simp [trim_cons_blank]

theorem map_splitOn_commaSeparated (item : String) (others : List String) :
    ((commaSeparated ((item :: others).map quotedText)).splitOn ',').map
      (fun piece => String.ofList (unquote (trim piece))) = (item :: others).flatMap pieces := by
  induction others generalizing item with
  | nil => simp [commaSeparated, pieces]
  | cons next later continued =>
      have whole : commaSeparated ((item :: next :: later).map quotedText) =
          quotedText item ++ ',' :: ' ' :: commaSeparated ((next :: later).map quotedText) := by
        simp [commaSeparated_cons_cons]
      rw [whole, List.splitOn_append_cons_self, List.map_append, map_splitOn_blank, continued]
      rfl

theorem items?_quoted (items : List String) :
    items? ('[' :: commaSeparated (items.map quotedText) ++ [']']) =
      some (items.flatMap pieces) := by
  rw [items?, between?_append]
  cases items with
  | nil => rfl
  | cons item others =>
      have quote : '\'' ∈ quotedText item := by simp [quotedText]
      have given : ¬ (trim (commaSeparated ((item :: others).map quotedText))).isEmpty = true :=
        trim_commaSeparated quote (by decide)
      simp only [if_neg given, map_splitOn_commaSeparated]

theorem absent_items {items : List String}
    (unspoken : ∀ item ∈ items, ¬ ['M', 'A', 'I', 'N'] <:+: item.toList) {rest : List Char}
    (beyond : ¬ ['M', 'A', 'I', 'N'] <:+: rest) :
    ¬ ['M', 'A', 'I', 'N'] <:+: commaSeparated (items.map quotedText) ++ rest := by
  induction items with
  | nil => exact beyond
  | cons item others continued =>
      rw [List.forall_mem_cons] at unspoken
      have first {more : List Char} (ends : ¬ ['M', 'A', 'I', 'N'] <:+: more) :
          ¬ ['M', 'A', 'I', 'N'] <:+: quotedText item ++ more := by
        have whole : quotedText item ++ more = [] ++ '\'' :: (item.toList ++ '\'' :: more) := by
          simp [quotedText]
        rw [whole]
        intro found
        rcases infix_append_cons (by decide) found with early | later
        · exact absurd early (by decide)
        · rcases infix_append_cons (by decide) later with within | late
          · exact unspoken.1 within
          · exact ends late
      cases others with
      | nil => exact first beyond
      | cons next later =>
          have whole : commaSeparated ((item :: next :: later).map quotedText) ++ rest =
              (quotedText item ++ [',']) ++
                ' ' :: (commaSeparated ((next :: later).map quotedText) ++ rest) := by
            simp [commaSeparated_cons_cons]
          rw [whole]
          intro found
          rcases infix_append_cons (by decide) found with here | there
          · exact first (by decide) here
          · exact continued unspoken.2 there

theorem absent_arrayLine {index : String} {items : List String}
    (unnamed : ¬ ['M', 'A', 'I', 'N'] <:+: index.toList)
    (unspoken : ∀ item ∈ items, ¬ ['M', 'A', 'I', 'N'] <:+: item.toList) :
    ¬ ['M', 'A', 'I', 'N'] <:+: arrayLine index items := by
  have whole : arrayLine index items = index.toList ++ ' ' :: (['=', '>', ' '] ++
      '[' :: (commaSeparated (items.map quotedText) ++ [']'])) := by
    simp [arrayLine, declarationHead]
  rw [whole]
  intro found
  rcases infix_append_cons (by decide) found with early | later
  · exact unnamed early
  · rcases infix_append_cons (by decide) later with arrow | inside
    · exact absurd arrow (by decide)
    · exact absent_items unspoken (by decide) inside

theorem clean_arrayLine {index : String} {items : List String} (named : Named index)
    (unquoted : ∀ item ∈ items, '\'' ∉ item.toList)
    (absent : ¬ ['M', 'A', 'I', 'N'] <:+: arrayLine index items) :
    Clean (arrayLine index items) := by
  have inside := beforeComment?_items unquoted (rfl : beforeComment? false [']'] = none)
  exact clean_head named
    (beforeComment?_plain (by simp : ∀ c ∈ ['['], c ≠ '\'' ∧ c ≠ '/') inside) absent

/-! ### Reading it -/

theorem substitute_eq_self {constants : List Constant} {line : List Char}
    (absent : ∀ constant ∈ constants, ¬ constant.name <:+: line) :
    substitute constants line = line := by
  have nowhere : constants.find? (fun constant => occursIn constant.name line) = none := by
    rw [List.find?_eq_none]
    intro constant member
    simp [occursIn_eq_false (absent constant member)]
  rw [substitute, nowhere]

section

variable {layout : Layout} {index : String} {items : List String}

theorem step_clean {line : List Char} (clean : Clean line) (inBody : layout.phase = .body)
    (clear : layout.commented = false) (unchanged : substitute layout.constants line = line) :
    layout.step line = { layout with line := layout.line + 1 }.bodyLine line := by
  obtain ⟨number, constants, commented, phase, objects, members, journal⟩ := layout
  cases inBody
  cases clear
  simp only [step]
  rw [plainLine_clean clean rfl, if_neg (by simp [clean.undefined]), unchanged]

theorem bodyLine_arrayLine (valid : isIndex index.toList = true) (layout : Layout) :
    layout.bodyLine (arrayLine index items) =
      (layout.note (.arrayRead index (items.flatMap pieces))).add
        (.array index layout.line (items.flatMap pieces)) := by
  have trimmed : Trimmed ('[' :: commaSeparated (items.map quotedText) ++ [']']) :=
    trimmed_enclosed _ (by decide)
  have ends : (declarationHead index ++
      ('[' :: commaSeparated (items.map quotedText) ++ [']'])).getLast? = some ']' := by
    rw [← List.append_assoc, List.getLast?_concat]
  rw [arrayLine, bodyLine_head valid trimmed, if_neg (by simp), if_neg (by rw [ends]; decide),
    addEntry, readSides_head valid trimmed]
  simp only [items?_quoted]
  rfl

/-- The reader stays in the body, with the array as its last entry. -/
theorem step_arrayLine (named : Named index) (unquoted : ∀ item ∈ items, '\'' ∉ item.toList)
    (absent : ¬ ['M', 'A', 'I', 'N'] <:+: arrayLine index items) (inBody : layout.phase = .body)
    (clear : layout.commented = false)
    (unchanged : substitute layout.constants (arrayLine index items) = arrayLine index items) :
    (layout.step (arrayLine index items)).bare =
      { layout.bare with line := layout.line + 1 }.insert
        (.array index (layout.line + 1) (items.flatMap pieces)) := by
  rw [step_clean (clean_arrayLine named unquoted absent) inBody clear unchanged,
    bodyLine_arrayLine named.1, bare_add_eq_insert]
  rfl

end

/-- An array of quoted items is recorded at its line, each item as the pieces between
its commas; so it has the items that are written if and only if none holds a comma. -/
theorem array_recorded {source : List Char} {count : Nat} {index : String} {items : List String}
    (here : (lines source)[count]? = some (arrayLine index items))
    (inBody : (reached source count).phase = .body)
    (clear : (reached source count).commented = false) (valid : isIndex index.toList = true)
    (other : index ≠ "def") (unquoted : ∀ item ∈ items, '\'' ∉ item.toList)
    (unnamed : ¬ ['M', 'A', 'I', 'N'] <:+: index.toList)
    (unspoken : ∀ item ∈ items, ¬ ['M', 'A', 'I', 'N'] <:+: item.toList)
    (undefined : ∀ constant ∈ (reached source count).constants,
      constant ∈ predefined ∨ ¬ constant.name <:+: arrayLine index items) :
    ((reached source (count + 1)).phase = .body ∧
      (reached source (count + 1)).outline = (reached source count).outline ++
        [.array index (count + 1) (items.flatMap pieces)]) ∧
    (∀ declarations, (read source).result = .ok declarations →
      .array index (count + 1) (items.flatMap pieces) ∈ Declaration.entriesAll declarations) ∧
    (items.flatMap pieces).length = items.length + (items.flatMap String.toList).count ',' ∧
    (items.flatMap pieces = items ↔ ∀ item ∈ items, ',' ∉ item.toList) := by
  have absent := absent_arrayLine unnamed unspoken
  have unchanged := substitute_eq_self fun constant member => by
    rcases undefined constant member with first | unmet
    · cases List.mem_singleton.mp first
      exact absent
    · exact unmet
  have within : count ≤ (lines source).length :=
    Nat.le_of_lt (List.getElem?_eq_some_iff.mp here).1
  have taken := step_arrayLine ⟨valid, other⟩ unquoted absent inBody clear unchanged
  rw [← reached_succ here, line_reached within] at taken
  have recorded : (reached source (count + 1)).outline = (reached source count).outline ++
      [.array index (count + 1) (items.flatMap pieces)] := by
    rw [← outline_bare, taken, outline_insert]
    rfl
  have stays : (reached source (count + 1)).phase.bare = .body := by
    have phase := congrArg Layout.phase taken
    rw [insert_phase] at phase
    exact phase.trans (congrArg Phase.bare inBody)
  refine ⟨⟨?_, recorded⟩, fun declarations accepted => ?_, length_flatMap_pieces items,
    flatMap_pieces_eq_self_iff items⟩
  · cases phase : (reached source (count + 1)).phase with
    | body => rfl
    | preamble | function opened | closed trailing | failed number fault =>
        rw [phase] at stays
        cases stays
  · have last : .array index (count + 1) (items.flatMap pieces) ∈
        (reached source (count + 1)).outline := by
      rw [recorded]
      exact List.mem_append_right _ (List.mem_singleton.mpr rfl)
    exact mem_entriesAll_of_reached last nofun accepted

/-- Items with everything but a comma, in an object. -/
def markedArray : List Char :=
  "[\no => [\nk => ['] // =>', '', ' [x ']\n]\n]".toList

theorem array_recorded_marked :
    (lines markedArray)[2]? = some (arrayLine "k" ["] // =>", "", " [x "]) ∧
      ∃ declarations, (read markedArray).result = .ok declarations ∧
        .array "k" 3 ["] // =>", "", " [x "] ∈ Declaration.entriesAll declarations := by
  have here : (lines markedArray)[2]? = some (arrayLine "k" ["] // =>", "", " [x "]) := rfl
  have unnamed : ¬ ['M', 'A', 'I', 'N'] <:+: "k".toList := by decide
  have letter : ∀ item ∈ ["] // =>", "", " [x "], 'M' ∉ item.toList := by decide
  have unspoken : ∀ item ∈ ["] // =>", "", " [x "], ¬ ['M', 'A', 'I', 'N'] <:+: item.toList :=
    fun item member found => letter item member (found.subset (by simp))
  have known : ∀ constant ∈ (reached markedArray 2).constants,
      constant ∈ predefined ∨ ¬ constant.name <:+: arrayLine "k" ["] // =>", "", " [x "] :=
    fun constant member => .inl member
  obtain ⟨_, declared, _, same⟩ :=
    array_recorded here rfl rfl rfl (by decide) (by decide) unnamed unspoken known
  rw [same.mpr (by decide)] at declared
  exact ⟨here, _, rfl, declared _ rfl⟩

/-- A program of one array with one item. -/
def commaArray : List Char :=
  "[\n0 => ['a,b']\n]".toList

/-- The item falls into two pieces, each with one of the quotes. -/
theorem array_item_broken :
    (lines commaArray)[1]? = some (arrayLine "0" ["a,b"]) ∧
      (reached commaArray 1).phase = .body ∧ isIndex "0".toList = true ∧
      '\'' ∉ "a,b".toList ∧ '\n' ∉ "a,b".toList ∧ ¬ ['M', 'A', 'I', 'N'] <:+: "a,b".toList ∧
      (read commaArray).result = .ok [.array "0" 2 ["'a", "b'"]] ∧
      ∀ declarations, (read commaArray).result = .ok declarations →
        .array "0" 2 ["a,b"] ∉ Declaration.entriesAll declarations := by
  have broken : (read commaArray).result = .ok [.array "0" 2 ["'a", "b'"]] := rfl
  refine ⟨rfl, rfl, rfl, by decide, by decide, by decide, broken, fun declarations accepted => ?_⟩
  cases broken.symm.trans accepted
  simp [Declaration.entriesAll, Declaration.entries]

end Layout

end TableScript
