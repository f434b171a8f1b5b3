import TableScript.Proofs.Phrase.Precedence
import TableScript.Proofs.Separated
import TableScript.Proofs.Text.Nested

namespace TableScript

open Text

/-! The canonical text of a phrase.  Its quotes and brackets match, it neither
starts nor ends with a blank, and what it shows outside quotes and brackets are
operators that bind at least as tightly as its own. -/

namespace Phrase

/-- What a node has to promise besides its grouping to be written down. -/
def Spelled : Phrase → Prop
  | assign (.parameter name) _ => isIndex name.toList = true
  | builtin name _ => name ≠ "if" ∧ name ≠ "for"
  | literal value => '\'' ∉ value.toList
  | _ => True

instance : DecidablePred Spelled
  | assign (.parameter _) _ => inferInstanceAs (Decidable (_ = true))
  | builtin name _ => inferInstanceAs (Decidable (name ≠ "if" ∧ name ≠ "for"))
  | literal value => inferInstanceAs (Decidable ('\'' ∉ value.toList))
  | assign (.entry _) _ | assign (.register _) _ | assign (.append _) _ | ifHeader _
  | forHeader _ _ | arithmetic _ _ _ | compare _ _ _ | concat _ _ | call _ _ | register _
  | parameter _ | entry _ | element _ _ | reference _ | close => inferInstanceAs (Decidable True)

def WellFormed (phrase : Phrase) : Prop :=
  ∀ node ∈ phrase.nodes, node.Grouped ∧ node.Spelled

instance : DecidablePred WellFormed := fun phrase =>
  inferInstanceAs (Decidable (∀ node ∈ phrase.nodes, node.Grouped ∧ node.Spelled))

def children : Phrase → List Phrase
  | ifHeader condition => [condition]
  | forHeader condition increment => [condition, increment]
  | assign _ value => [value]
  | arithmetic _ left right | compare _ left right | concat left right => [left, right]
  | call _ arguments | builtin _ arguments => arguments
  | element _ key => [key]
  | register _ | parameter _ | entry _ | reference _ | literal _ | close => []

theorem nodesAll_eq_flatMap (phrases : List Phrase) : nodesAll phrases = phrases.flatMap nodes := by
  induction phrases with
  | nil => rfl
  | cons phrase others continued => rw [nodesAll, continued, List.flatMap_cons]

theorem nodes_eq_cons (phrase : Phrase) :
    phrase.nodes = phrase :: phrase.children.flatMap nodes := by
  cases phrase <;> simp [nodes, children, nodesAll_eq_flatMap]

namespace WellFormed

variable {phrase part : Phrase}

theorem self (formed : phrase.WellFormed) : phrase.Grouped ∧ phrase.Spelled :=
  formed phrase (mem_nodes_self phrase)

theorem child (formed : phrase.WellFormed) (member : part ∈ phrase.children) :
    part.WellFormed := by
  intro node inside
  apply formed
  rw [nodes_eq_cons]
  exact List.mem_cons_of_mem phrase (List.mem_flatMap.mpr ⟨part, member, inside⟩)

end WellFormed

end Phrase

/-! ### Texts built from indices -/

section

variable {text : List Char} {c : Char}

theorem nested_of_isIndex (valid : isIndex text = true) : Nested text :=
  .of_plain fun _ member => isDelimiter_of_isIndexChar (isIndexChar_of_mem valid member)

theorem isIndexChar_of_isName (named : isName text = true) (member : c ∈ text) :
    isIndexChar c = true ∧ c ≠ '-' := by
  have word : (c.isAlphanum || c == '_') = true := by
    cases text with
    | nil => cases member
    | cons first rest =>
        simp only [isName, Bool.and_eq_true, List.all_eq_true] at named
        rcases List.mem_cons.mp member with rfl | later
        · have start := named.1
          simp only [Bool.or_eq_true] at start ⊢
          exact start.imp_left fun letter => by simp [Char.isAlphanum, letter]
        · exact named.2 c later
  refine ⟨by simp [isIndexChar, word], ?_⟩
  rintro rfl
  revert word
  decide

end

theorem toList_bracketed (index : String) :
    s!"[{index}]".toList = '[' :: index.toList ++ [']'] := by
  simp [toString]

theorem toList_registered (index : String) :
    s!"[here][{index}]".toList = registerMark ++ ('[' :: index.toList ++ [']']) := by
  simp [toString, registerMark]

theorem toList_dollar (name : String) : s!"${name}".toList = '$' :: name.toList := by
  simp [toString]

theorem toList_reference (index : String) :
    s!"&[{index}]".toList = '&' :: ('[' :: index.toList ++ [']']) := by
  simp [toString]

theorem Target.render_append (index : String) :
    (Target.append index).render = ('[' :: index.toList ++ [']']) ++ ['[', ']'] := by
  simp [Target.render, toString]

theorem Callee.render_method (object function : String) :
    (Callee.method object function).render.toList =
      ('[' :: object.toList ++ [']']) ++ ('[' :: function.toList ++ [']']) := by
  simp [Callee.render, toString]

/-! ### Characters on the surface -/

/-- A character shows in a text only if the outermost operator of the text binds
less tightly than this number; a comma never shows. -/
def grip : Char → Nat
  | ',' => 0
  | '+' | '-' | '%' | '/' => 2
  | '<' | '>' | '=' => 3
  | '^' => 4
  | '(' => 5
  | _ => 6

theorem grip_of_isIndexChar {c : Char} (valid : isIndexChar c = true) (different : c ≠ '-') :
    grip c = 6 := by
  unfold grip
  split <;> first | rfl | exact absurd rfl different | exact absurd valid (by decide)

/-- A text that can begin one whose outermost operator binds as tightly as
`level` says. -/
structure Leading (level : Nat) (text : List Char) : Prop where
  nested : Nested text
  shown : ∀ c ∈ outer .outside text, level < grip c
  start : ∃ c rest, text = c :: rest ∧ isBlank c = false

/-- A text whose outermost operator binds as tightly as `level` says. -/
structure Written (level : Nat) (text : List Char) : Prop extends Leading level text where
  finish : ∃ rest c, text = rest ++ [c] ∧ isBlank c = false ∧ c ∉ Shape.operatorChars

theorem Leading.not_found {level : Nat} {text ahead : List Char}
    {accept : List Char → List Char → Bool} (leading : Leading level text)
    (refused : ∀ c, level < grip c → ∀ read after, accept read (c :: after) = false) :
    ¬ Found accept text ahead :=
  not_found_of_outer fun c member => refused c (leading.shown c member)

section

variable {left symbol right : List Char}

theorem nested_spaced (leftNested : Nested left) (plain : ∀ c ∈ symbol, isDelimiter c = false)
    (rightNested : Nested right) : Nested (spaced left symbol right) := by
  have blank : Nested [' '] := .plain rfl .nil
  exact (((leftNested.append blank).append (.of_plain plain)).append blank).append rightNested

theorem outer_spaced (leftNested : Nested left) (plain : ∀ c ∈ symbol, isDelimiter c = false) :
    outer .outside (spaced left symbol right) =
      outer .outside left ++ [' '] ++ symbol ++ [' '] ++ outer .outside right := by
  have blank : Nested [' '] := .plain rfl .nil
  have before := leftNested.append blank
  have middle := before.append (.of_plain plain)
  rw [spaced, (middle.append blank).outer_append_eq, middle.outer_append_eq,
    before.outer_append_eq, leftNested.outer_append_eq, Nested.outer_of_plain plain]
  rfl

end

namespace Written

variable {level first second : Nat} {text left symbol right inner : List Char}

theorem mono (written : Written second text) (looser : first ≤ second) : Written first text where
  nested := written.nested
  shown c member := Nat.lt_of_le_of_lt looser (written.shown c member)
  start := written.start
  finish := written.finish

theorem given (written : Written level text) : text ≠ [] := by
  obtain ⟨c, rest, rfl, _⟩ := written.start
  simp

theorem trimmed (written : Written level text) : Trimmed text := by
  constructor
  · intro c first
    obtain ⟨d, rest, rfl, visible⟩ := written.start
    cases first
    exact visible
  · intro c last
    obtain ⟨rest, d, rfl, visible, _⟩ := written.finish
    rw [List.getLast?_concat, Option.some.injEq] at last
    rw [← last]
    exact visible

theorem spaced (leftLeading : Leading first left) (rightWritten : Written second right)
    (leftTight : level ≤ first) (rightTight : level ≤ second)
    (plain : ∀ c ∈ symbol, isDelimiter c = false) (seen : ∀ c ∈ symbol, level < grip c)
    (bounded : level ≤ 4) : Written level (spaced left symbol right) where
  nested := nested_spaced leftLeading.nested plain rightWritten.nested
  shown := by
    intro c member
    rw [outer_spaced leftLeading.nested plain] at member
    simp only [List.mem_append, List.mem_singleton] at member
    rcases member with (((inLeft | rfl) | inSymbol) | rfl) | inRight
    · exact Nat.lt_of_le_of_lt leftTight (leftLeading.shown c inLeft)
    · exact Nat.lt_of_le_of_lt bounded (by decide)
    · exact seen c inSymbol
    · exact Nat.lt_of_le_of_lt bounded (by decide)
    · exact Nat.lt_of_le_of_lt rightTight (rightWritten.shown c inRight)
  start := by
    obtain ⟨c, rest, rfl, visible⟩ := leftLeading.start
    exact ⟨c, rest ++ ([' '] ++ symbol ++ [' '] ++ right), by simp [TableScript.spaced], visible⟩
  finish := by
    obtain ⟨rest, c, rfl, visible, ended⟩ := rightWritten.finish
    exact ⟨left ++ [' '] ++ symbol ++ [' '] ++ rest, c, by simp [TableScript.spaced], visible,
      ended⟩

theorem append (leftWritten : Leading level left) (rightWritten : Written level right) :
    Written level (left ++ right) where
  nested := leftWritten.nested.append rightWritten.nested
  shown := by
    intro c member
    rw [leftWritten.nested.outer_append_eq, List.mem_append] at member
    rcases member with inLeft | inRight
    · exact leftWritten.shown c inLeft
    · exact rightWritten.shown c inRight
  start := by
    obtain ⟨c, rest, rfl, visible⟩ := leftWritten.start
    exact ⟨c, rest ++ right, rfl, visible⟩
  finish := by
    obtain ⟨rest, c, rfl, visible, ended⟩ := rightWritten.finish
    exact ⟨left ++ rest, c, (List.append_assoc _ _ _).symm, visible, ended⟩

/-- A text in quotes, parentheses or brackets shows what opens it and no more. -/
theorem group {opening closing : Char} (nested : Nested (opening :: inner ++ [closing]))
    (shown : outer .outside (opening :: inner ++ [closing]) = [opening])
    (opens : level < grip opening ∧ isBlank opening = false)
    (closes : isBlank closing = false ∧ closing ∉ Shape.operatorChars) :
    Written level (opening :: inner ++ [closing]) where
  nested := nested
  shown := by
    intro c member
    rw [shown, List.mem_singleton] at member
    rw [member]
    exact opens.1
  start := ⟨opening, inner ++ [closing], rfl, opens.2⟩
  finish := ⟨opening :: inner, closing, rfl, closes⟩

theorem bracket (inside : Nested inner) : Written 5 ('[' :: inner ++ [']']) :=
  group inside.enclose inside.outer_enclose (by decide) (by decide)

theorem paren (inside : Nested inner) : Written 4 ('(' :: inner ++ [')']) :=
  group inside.apply inside.outer_apply (by decide) (by decide)

theorem quote (unquoted : '\'' ∉ inner) : Written 5 ('\'' :: inner ++ ['\'']) :=
  group (.quote unquoted) (Nested.outer_quote unquoted) (by decide) (by decide)

theorem word (valid : ∀ c ∈ text, isIndexChar c = true ∧ c ≠ '-') (given : text ≠ []) :
    Written 5 text where
  nested := .of_plain fun c member => isDelimiter_of_isIndexChar (valid c member).1
  shown := by
    intro c member
    have plain (c : Char) (member : c ∈ text) : isDelimiter c = false :=
      isDelimiter_of_isIndexChar (valid c member).1
    rw [Nested.outer_of_plain plain] at member
    rw [grip_of_isIndexChar (valid c member).1 (valid c member).2]
    decide
  start := by
    obtain ⟨c, rest, rfl⟩ := List.exists_cons_of_ne_nil given
    exact ⟨c, rest, rfl, isBlank_of_isIndexChar (valid c (by simp)).1⟩
  finish := by
    have last := valid (text.getLast given) (List.getLast_mem given)
    exact ⟨text.dropLast, text.getLast given, (List.dropLast_concat_getLast given).symm,
      isBlank_of_isIndexChar last.1, not_mem_operatorChars last.1 last.2⟩

end Written

theorem leading_sign {c : Char} (sign : c = '$' ∨ c = '&') : Leading 5 [c] where
  nested := .plain (by rcases sign with rfl | rfl <;> rfl) .nil
  shown := by rcases sign with rfl | rfl <;> exact List.forall_mem_singleton.mpr (by decide)
  start := ⟨c, [], rfl, by rcases sign with rfl | rfl <;> decide⟩

/-! ### Every phrase -/

theorem written_bracketed {index : List Char} (valid : isIndex index = true) :
    Written 5 ('[' :: index ++ [']']) :=
  .bracket (nested_of_isIndex valid)

theorem written_registered {index : List Char} (valid : isIndex index = true) :
    Written 5 (registerMark ++ ('[' :: index ++ [']'])) := by
  have mark : Written 5 ('[' :: ['h', 'e', 'r', 'e'] ++ [']']) :=
    .bracket (.of_plain (by simp [isDelimiter]))
  exact .append mark.toLeading (written_bracketed valid)

theorem written_name {name : List Char} (named : isName name = true) : Written 5 name := by
  apply Written.word fun c => isIndexChar_of_isName named
  rintro rfl
  cases named

theorem Callee.written_render {callee : Callee} (valid : callee.Indexed) :
    Written 5 callee.render.toList := by
  cases callee with
  | entry index =>
      rw [render, toList_bracketed]
      exact written_bracketed valid
  | method object function =>
      rw [render_method]
      exact .append (written_bracketed valid.1).toLeading (written_bracketed valid.2)

/-- The name of a parameter may show a `-` here, which nothing before the
assignment sign is searched for. -/
theorem Target.leading_render {target : Target} {value : Phrase}
    (grouped : (Phrase.assign target value).Grouped)
    (spelled : (Phrase.assign target value).Spelled) : Leading 0 target.render := by
  have loosen {text : List Char} (written : Written 5 text) : Leading 0 text :=
    (written.mono (Nat.zero_le 5)).toLeading
  cases target with
  | entry index =>
      rw [render, toList_bracketed]
      exact loosen (written_bracketed grouped)
  | register index =>
      rw [render, toList_registered]
      exact loosen (written_registered grouped)
  | append index =>
      rw [render_append]
      exact loosen (.append (written_bracketed grouped).toLeading (.bracket .nil))
  | parameter name =>
      have valid : isIndex name.toList = true := spelled
      have nested : Nested ('$' :: name.toList) := .plain rfl (nested_of_isIndex valid)
      rw [render, toList_dollar]
      refine ⟨nested, ?_, '$', name.toList, rfl, by decide⟩
      intro c member
      rcases List.mem_cons.mp (mem_of_mem_outer member) with rfl | inside
      · decide
      · by_cases dash : c = '-'
        · rw [dash]
          decide
        · rw [grip_of_isIndexChar (isIndexChar_of_mem valid inside) dash]
          decide

namespace Phrase

theorem nested_commaSeparated {texts : List (List Char)} (nested : ∀ text ∈ texts, Nested text) :
    Nested (commaSeparated texts) := by
  induction texts with
  | nil => exact .nil
  | cons item others continued =>
      rw [List.forall_mem_cons] at nested
      cases others with
      | nil => exact nested.1
      | cons next later =>
          have separator : Nested [',', ' '] := .of_plain (by simp [isDelimiter])
          exact (nested.1.append separator).append (continued nested.2)

/-- The binding of a phrase, with calls told from what shows no parenthesis. -/
def firmness : Phrase → Nat
  | assign _ _ => 0
  | arithmetic _ _ _ => 1
  | compare _ _ _ => 2
  | concat _ _ => 3
  | call _ _ | builtin _ _ => 4
  | _ => 5

theorem binding_le_firmness (phrase : Phrase) : phrase.binding ≤ phrase.firmness := by
  cases phrase <;> simp [binding, firmness]

mutual

theorem written_firm (phrase : Phrase) (formed : phrase.WellFormed) :
    Written phrase.firmness phrase.render := by
  obtain ⟨grouped, spelled⟩ := formed.self
  cases phrase with
  | ifHeader _ | forHeader _ _ | close => exact grouped.elim
  | assign target value =>
      have valueWritten := written_firm value (formed.child (by simp [children]))
      change Written 0 _
      exact .spaced (Target.leading_render grouped spelled) valueWritten (Nat.zero_le _)
        (Nat.zero_le _) (List.forall_mem_singleton.mpr rfl)
        (List.forall_mem_singleton.mpr (by decide)) (by decide)
  | arithmetic op left right =>
      have leftWritten := written_firm left (formed.child (by simp [children]))
      have rightWritten := written_firm right (formed.child (by simp [children]))
      have leftFirm : 2 ≤ left.firmness := Nat.le_trans grouped.1 (binding_le_firmness left)
      have rightFirm : 1 ≤ right.firmness := Nat.le_trans grouped.2 (binding_le_firmness right)
      change Written 1 _
      exact .spaced leftWritten.toLeading rightWritten (Nat.le_of_succ_le leftFirm) rightFirm
        (List.forall_mem_singleton.mpr (Shape.isDelimiter_symbol op))
        (List.forall_mem_singleton.mpr (by cases op <;> decide)) (by decide)
  | compare op left right =>
      have leftWritten := written_firm left (formed.child (by simp [children]))
      have rightWritten := written_firm right (formed.child (by simp [children]))
      have leftFirm : 2 ≤ left.firmness := Nat.le_trans grouped.1 (binding_le_firmness left)
      have rightFirm : 2 ≤ right.firmness := Nat.le_trans grouped.2.1 (binding_le_firmness right)
      change Written 2 _
      exact .spaced leftWritten.toLeading rightWritten leftFirm rightFirm
        (Shape.isDelimiter_comparison op) (by cases op <;> simp [Comparison.symbol, grip])
        (by decide)
  | concat left right =>
      have leftWritten := written_firm left (formed.child (by simp [children]))
      have rightWritten := written_firm right (formed.child (by simp [children]))
      have leftFirm : 4 ≤ left.firmness := Nat.le_trans grouped.1 (binding_le_firmness left)
      have rightFirm : 3 ≤ right.firmness := Nat.le_trans grouped.2 (binding_le_firmness right)
      change Written 3 _
      exact .spaced leftWritten.toLeading rightWritten (Nat.le_of_succ_le leftFirm) rightFirm
        (List.forall_mem_singleton.mpr rfl) (List.forall_mem_singleton.mpr (by decide)) (by decide)
  | call callee arguments =>
      have inside := nested_commaSeparated (nested_renderAll arguments fun _ => formed.child)
      have front : Written 4 callee.render.toList :=
        (Callee.written_render grouped).mono (by decide)
      rw [render, List.append_assoc, List.append_assoc]
      exact .append front.toLeading (.paren inside)
  | builtin name arguments =>
      have inside := nested_commaSeparated (nested_renderAll arguments fun _ => formed.child)
      have front : Written 4 name.toList := (written_name grouped).mono (by decide)
      rw [render, List.append_assoc, List.append_assoc]
      exact .append front.toLeading (.paren inside)
  | register index =>
      rw [render, toList_registered]
      exact written_registered grouped
  | parameter name =>
      rw [render, toList_dollar]
      have valid (c : Char) (member : c ∈ name.toList) : isIndexChar c = true ∧ c ≠ '-' := by
        refine ⟨isIndexChar_of_mem grouped.1 member, ?_⟩
        rintro rfl
        exact grouped.2 member
      exact .append (leading_sign (.inl rfl)) (.word valid (isIndex_ne_nil grouped.1))
  | entry index =>
      rw [render, toList_bracketed]
      exact written_bracketed grouped
  | element index key =>
      have keyWritten := written_firm key (formed.child (by simp [children]))
      rw [render, toList_bracketed, List.append_assoc, List.append_assoc]
      exact .append (written_bracketed grouped).toLeading (.bracket keyWritten.nested)
  | reference index =>
      rw [render, toList_reference]
      exact .append (leading_sign (.inr rfl)) (written_bracketed grouped)
  | literal value => exact .quote spelled

theorem nested_renderAll (phrases : List Phrase)
    (formed : ∀ phrase ∈ phrases, phrase.WellFormed) :
    ∀ text ∈ renderAll phrases, Nested text := by
  cases phrases with
  | nil => simp [renderAll]
  | cons phrase others =>
      rw [List.forall_mem_cons] at formed
      exact List.forall_mem_cons.mpr
        ⟨(written_firm phrase formed.1).nested, nested_renderAll others formed.2⟩

end

theorem written_render (phrase : Phrase) (formed : phrase.WellFormed) :
    Written phrase.binding phrase.render :=
  (written_firm phrase formed).mono (binding_le_firmness phrase)

end Phrase

end TableScript
