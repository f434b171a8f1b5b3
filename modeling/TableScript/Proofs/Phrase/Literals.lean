import TableScript.Proofs.Phrase.Written
import TableScript.Proofs.Text.Paired

namespace TableScript

open Text

/-! Quotes in phrases.  The searches for operators and separators skip what stands
between quotes, but the last recogniser takes all that stands between two quotes for
one literal, more quotes included.  So a literal holds no quote, and the quotes of a
text come in pairs, in every phrase but those that have such a text for a part. -/

namespace Shape

/-- The texts that are read in turn. -/
def operands : Shape → List (List Char)
  | leaf _ => []
  | assign _ value => [value]
  | arithmetic _ left right | compare _ left right | concat left right => [left, right]
  | call _ arguments | builtin _ arguments => arguments
  | element _ key => [key]

theorem operands_applied? {callee : List Char} {arguments : List (List Char)} {shape : Shape}
    (found : applied? callee arguments = some shape) : shape.operands = arguments := by
  unfold applied? at found
  split at found
  · split at found
    · cases found
    · split at found
      · cases found
        rfl
      · obtain ⟨function, _, rfl⟩ := Option.map_eq_some_iff.mp found
        rfl
  · split at found
    · cases found
      rfl
    · cases found

/-- A call is cut at its parentheses, the last of which ends the text. -/
theorem call?_eq_some {text : List Char} {shape : Shape} (found : call? text = some shape) :
    ∃ callee inside, text = callee ++ '(' :: (inside ++ [')']) ∧
      (Nesting.outside.after callee).isOutside = true ∧ shape.operands = arguments inside := by
  unfold call? at found
  split at found
  · rename_i callee rest opened
    obtain ⟨whole, outside⟩ := openingParen?_eq_some opened
    split at found
    · rename_i inside closed
      refine ⟨callee, inside, ?_, outside, operands_applied? found⟩
      rw [whole, closingParen?_eq_append closed]
    · cases found
  · cases found

theorem paired_of_arguments {inside : List Char}
    (paired : ∀ argument ∈ arguments inside, Paired argument) : Paired inside := by
  unfold arguments at paired
  split at paired
  · rename_i blank
    apply paired_of_not_mem
    intro member
    have visible := mem_trim member (by decide)
    rw [List.isEmpty_iff.mp blank] at visible
    cases visible
  · exact paired_of_surfacePieces (by decide) paired

/-! ### Single words -/

theorem quote_not_mem_of_isIndex_trim {text : List Char} (valid : isIndex (trim text) = true) :
    '\'' ∉ text := fun member =>
  not_mem_of_isIndex valid (by decide) (mem_trim member (by decide))

theorem quote_not_mem_of_bracketedIndex? {text : List Char} {index : String}
    (found : bracketedIndex? text = some index) : '\'' ∉ text := by
  unfold bracketedIndex? at found
  split at found
  · rename_i inside bracket
    obtain ⟨held, enclosed, rfl⟩ := Option.map_eq_some_iff.mp bracket
    split at found
    · rename_i valid
      rw [between?_eq_some enclosed]
      simpa using quote_not_mem_of_isIndex_trim valid
    · cases found
  · cases found

theorem quote_not_mem_of_digits? {text : List Char} {n : Nat}
    (found : Number.digits? text = some n) : '\'' ∉ text := by
  unfold Number.digits? at found
  split at found
  · cases found
  · rename_i digits
    simp only [Bool.or_eq_true, Bool.not_eq_true', not_or, Bool.not_eq_false, List.all_eq_true]
      at digits
    intro member
    exact absurd (digits.2 '\'' member) (by decide)

theorem quote_not_mem_of_read? {text : List Char} (number : (Number.read? text).isSome = true) :
    '\'' ∉ text := by
  obtain ⟨value, read⟩ := Option.isSome_iff_exists.mp number
  have signed : Number.signed? text = some value := (Option.filter_eq_some_iff.mp read).1
  have digital {rest : List Char} (some : Number.digits? rest ≠ none) : '\'' ∉ rest := by
    obtain ⟨n, digits⟩ := Option.ne_none_iff_exists'.mp some
    exact quote_not_mem_of_digits? digits
  unfold Number.signed? at signed
  split at signed
  · rename_i rest
    have inside : '\'' ∉ rest := digital fun none => by simp [none] at signed
    simpa using inside
  · rename_i rest
    have inside : '\'' ∉ rest := digital fun none => by simp [none] at signed
    simpa using inside
  · exact digital fun none => by simp [none] at signed

/-! ### The last recogniser -/

/-- A leaf whose literals hold no quotes. -/
def Unquoted (shape : Shape) : Prop :=
  ∀ phrase value, shape = .leaf phrase → .literal value ∈ phrase.nodes → '\'' ∉ value.toList

/-- What is found without quotes in a literal has its quotes in pairs if its operands
have. -/
def Tidy (text : List Char) (shape : Shape) : Prop :=
  shape.Unquoted ∧ ((∀ operand ∈ shape.operands, Paired operand) → Paired text)

/-- Behind an operator on the surface the quotes start anew. -/
theorem tidy_of_parted {text left separator right : List Char} {shape : Shape}
    (parted : Parted text left separator right) (operand : right ∈ shape.operands)
    (branch : ∀ phrase, shape ≠ .leaf phrase) : Tidy text shape :=
  ⟨fun phrase _ same => absurd same (branch phrase),
    fun operands => parted.paired (operands right operand)⟩

theorem unquoted_of_plain {phrase : Phrase} (plain : phrase.nodes = [phrase])
    (other : ∀ value, phrase ≠ .literal value) : Unquoted (.leaf phrase) := by
  intro leaf value same member
  cases same
  rw [plain, List.mem_singleton] at member
  exact absurd member.symm (other value)

theorem tidy_entry {text : List Char} {shape : Shape} (found : entry text = .ok shape) :
    Tidy text shape := by
  unfold entry at found
  split at found
  · rename_i index rest bracket
    obtain ⟨first, rfl, rfl⟩ := firstBracket?_eq_some bracket
    split at found
    · cases found
    · rename_i valid
      have plain : '\'' ∉ first := quote_not_mem_of_isIndex_trim (by simpa using valid)
      have front : Paired ('[' :: first ++ [']']) :=
        (paired_of_not_mem plain).enclosed (by decide)
      split at found
      · rename_i alone
        cases found
        subst alone
        exact ⟨unquoted_of_plain rfl (by simp), fun _ => front⟩
      · split at found
        · rename_i inside whole
          obtain ⟨held, enclosed, rfl⟩ := Option.map_eq_some_iff.mp whole
          rw [between?_eq_some enclosed]
          have paired (inner : Paired held) :
              Paired ('[' :: first ++ ']' :: ('[' :: held ++ [']'])) := by
            simpa using front.append (inner.enclosed (by decide : '[' ≠ '\'' ∧ ']' ≠ '\''))
          split at found
          · rename_i key
            cases found
            refine ⟨?_, fun _ => paired (paired_of_not_mem (quote_not_mem_of_isIndex_trim key))⟩
            intro phrase value same member
            cases same
            simp only [Phrase.nodes, List.mem_cons, List.not_mem_nil, or_false, reduceCtorEq,
              false_or] at member
            cases member
            rw [String.toList_ofList]
            exact not_mem_of_isIndex key (by decide)
          · cases found
            exact ⟨nofun, fun operand => paired (paired_trim.mp (operand _ List.mem_cons_self))⟩
        · cases found
  · cases found

theorem literal_cases {text : List Char} {shape : Shape} (found : literal text = .ok shape) :
    Tidy text shape ∨ ∃ value, '\'' ∈ value ∧ text = '\'' :: value ++ ['\''] := by
  have tidy {value : List Char} (plain : '\'' ∉ value) (paired : Paired text) :
      Tidy text (.leaf (.literal (String.ofList value))) := by
    refine ⟨fun phrase inner same member => ?_, fun _ => paired⟩
    cases same
    cases List.mem_singleton.mp member
    rwa [String.toList_ofList]
  unfold literal at found
  split at found
  · rename_i value quoted
    have whole := between?_eq_some quoted
    cases found
    by_cases inside : '\'' ∈ value
    · exact .inr ⟨value, inside, whole⟩
    · refine .inl (tidy inside ?_)
      rw [whole, Paired]
      simp [List.count_eq_zero.mpr inside]
  · split at found
    · rename_i number
      cases found
      have plain := quote_not_mem_of_read? number
      exact .inl (tidy plain (paired_of_not_mem plain))
    · cases found

theorem atom_cases {text : List Char} {shape : Shape} (found : atom text = .ok shape) :
    Tidy text shape ∨ ∃ value, '\'' ∈ value ∧ text = '\'' :: value ++ ['\''] := by
  unfold atom at found
  split at found
  · rename_i rest mark
    have whole := List.isPrefixOf?_eq_some_iff_append_eq.mp mark
    split at found
    · rename_i index bracketed
      cases found
      refine .inl ⟨unquoted_of_plain rfl (by simp), fun _ => paired_of_not_mem ?_⟩
      rw [← whole]
      simpa [registerMark] using quote_not_mem_of_bracketedIndex? bracketed
    · cases found
  · split at found
    · rename_i name _
      split at found
      · rename_i valid
        cases found
        refine .inl ⟨unquoted_of_plain rfl (by simp), fun _ => paired_of_not_mem ?_⟩
        simpa using not_mem_of_isIndex valid (by decide)
      · cases found
    · exact .inl (tidy_entry found)
    · rename_i rest _
      split at found
      · rename_i index bracketed
        cases found
        refine .inl ⟨unquoted_of_plain rfl (by simp), fun _ => paired_of_not_mem ?_⟩
        simpa using quote_not_mem_of_bracketedIndex? bracketed
      · cases found
    · exact literal_cases found

end Shape

/-- A text between two quotes that holds more of them, without an operator outside
quotes and brackets: several literals side by side, or a quote that is not closed. -/
structure Overquoted (text : List Char) : Prop where
  quoted : ∃ inner, text = '\'' :: inner ++ ['\''] ∧ '\'' ∈ inner
  unassigned : Shape.assignment? text = none
  uncomputed : Shape.arithmetic? text = none
  uncompared : Shape.comparison? text = none
  unjoined : surfaceSplit? ['^'] text = none

/-- It is taken for one literal all the same. -/
theorem Overquoted.shape_eq {text : List Char} (excess : Overquoted text) :
    ∃ value, shape text = .ok (.leaf (.literal (String.ofList value))) ∧ '\'' ∈ value := by
  obtain ⟨inner, rfl, inside⟩ := excess.quoted
  refine ⟨inner, ?_, inside⟩
  have uncalled : Shape.call? ('\'' :: inner ++ ['\'']) = none := by
    rw [Option.eq_none_iff_forall_ne_some]
    intro construct called
    obtain ⟨callee, arguments, whole, _⟩ := Shape.call?_eq_some called
    have last := congrArg List.getLast? whole
    rw [List.getLast?_concat, ← List.cons_append, ← List.append_assoc, List.getLast?_concat] at last
    cases last
  have literal : Shape.atom ('\'' :: inner ++ ['\'']) =
      .ok (.leaf (.literal (String.ofList inner))) := by
    have quoted : quoted? ('\'' :: inner ++ ['\'']) = some inner := between?_append _ _ _
    have last : Shape.atom ('\'' :: inner ++ ['\'']) =
        Shape.literal ('\'' :: inner ++ ['\'']) := rfl
    rw [last, Shape.literal, quoted]
  exact shape_of_shaped (List.cons_ne_nil _ _)
    (.atom excess.unassigned excess.uncomputed excess.uncompared uncalled excess.unjoined literal)

/-- Whatever is recognised is tidy, or taken for a literal though it is none. -/
theorem tidy_or_overquoted {text : List Char} {construct : Shape}
    (found : shape text = .ok construct) :
    Shape.Tidy text construct ∨ Overquoted text := by
  cases (shaped_of_shape found).2 with
  | assign cut goal =>
      obtain ⟨whole, hit⟩ := Shape.hit_of_assignment? cut
      have plain : ∀ c ∈ ['='], isDelimiter c = false := List.forall_mem_singleton.mpr rfl
      have parted : Parted text _ ['='] _ := ⟨by simpa using whole, hit.outside, plain⟩
      exact .inl (Shape.tidy_of_parted parted (by simp [Shape.operands]) nofun)
  | arithmetic _ cut =>
      have parted := (Shape.arithmetic?_eq_some cut).1
      exact .inl (Shape.tidy_of_parted parted (by simp [Shape.operands]) nofun)
  | compare _ _ cut =>
      have parted := (surfaceSplit?_eq_some (Shape.isDelimiter_comparison _)
        (Shape.comparison?_eq_some cut).1).1
      exact .inl (Shape.tidy_of_parted parted (by simp [Shape.operands]) nofun)
  | concat _ _ _ _ cut =>
      have parted := (surfaceSplit?_eq_some (List.forall_mem_singleton.mpr rfl) cut).1
      exact .inl (Shape.tidy_of_parted parted (by simp [Shape.operands]) nofun)
  | call _ _ _ applied =>
      obtain ⟨callee, inside, rfl, outside, same⟩ := Shape.call?_eq_some applied
      refine .inl ⟨?_, fun operands => ?_⟩
      · rintro phrase value rfl
        cases Shape.applied_of_call? applied
      · rw [same] at operands
        exact (paired_of_isOutside outside).append
          ((Shape.paired_of_arguments operands).enclosed (by decide))
  | atom unassigned uncomputed uncompared _ unjoined found =>
      rcases Shape.atom_cases found with tidy | ⟨value, inside, whole⟩
      · exact .inl tidy
      · exact .inr ⟨⟨value, whole, inside⟩, unassigned, uncomputed, uncompared, unjoined⟩

/-! ### All parts of a text -/

/-- A text that is read on the way: the text itself, or a part of one of its operands. -/
inductive Piece : List Char → List Char → Prop
  | self (text : List Char) : Piece text text
  | operand {text operand piece : List Char} {construct : Shape}
      (found : shape (trim text) = .ok construct) (member : operand ∈ construct.operands)
      (inner : Piece operand piece) : Piece text piece

theorem length_le_totalLength {text : List Char} {texts : List (List Char)}
    (member : text ∈ texts) : text.length ≤ totalLength texts := by
  induction texts with
  | nil => cases member
  | cons first others continued =>
      rw [totalLength]
      rcases List.mem_cons.mp member with rfl | later
      · omega
      · have bound := continued later
        omega

theorem length_operand {text operand : List Char} {construct : Shape}
    (found : shape (trim text) = .ok construct) (member : operand ∈ construct.operands) :
    operand.length < text.length := by
  have weight := Shape.weight_shape_trim found
  cases construct with
  | leaf phrase => cases member
  | assign target value | element index key =>
      cases List.mem_singleton.mp member
      exact weight
  | arithmetic op left right | compare op left right | concat left right =>
      simp only [Shape.operands, List.mem_cons, List.not_mem_nil, or_false] at member
      simp only [Shape.weight] at weight
      rcases member with rfl | rfl <;> omega
  | call callee arguments | builtin name arguments =>
      exact Nat.lt_of_le_of_lt (length_le_totalLength member) weight

namespace Phrase

theorem ReadsAll.exists_phrase {texts : List (List Char)} {phrases : List Phrase}
    (reads : ReadsAll texts phrases) {text : List Char} (member : text ∈ texts) :
    ∃ phrase ∈ phrases, Reads text phrase := by
  cases reads with
  | nil => cases member
  | cons first rest =>
      rcases List.mem_cons.mp member with rfl | later
      · exact ⟨_, List.mem_cons_self, first⟩
      · obtain ⟨phrase, found, read⟩ := rest.exists_phrase later
        exact ⟨phrase, List.mem_cons_of_mem _ found, read⟩

theorem ReadsAll.exists_text {texts : List (List Char)} {phrases : List Phrase}
    (reads : ReadsAll texts phrases) {phrase : Phrase} (member : phrase ∈ phrases) :
    ∃ text ∈ texts, Reads text phrase := by
  cases reads with
  | nil => cases member
  | cons first rest =>
      rcases List.mem_cons.mp member with rfl | later
      · exact ⟨_, List.mem_cons_self, first⟩
      · obtain ⟨text, found, read⟩ := rest.exists_text later
        exact ⟨text, List.mem_cons_of_mem _ found, read⟩

/-- A phrase is a leaf, or its children are read from the operands. -/
theorem Reads.operands {text : List Char} {phrase : Phrase} (reads : Reads text phrase) :
    ∃ construct, shape (trim text) = .ok construct ∧
      (construct = .leaf phrase ∨
        ReadsAll construct.operands phrase.children ∧ ∀ value, phrase ≠ .literal value) := by
  cases reads with
  | leaf found => exact ⟨_, found, .inl rfl⟩
  | assign found inner | element found inner =>
      exact ⟨_, found, .inr ⟨.cons inner .nil, nofun⟩⟩
  | arithmetic found leftRead rightRead | compare found leftRead rightRead
  | concat found leftRead rightRead =>
      exact ⟨_, found, .inr ⟨.cons leftRead (.cons rightRead .nil), nofun⟩⟩
  | call found inner | builtin found inner => exact ⟨_, found, .inr ⟨inner, nofun⟩⟩

/-- No literal of the phrase holds a quote. -/
def SingleLiterals (phrase : Phrase) : Prop :=
  ∀ value, .literal value ∈ phrase.nodes → '\'' ∉ value.toList

/-- Without an overquoted part, quotes come in pairs and literals hold none. -/
theorem Reads.tidy {text : List Char} {phrase : Phrase} (reads : Reads text phrase)
    (clean : ∀ piece, Piece text piece → ¬ Overquoted (trim piece)) :
    phrase.SingleLiterals ∧ Paired text := by
  -- By induction on the length of the text, because operands are cut out of it.
  induction size : text.length using Nat.strongRecOn generalizing text phrase with
  | ind _ shorter =>
      subst size
      obtain ⟨construct, found, parts⟩ := reads.operands
      rcases tidy_or_overquoted found with ⟨unquoted, paired⟩ | excess
      · have inner : ∀ operand ∈ construct.operands, ∀ child, Reads operand child →
            child.SingleLiterals ∧ Paired operand := fun operand member child read =>
          shorter operand.length (length_operand found member) read
            (fun piece part => clean piece (.operand found member part)) rfl
        rw [← paired_trim]
        rcases parts with rfl | ⟨childrenRead, other⟩
        · exact ⟨fun value => unquoted phrase value rfl, paired (List.forall_mem_nil _)⟩
        · refine ⟨fun value member => ?_, paired fun operand member => ?_⟩
          · rw [nodes_eq_cons, List.mem_cons, List.mem_flatMap] at member
            rcases member with same | ⟨child, among, inside⟩
            · exact absurd same.symm (other value)
            · obtain ⟨operand, source, read⟩ := childrenRead.exists_text among
              exact (inner operand source child read).1 value inside
          · obtain ⟨child, _, read⟩ := childrenRead.exists_phrase member
            exact (inner operand member child read).2
      · exact absurd excess (clean text (.self text))

/-- An overquoted part is a literal that holds quotes. -/
theorem Reads.exists_literal {text piece : List Char} (part : Piece text piece)
    (excess : Overquoted (trim piece)) {phrase : Phrase} (reads : Reads text phrase) :
    ∃ value, .literal value ∈ phrase.nodes ∧ '\'' ∈ value.toList := by
  induction part generalizing phrase with
  | self text =>
      obtain ⟨value, found, inside⟩ := excess.shape_eq
      have whole : Reads text (.literal (String.ofList value)) := .leaf found
      cases reads.read_eq_ok.symm.trans whole.read_eq_ok
      exact ⟨String.ofList value, mem_nodes_self _, by rwa [String.toList_ofList]⟩
  | @operand text operand piece construct found member inner continued =>
      obtain ⟨other, again, parts⟩ := reads.operands
      cases found.symm.trans again
      rcases parts with rfl | ⟨childrenRead, _⟩
      · cases member
      · obtain ⟨child, among, read⟩ := childrenRead.exists_phrase member
        obtain ⟨value, literal, inside⟩ := continued excess read
        refine ⟨value, ?_, inside⟩
        rw [nodes_eq_cons]
        exact List.mem_cons_of_mem _ (List.mem_flatMap.mpr ⟨child, among, literal⟩)

/-- In an accepted text the literals hold no quotes if and only if no part of the text
is overquoted; and then the quotes of the text come in pairs. -/
theorem literals_single {text : List Char} {phrase : Phrase} (accepted : read text = .ok phrase) :
    (phrase.SingleLiterals ↔ ∀ piece, Piece text piece → ¬ Overquoted (trim piece)) ∧
    ((∀ piece, Piece text piece → ¬ Overquoted (trim piece)) → Paired text) := by
  have reads := read_eq_ok_iff.mp accepted
  refine ⟨⟨fun single piece part excess => ?_, fun clean => ?_⟩, fun clean => ?_⟩
  · obtain ⟨value, literal, inside⟩ := Reads.exists_literal part excess reads
    exact single value literal inside
  · exact (reads.tidy clean).1
  · exact (reads.tidy clean).2

/-- Literals as operands, as an argument and as an element. -/
theorem literals_single_nested :
    read "out('a, ' ^ [k]['b)'], 'c')".toList = .ok (.builtin "out"
        [.concat (.literal "a, ") (.element "k" (.literal "b)")), .literal "c"]) ∧
      Paired "out('a, ' ^ [k]['b)'], 'c')".toList := by
  have accepted : read "out('a, ' ^ [k]['b)'], 'c')".toList = .ok (.builtin "out"
      [.concat (.literal "a, ") (.element "k" (.literal "b)")), .literal "c"]) :=
    (Reads.builtin rfl (.cons (.concat rfl (.leaf rfl) (.element rfl (.leaf rfl)))
      (.cons (.leaf rfl) .nil))).read_eq_ok
  obtain ⟨exactly, even⟩ := literals_single accepted
  refine ⟨accepted, even (exactly.mp fun value member => ?_)⟩
  simp only [nodes, nodesAll, List.append_nil, List.mem_cons, List.mem_append, List.not_mem_nil,
    or_false, reduceCtorEq, false_or, literal.injEq] at member
  rcases member with (rfl | rfl) | rfl <;> decide

/-- Two literals side by side are read as one, and so is a quote between quotes, which is
not closed; in an argument and in an element as well. -/
theorem literals_merged :
    (read "'a' 'b'".toList = .ok (.literal "a' 'b") ∧ ¬ SingleLiterals (.literal "a' 'b")) ∧
      (read "'''".toList = .ok (.literal "'") ∧ ¬ Paired "'''".toList) ∧
      read "f('a' 'b', [k]['c' 'd'])".toList = .ok (.builtin "f"
        [.literal "a' 'b", .element "k" (.literal "c' 'd")]) := by
  have inside : '\'' ∈ "a' 'b".toList := by decide
  have odd : ¬ "'''".toList.count '\'' % 2 = 0 := by decide
  refine ⟨⟨(Reads.leaf rfl).read_eq_ok, fun single => ?_⟩, ⟨(Reads.leaf rfl).read_eq_ok, odd⟩, ?_⟩
  · exact single "a' 'b" (mem_nodes_self _) inside
  · have arguments : ReadsAll ["'a' 'b'".toList, " [k]['c' 'd']".toList]
        [.literal "a' 'b", .element "k" (.literal "c' 'd")] :=
      .cons (.leaf rfl) (.cons (.element rfl (.leaf rfl)) .nil)
    exact (Reads.builtin rfl arguments).read_eq_ok

end Phrase

end TableScript
