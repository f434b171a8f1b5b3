import TableScript.Proofs.Layout.Replacement
import TableScript.Proofs.Text.Quoted

namespace TableScript.Layout

open Text

/-! Comments.  Outside functions the reader has one flag for block comments, and
every function has one of its own; together they say whether the number of
comment marks so far is odd, as long as no function is closed by a line that is
commented out.  A line comment is cut off before the line is looked at, but for
the brace that closes a function. -/

/-- The lines that start or end a block comment among the first `count`. -/
def marks (source : List Char) (count : Nat) : Nat :=
  ((lines source).take count).countP isCommentMark

/-- The line after `count` others stands inside a block comment. -/
def CommentedOut (source : List Char) (count : Nat) : Prop :=
  marks source count % 2 = 1 ∧
    ∃ line, (lines source)[count]? = some line ∧ isCommentMark line = false

/-- The reader is inside a function when it comes to the line after `count` others. -/
def InFunction (source : List Char) (count : Nat) : Prop :=
  ∃ opened, (reached source count).phase = .function opened

/-- A function is closed by a line that is commented out. -/
def ClosedInComment (source : List Char) (count : Nat) : Prop :=
  CommentedOut source count ∧ InFunction source count ∧
    (lines source)[count]? = some ['\x7d']

/-! ### The flags -/

/-- The flag that counts says whether the number of comment marks is odd. -/
structure Tracks (odd : Bool) (layout : Layout) : Prop where
  outside : layout.phase = .preamble ∨ layout.phase = .body → layout.commented = odd
  inside : ∀ opened, layout.phase = .function opened →
    opened.commented = odd ∧ layout.commented = false

namespace Tracks

variable {odd : Bool} {layout : Layout}

/-- Once the program is closed or has failed, no flag counts. -/
theorem idle (unstarted : layout.phase ≠ .preamble) (left : layout.phase ≠ .body)
    (unopened : ∀ opened, layout.phase ≠ .function opened) : Tracks odd layout :=
  ⟨fun outside => (outside.elim unstarted left).elim,
    fun opened here => absurd here (unopened opened)⟩

theorem fail (layout : Layout) (fault : LayoutFault) : Tracks odd (layout.fail fault) :=
  idle nofun nofun fun _ => nofun

/-- Outside functions only the flag of the layout counts. -/
theorem enter {phase : Phase} (agrees : layout.commented = odd)
    (unopened : ∀ opened, phase ≠ .function opened) :
    Tracks odd { layout with phase := phase } :=
  ⟨fun _ => agrees, fun opened same => absurd same (unopened opened)⟩

theorem note (tracks : Tracks odd layout) (event : Event) : Tracks odd (layout.note event) :=
  ⟨tracks.outside, tracks.inside⟩

theorem add (tracks : Tracks odd layout) (declaration : Declaration FunctionText) :
    Tracks odd (layout.add declaration) := by
  unfold Layout.add
  split <;> simp only <;> split <;> exact ⟨tracks.outside, tracks.inside⟩

theorem define (tracks : Tracks odd layout) (line : List Char) :
    Tracks odd (layout.define line) := by
  unfold Layout.define
  split
  · exact ⟨tracks.outside, tracks.inside⟩
  · exact .fail _ _

theorem startLine (agrees : layout.commented = odd) (line : List Char) :
    Tracks odd (layout.startLine line) := by
  unfold Layout.startLine
  split
  · exact enter agrees fun _ same => nomatch same
  · split <;> exact .fail _ _

theorem openObject (tracks : Tracks odd layout) (index : List Char) :
    Tracks odd (layout.openObject index) := by
  unfold Layout.openObject
  split
  · exact ⟨tracks.outside, tracks.inside⟩
  · exact .fail _ _

theorem closeBracket (tracks : Tracks odd layout) : Tracks odd layout.closeBracket := by
  unfold Layout.closeBracket
  split
  · rename_i object outer _
    have closed : Tracks odd { layout with objects := outer } := ⟨tracks.outside, tracks.inside⟩
    exact (closed.note _).add _
  · exact idle nofun nofun fun _ => nofun

/-- Inside a function its own flag counts. -/
theorem function {opened : OpenFunction} (here : layout.phase = .function opened)
    (agrees : opened.commented = odd) (clear : layout.commented = false) : Tracks odd layout := by
  refine ⟨fun outside => ?_, fun other same => ?_⟩
  · rcases outside with same | same <;> cases here.symm.trans same
  · cases here.symm.trans same
    exact ⟨agrees, clear⟩

/-- A function starts outside comments. -/
theorem openFunction (agrees : layout.commented = false) (line : List Char) :
    Tracks false (layout.openFunction line) := by
  unfold Layout.openFunction
  split
  · split
    · exact function rfl rfl agrees
    · exact .fail _ _
  · exact .fail _ _

theorem addEntry (tracks : Tracks odd layout) (line : List Char) :
    Tracks odd (layout.addEntry line) := by
  unfold Layout.addEntry
  split
  · split
    · exact .fail _ _
    · split <;> exact (tracks.note _).add _
  · exact .fail _ _

theorem bodyLine (tracks : Tracks false layout) (agrees : layout.commented = false)
    (line : List Char) : Tracks false (layout.bodyLine line) := by
  unfold Layout.bodyLine
  split
  · exact tracks.openObject _
  · split
    · exact tracks.closeBracket
    · split
      · exact .fail _ _
      · split
        · exact .openFunction agrees line
        · exact tracks.addEntry line

/-- Outside functions a mark turns the flag, and other lines that are commented out
leave everything alone. -/
theorem plainLine (tracks : Tracks odd layout)
    (unopened : layout.phase = .preamble ∨ layout.phase = .body) {raw : List Char}
    {take : Layout → List Char → Layout}
    (taken : Tracks false layout → Tracks false (take layout (withoutComment raw))) :
    Tracks (odd ^^ isCommentMark raw) (layout.plainLine raw take) := by
  have agrees := tracks.outside unopened
  unfold Layout.plainLine
  split
  · rename_i marked
    rw [marked, Bool.xor_true, ← agrees]
    refine ⟨fun _ => rfl, fun opened same => ?_⟩
    rcases unopened with here | here <;> cases here.symm.trans same
  · rename_i unmarked
    rw [Bool.not_eq_true] at unmarked
    rw [unmarked, Bool.xor_false]
    split
    · exact tracks
    · rename_i plain
      have clear : layout.commented = false := by
        cases flag : layout.commented with
        | false => rfl
        | true => simp [flag] at plain
      rw [← agrees, clear] at tracks ⊢
      exact taken tracks

/-- Inside a function the flag of the function counts; it is lost when the function
is closed. -/
theorem functionLine {opened : OpenFunction} (tracks : Tracks odd layout)
    (phase : layout.phase = .function opened) {raw : List Char}
    (unclosed : raw = ['\x7d'] → odd = false) :
    Tracks (odd ^^ isCommentMark raw) (layout.functionLine opened raw) := by
  obtain ⟨flag, clear⟩ := tracks.inside opened phase
  unfold Layout.functionLine
  split
  · rename_i closing
    have unmarked : isCommentMark raw = false := by rw [closing]; rfl
    have closed : Tracks false { layout with phase := .body } :=
      enter clear fun _ same => nomatch same
    rw [unmarked, Bool.xor_false, unclosed closing]
    exact (closed.note _).add _
  · split
    · rename_i marked
      rw [marked, Bool.xor_true, ← flag]
      exact function rfl rfl clear
    · rename_i unmarked
      rw [Bool.not_eq_true] at unmarked
      rw [unmarked, Bool.xor_false]
      split
      · exact tracks
      · exact function rfl flag clear

/-- The flags keep counting with every line, unless one that is commented out closes a
function. -/
theorem step (tracks : Tracks odd layout) {raw : List Char}
    (unclosed : ∀ opened, layout.phase = .function opened → raw = ['\x7d'] → odd = false) :
    Tracks (odd ^^ isCommentMark raw) (layout.step raw) := by
  obtain ⟨line, constants, commented, phase, objects, members, journal⟩ := layout
  have counted : Tracks odd ⟨line + 1, constants, commented, phase, objects, members, journal⟩ :=
    ⟨tracks.outside, tracks.inside⟩
  cases phase with
  | preamble =>
      unfold Layout.step
      refine counted.plainLine (.inl rfl) fun clear => ?_
      split
      · exact clear.define _
      · exact .startLine (clear.outside (.inl rfl)) _
  | body =>
      unfold Layout.step
      refine counted.plainLine (.inr rfl) fun clear => ?_
      split
      · exact .fail _ _
      · exact clear.bodyLine (clear.outside (.inr rfl)) _
  | function opened => exact counted.functionLine rfl (unclosed opened rfl)
  | closed trailing =>
      unfold Layout.step
      simp only
      split <;> exact idle nofun nofun fun _ => nofun
  | failed number fault => exact idle nofun nofun fun _ => nofun

end Tracks

/-! ### What the flags say about a text -/

section

variable {source line : List Char} {count : Nat}

theorem marks_succ (here : (lines source)[count]? = some line) :
    marks source (count + 1) = marks source count + (isCommentMark line).toNat := by
  rw [marks, List.take_add_one, here, Option.toList_some, List.countP_append]
  cases marked : isCommentMark line <;> simp [marked, marks]

/-- The lines are used up. -/
theorem take_succ_of_none (past : (lines source)[count]? = none) :
    (lines source).take (count + 1) = (lines source).take count := by
  rw [List.take_add_one, past, Option.toList_none, List.append_nil]

theorem tracks_reached (intact : ∀ earlier < count, ¬ ClosedInComment source earlier) :
    Tracks (marks source count % 2 == 1) (reached source count) := by
  induction count with
  | zero => exact ⟨fun _ => rfl, fun _ same => nomatch same⟩
  | succ count continued =>
      have tracks := continued fun earlier less => intact earlier (less.trans count.lt_succ_self)
      cases here : (lines source)[count]? with
      | none =>
          rw [reached, marks, take_succ_of_none here]
          exact tracks
      | some line =>
          have turned : (marks source (count + 1) % 2 == 1) =
              ((marks source count % 2 == 1) ^^ isCommentMark line) := by
            rw [marks_succ here]
            cases isCommentMark line <;> grind
          rw [turned, reached_succ here]
          -- The flag of a function is lost with its brace; here alone could the count go astray.
          refine tracks.step fun opened phase closing => ?_
          by_contra odd
          subst closing
          refine intact count count.lt_succ_self ⟨⟨?_, _, here, rfl⟩, ⟨opened, phase⟩, here⟩
          simpa using odd

/-! ### Block comments -/

theorem plainLine_commented {layout : Layout} (commented : layout.commented = true)
    {raw : List Char} (unmarked : isCommentMark raw = false)
    (take : Layout → List Char → Layout) : layout.plainLine raw take = layout := by
  simp [plainLine, unmarked, commented]

theorem functionLine_commented {layout : Layout} {opened : OpenFunction}
    (commented : opened.commented = true) {raw : List Char} (unmarked : isCommentMark raw = false)
    (unclosed : raw ≠ ['\x7d']) : layout.functionLine opened raw = layout := by
  simp [functionLine, unclosed, unmarked, commented]

/-- A line that is commented out is counted, and nothing else. -/
theorem bare_step_commented {layout : Layout} (tracks : Tracks true layout) {raw : List Char}
    (unmarked : isCommentMark raw = false)
    (unclosed : ∀ opened, layout.phase = .function opened → raw ≠ ['\x7d']) :
    (layout.step raw).bare = { layout with line := layout.line + 1 }.bare := by
  obtain ⟨line, constants, commented, phase, objects, members, journal⟩ := layout
  cases phase with
  | preamble =>
      have flag : commented = true := tracks.outside (.inl rfl)
      subst flag
      unfold step
      exact congrArg bare (plainLine_commented rfl unmarked _)
  | body =>
      have flag : commented = true := tracks.outside (.inr rfl)
      subst flag
      unfold step
      exact congrArg bare (plainLine_commented rfl unmarked _)
  | function opened =>
      unfold step
      have inside := (tracks.inside opened rfl).1
      exact congrArg bare (functionLine_commented inside unmarked (unclosed opened rfl))
  | closed trailing =>
      unfold step
      simp only
      split <;> rfl
  | failed number fault => rfl

/-- What stands inside a block comment has no influence on the result, unless a line
that is commented out closes a function. -/
theorem commented_line_ignored {other : List Char} (commented : CommentedOut source count)
    (single : '\n' ∉ other) (unmarked : isCommentMark (trim other) = false)
    (intact : ∀ earlier ≤ count, ¬ ClosedInComment source earlier)
    (unclosed : InFunction source count → trim other ≠ ['\x7d']) :
    (read (replaceLine source count other)).result = (read source).result := by
  obtain ⟨odd, line, here, plain⟩ := commented
  have tracks := tracks_reached fun earlier less => intact earlier (Nat.le_of_lt less)
  rw [odd, beq_self_eq_true] at tracks
  have unclosedHere : ∀ opened, (reached source count).phase = .function opened →
      line ≠ ['\x7d'] := by
    rintro opened phase rfl
    exact intact count le_rfl ⟨⟨odd, _, here, plain⟩, ⟨opened, phase⟩, here⟩
  apply result_replaceLine here single
  rw [bare_step_commented tracks plain unclosedHere,
    bare_step_commented tracks unmarked fun opened phase => unclosed ⟨opened, phase⟩]

/-- A function with a block comment in it. -/
def commentedFunction : List Char :=
  "[\n666 => () \x7b\n~~~\nx\n~~~\n'a'\n\x7d\n]".toList

theorem commented_line_ignored_bracket :
    CommentedOut commentedFunction 3 ∧ InFunction commentedFunction 3 ∧
      (∀ earlier ≤ 3, ¬ ClosedInComment commentedFunction earlier) ∧
      (read (replaceLine commentedFunction 3 [']'])).result =
        (read commentedFunction).result := by
  have commented : CommentedOut commentedFunction 3 := ⟨rfl, _, rfl, rfl⟩
  have inside : InFunction commentedFunction 3 := ⟨_, rfl⟩
  have braceless : ∀ earlier ≤ 3, (lines commentedFunction)[earlier]? ≠ some ['\x7d'] := by decide
  have intact : ∀ earlier ≤ 3, ¬ ClosedInComment commentedFunction earlier :=
    fun earlier within closed => braceless earlier within closed.2.2
  exact ⟨commented, inside, intact,
    commented_line_ignored commented (by decide) rfl intact fun _ => by decide⟩

/-- A brace that is commented out closes its function, and what ends the comment then
starts one. -/
theorem commented_brace_counts :
    CommentedOut commentedFunction 3 ∧ '\n' ∉ ['\x7d'] ∧ isCommentMark (trim ['\x7d']) = false ∧
      (read (replaceLine commentedFunction 3 ['\x7d'])).result ≠
        (read commentedFunction).result := by
  refine ⟨⟨rfl, _, rfl, rfl⟩, by decide, rfl, fun same => ?_⟩
  have kept : (read commentedFunction).result = .ok [.function "666" 2 ⟨[], ["'a'"], 2⟩] := rfl
  have cut : (read (replaceLine commentedFunction 3 ['\x7d'])).result =
      .ok [.function "666" 2 ⟨[], [], 2⟩] := rfl
  cases cut.symm.trans (same.trans kept)

/-! ### Line comments -/

/-- A comment set off by blanks changes nothing but the brace that closes a function. -/
theorem step_trailing (layout : Layout) {line gap : List Char} (trimmed : Trimmed line)
    (even : line.count '\'' % 2 = 0) (blank : Blank gap) (apart : gap ≠ [])
    (unclosed : ∀ opened, layout.phase = .function opened → line ≠ ['\x7d']) (rest : List Char) :
    layout.step (line ++ gap ++ '/' :: '/' :: rest) = layout.step line := by
  have tilde : isBlank '~' = false := by decide
  have slash : isBlank '/' = false := by decide
  have mark : isCommentMark (line ++ gap ++ '/' :: '/' :: rest) = isCommentMark line :=
    isPrefixOf_append_blank (by simp [tilde]) blank apart _
  have whole : ['/', '/'].isPrefixOf (line ++ gap ++ '/' :: '/' :: rest) =
      ['/', '/'].isPrefixOf line :=
    isPrefixOf_append_blank (by simp [slash]) blank apart _
  have bare : withoutComment (line ++ gap ++ '/' :: '/' :: rest) = withoutComment line :=
    withoutComment_trailing trimmed even blank apart rest
  have long : line ++ gap ++ '/' :: '/' :: rest ≠ ['\x7d'] := by
    intro same
    have length := congrArg List.length same
    simp at length
    omega
  obtain ⟨number, constants, commented, phase, objects, members, journal⟩ := layout
  cases phase with
  | preamble | body => simp only [step, plainLine, mark, bare]
  | function opened =>
      simp only [step, functionLine, if_neg long, if_neg (unclosed opened rfl), mark, whole, bare]
  | closed trailing => simp only [step, bare]
  | failed number fault => rfl

/-- A comment behind a line has no influence on the result, unless the line closes a
function. -/
theorem trailing_comment_ignored (here : (source.splitOn '\n')[count]? = some line)
    (given : trim line ≠ []) (even : line.count '\'' % 2 = 0) {comment : List Char}
    (single : '\n' ∉ comment) (unclosed : InFunction source count → trim line ≠ ['\x7d']) :
    (read (replaceLine source count (line ++ [' ', '/', '/', ' '] ++ comment))).result =
      (read source).result := by
  have trimmedHere : (lines source)[count]? = some (trim line) := by
    rw [lines, List.getElem?_map, here, Option.map_some]
  have unbroken : '\n' ∉ line := feed_not_mem_of_splitOn (List.mem_of_getElem? here)
  obtain ⟨gap, rest, blank, apart, trimmed⟩ := trim_trailing given (' ' :: comment)
  have shown : trim (line ++ [' ', '/', '/', ' '] ++ comment) =
      trim line ++ gap ++ '/' :: '/' :: rest := by
    rw [← trimmed, List.append_assoc]
    rfl
  have evenHere : (trim line).count '\'' % 2 = 0 := by
    rw [count_trim (by decide)]
    exact even
  apply result_replaceLine trimmedHere
  · simp [unbroken, single]
  · rw [shown, step_trailing _ (trimmed_trim line) evenHere blank apart
      fun opened phase => unclosed ⟨opened, phase⟩]

/-- A program of one function. -/
def plainFunction : List Char :=
  "[\n666 => () \x7b\n'a'\n\x7d\n]".toList

theorem trailing_comment_ignored_quote :
    (plainFunction.splitOn '\n')[2]? = some ['\'', 'a', '\''] ∧ InFunction plainFunction 2 ∧
      (read (replaceLine plainFunction 2 "'a' // it's '".toList)).result =
        (read plainFunction).result := by
  have here : (plainFunction.splitOn '\n')[2]? = some ['\'', 'a', '\''] := rfl
  have single : '\n' ∉ "it's '".toList := by decide
  exact ⟨here, ⟨_, rfl⟩,
    trailing_comment_ignored here (by decide) rfl single fun _ => by decide⟩

/-- With a comment behind it, the brace that closes a function is a line of the
function. -/
theorem trailing_comment_hides_brace :
    (plainFunction.splitOn '\n')[3]? = some ['\x7d'] ∧ marks plainFunction 3 % 2 = 0 ∧
      (read (replaceLine plainFunction 3 "\x7d // c".toList)).result ≠
        (read plainFunction).result := by
  refine ⟨rfl, rfl, fun same => ?_⟩
  have kept : (read plainFunction).result = .ok [.function "666" 2 ⟨[], ["'a'"], 2⟩] := rfl
  have lost : (read (replaceLine plainFunction 3 "\x7d // c".toList)).result =
      .error (.structural 2 (.openFunction "666")) := rfl
  cases lost.symm.trans (same.trans kept)

end

end TableScript.Layout
