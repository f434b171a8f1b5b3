import Mathlib.Data.List.Find
import TableScript.Proofs.Text.Surface

namespace TableScript.Text

/-! Offsets.  A walk over a text visits the positions on its surface, each with the
number of bytes in front of it.  Cut at a position that it visits, a text has the same
visits in its two parts as it has itself, so a search may be started anew in either
part; and blanks that are trimmed off a part take nothing but blank visits away. -/

/-! ### Byte offsets -/

/-- The text before a byte offset.  A character that reaches beyond it is left out. -/
def takeBytes : Nat → List Char → List Char
  | _, [] => []
  | count, c :: rest =>
      if c.utf8Size ≤ count then c :: takeBytes (count - c.utf8Size) rest else []

/-- The text from a byte offset on, beginning with the first character that is not
wholly before it. -/
def dropBytes : Nat → List Char → List Char
  | _, [] => []
  | count, c :: rest =>
      if c.utf8Size ≤ count then dropBytes (count - c.utf8Size) rest else c :: rest

theorem takeBytes_zero (text : List Char) : takeBytes 0 text = [] := by
  cases text with
  | nil => rfl
  | cons c rest => rw [takeBytes, if_neg (Nat.not_le.mpr c.utf8Size_pos)]

theorem dropBytes_zero (text : List Char) : dropBytes 0 text = text := by
  cases text with
  | nil => rfl
  | cons c rest => rw [dropBytes, if_neg (Nat.not_le.mpr c.utf8Size_pos)]

/-- Where a text has been cut, its size is the offset of the cut. -/
theorem takeBytes_append (before after : List Char) :
    takeBytes (byteSize before) (before ++ after) = before := by
  induction before with
  | nil => exact takeBytes_zero after
  | cons c rest continued =>
      rw [List.cons_append, takeBytes, byteSize, if_pos (Nat.le_add_right _ _),
        Nat.add_sub_cancel_left, continued]

/-- What stands in front of a text only moves its offsets. -/
theorem dropBytes_append (before after : List Char) (count : Nat) :
    dropBytes (byteSize before + count) (before ++ after) = dropBytes count after := by
  induction before with
  | nil => rw [byteSize, Nat.zero_add, List.nil_append]
  | cons c rest continued =>
      have reached : c.utf8Size ≤ c.utf8Size + byteSize rest + count := by omega
      have left : c.utf8Size + byteSize rest + count - c.utf8Size = byteSize rest + count := by
        omega
      rw [List.cons_append, dropBytes, byteSize, if_pos reached, left, continued]

theorem dropBytes_byteSize (before after : List Char) :
    dropBytes (byteSize before) (before ++ after) = after := by
  have dropped := dropBytes_append before after 0
  rwa [dropBytes_zero] at dropped

/-- A pattern reaches no further than its size. -/
theorem isPrefixOf_append (pattern ahead more : List Char) :
    (pattern.isPrefixOf (ahead ++ more) && decide (byteSize pattern ≤ byteSize ahead)) =
      pattern.isPrefixOf ahead := by
  rw [Bool.eq_iff_iff, Bool.and_eq_true, decide_eq_true_iff, List.isPrefixOf_iff_prefix,
    List.isPrefixOf_iff_prefix]
  constructor
  · rintro ⟨whole, short⟩
    rcases List.prefix_or_prefix_of_prefix whole (List.prefix_append ahead more) with within | past
    · exact within
    · obtain ⟨extra, rfl⟩ := past
      cases extra with
      | nil => simp only [List.append_nil, List.prefix_rfl]
      | cons c extra =>
          have positive := c.utf8Size_pos
          simp only [byteSize_append, byteSize] at short
          omega
  · intro within
    obtain ⟨rest, rfl⟩ := within
    exact ⟨(List.prefix_append pattern rest).trans (List.prefix_append _ more), by simp⟩

/-! ### Visits -/

/-- A position on the surface of a text: its byte offset and the character there. -/
structure Visit where
  offset : Nat
  char : Char
deriving DecidableEq, Repr

namespace Visit

/-- The offset behind the character. -/
def next (visit : Visit) : Nat := visit.offset + visit.char.utf8Size

/-- The visit in a text that has so many bytes more in front. -/
def shift (bytes : Nat) (visit : Visit) : Visit := ⟨visit.offset + bytes, visit.char⟩

end Visit

/-- The visits in a text that the walk comes to with `nesting`, after `offset` bytes. -/
def visitsFrom (nesting : Nesting) (offset : Nat) : List Char → List Visit
  | [] => []
  | c :: rest =>
      let later := visitsFrom (nesting.step c) (offset + c.utf8Size) rest
      if nesting.surfaces c then ⟨offset, c⟩ :: later else later

def visits (text : List Char) : List Visit := visitsFrom .outside 0 text

theorem visitsFrom_append (nesting : Nesting) (offset : Nat) (first second : List Char) :
    visitsFrom nesting offset (first ++ second) =
      visitsFrom nesting offset first ++
        visitsFrom (nesting.after first) (offset + byteSize first) second := by
  induction first generalizing nesting offset with
  | nil => rfl
  | cons c rest continued =>
      have later := continued (nesting.step c) (offset + c.utf8Size)
      rw [Nat.add_assoc] at later
      simp only [List.cons_append, visitsFrom, later, Nesting.after_cons, byteSize]
      split <;> rfl

theorem visitsFrom_shift (nesting : Nesting) (offset bytes : Nat) (text : List Char) :
    visitsFrom nesting (offset + bytes) text =
      (visitsFrom nesting offset text).map (Visit.shift bytes) := by
  induction text generalizing nesting offset with
  | nil => rfl
  | cons c rest continued =>
      have later := continued (nesting.step c) (offset + c.utf8Size)
      rw [Nat.add_right_comm] at later
      simp only [visitsFrom, later]
      split <;> rfl

/-- A walk that is outside everything starts anew. -/
theorem visits_append {first : List Char} (outside : Nesting.outside.after first = .outside)
    (second : List Char) :
    visits (first ++ second) =
      visits first ++ (visits second).map (Visit.shift (byteSize first)) := by
  rw [visits, visitsFrom_append, outside, visitsFrom_shift]
  rfl

/-- A visit lies where its character does. -/
theorem mem_visitsFrom {nesting : Nesting} {offset : Nat} {text : List Char} {visit : Visit}
    (visited : visit ∈ visitsFrom nesting offset text) :
    ∃ before after, text = before ++ visit.char :: after ∧
      visit.offset = offset + byteSize before ∧
      (nesting.after before).surfaces visit.char = true := by
  induction text generalizing nesting offset with
  | nil => cases visited
  | cons c rest continued =>
      have later (visited : visit ∈ visitsFrom (nesting.step c) (offset + c.utf8Size) rest) :
          ∃ before after, c :: rest = before ++ visit.char :: after ∧
            visit.offset = offset + byteSize before ∧
            (nesting.after before).surfaces visit.char = true := by
        obtain ⟨before, after, rfl, place, surfaced⟩ := continued visited
        exact ⟨c :: before, after, rfl, by rw [place, byteSize, Nat.add_assoc], surfaced⟩
      simp only [visitsFrom] at visited
      split at visited
      · rename_i surfaced
        rcases List.mem_cons.mp visited with rfl | visited
        · exact ⟨[], rest, rfl, rfl, surfaced⟩
        · exact later visited
      · exact later visited

theorem bounds_of_mem_visitsFrom {nesting : Nesting} {offset : Nat} {text : List Char}
    {visit : Visit} (visited : visit ∈ visitsFrom nesting offset text) :
    offset ≤ visit.offset ∧ visit.offset < offset + byteSize text := by
  obtain ⟨before, after, rfl, place, _⟩ := mem_visitsFrom visited
  have positive := visit.char.utf8Size_pos
  simp only [place, byteSize_append, byteSize]
  omega

/-! ### Searches among the visits -/

/-- From any point of a text, with what has been read in front, a walk that stops on the
surface only stops at one of the visits. -/
theorem walk?_eq_find? {stop : Nesting → List Char → List Char → Bool}
    {accept : List Char → List Char → Bool}
    (stops : ∀ nesting read c rest, stop nesting read (c :: rest) =
      (nesting.surfaces c && accept read (c :: rest)))
    (nesting : Nesting) (read rest : List Char) :
    walk? stop nesting read rest =
      ((visitsFrom nesting (byteSize read.reverse) rest).find? fun visit =>
        accept (takeBytes visit.offset (read.reverse ++ rest)).reverse
          (dropBytes visit.offset (read.reverse ++ rest))).map
            fun visit => (takeBytes visit.offset (read.reverse ++ rest),
              dropBytes visit.offset (read.reverse ++ rest)) := by
  induction rest generalizing nesting read with
  | nil => rfl
  | cons c rest continued =>
      have front := takeBytes_append read.reverse (c :: rest)
      have back := dropBytes_byteSize read.reverse (c :: rest)
      have later := continued (nesting.step c) (c :: read)
      simp only [List.reverse_cons, List.append_assoc, List.singleton_append, byteSize_append,
        byteSize, Nat.add_zero] at later
      simp only [walk?, stops, visitsFrom, later]
      by_cases surfaced : nesting.surfaces c = true
      · by_cases accepted : accept read (c :: rest) = true
        · simp only [surfaced, accepted, Bool.and_self, if_true]
          rw [List.find?_cons_of_pos, Option.map_some, front, back]
          rwa [front, back, List.reverse_reverse]
        · simp only [surfaced, accepted, Bool.true_and, Bool.false_eq_true, if_false, if_true]
          rw [List.find?_cons_of_neg]
          rwa [front, back, List.reverse_reverse]
      · simp only [surfaced, Bool.false_and, Bool.false_eq_true, if_false]

/-- A search goes through the visits, and through nothing else. -/
theorem surfaceCut?_eq_find? (accept : List Char → List Char → Bool) (text : List Char) :
    surfaceCut? accept text =
      ((visits text).find? fun visit =>
        accept (takeBytes visit.offset text).reverse (dropBytes visit.offset text)).map
          fun visit => (takeBytes visit.offset text, dropBytes visit.offset text) :=
  walk?_eq_find? (fun _ _ _ _ => rfl) .outside [] text

/-- The offset of the first visit that passes a test. -/
def firstVisit? (text : List Char) (test : Visit → Bool) : Option Nat :=
  ((visits text).find? test).map Visit.offset

theorem surfaceOffset?_eq_firstVisit? (pattern text : List Char) :
    surfaceOffset? pattern text =
      firstVisit? text fun visit => pattern.isPrefixOf (dropBytes visit.offset text) := by
  rw [surfaceOffset?, surfaceCut?_eq_find?, Option.map_map, firstVisit?]
  apply Option.map_congr
  intro visit found
  obtain ⟨before, after, whole, place, _⟩ := mem_visitsFrom (List.mem_of_find?_eq_some found)
  rw [Nat.zero_add] at place
  rw [Function.comp_apply, place, whole, takeBytes_append]

/-- The visits of a part of a text are searched like the part itself, if the tests agree
on them. -/
theorem firstVisit?_shifted {text part : List Char} {bytes : Nat} {kept test search : Visit → Bool}
    (same : (visits text).filter kept = (visits part).map (Visit.shift bytes))
    (agree : ∀ visit ∈ visits part, test (visit.shift bytes) = search visit) :
    (firstVisit? text fun visit => kept visit && test visit) =
      (firstVisit? part search).map (· + bytes) := by
  have searched : (visits part).find? (test ∘ Visit.shift bytes) = (visits part).find? search :=
    List.find?_congr agree
  have filtered : ((visits text).find? fun visit => kept visit && test visit) =
      ((visits text).filter kept).find? test := by
    simp only [List.find?_filter, Bool.decide_and, Bool.decide_eq_true]
  rw [firstVisit?, filtered, same, List.find?_map, searched, firstVisit?, Option.map_map,
    Option.map_map]
  rfl

/-! ### Cuts -/

/-- A visited position parts a text, with nothing open on either side. -/
theorem parted_of_visited {text : List Char} {visit : Visit} (visited : visit ∈ visits text) :
    Parted text (takeBytes visit.offset text) [visit.char] (dropBytes visit.next text) ∧
      byteSize (takeBytes visit.offset text) = visit.offset := by
  obtain ⟨before, after, whole, place, surfaced⟩ := mem_visitsFrom visited
  obtain ⟨outside, plain⟩ := Nesting.surfaces_iff.mp surfaced
  have behind : visit.next = byteSize (before ++ [visit.char]) := by
    rw [Visit.next, place, Nat.zero_add, byteSize_append]
    rfl
  have split : text = before ++ [visit.char] ++ after := by
    rw [whole, List.append_assoc, List.singleton_append]
  have right : dropBytes visit.next text = after := by
    rw [behind, split, dropBytes_byteSize]
  have left : takeBytes visit.offset text = before := by
    rw [place, Nat.zero_add, whole, takeBytes_append]
  rw [left, right]
  exact ⟨⟨split, outside, List.forall_mem_singleton.mpr plain⟩, by rw [place, Nat.zero_add]⟩

section

variable {text left right : List Char} {visit : Visit}

/-- The visits of a text that is cut at one of them. -/
theorem visits_of_parted (parted : Parted text left [visit.char] right)
    (place : byteSize left = visit.offset) :
    visits text = visits left ++ visit :: (visits right).map (Visit.shift visit.next) := by
  have alone : visits [visit.char] = [⟨0, visit.char⟩] := by
    have surfaced := Nesting.surfaces_iff.mpr
      ⟨rfl, parted.plain visit.char (List.mem_singleton_self _)⟩
    simp only [visits, visitsFrom, surfaced, if_true]
  have behind : byteSize (left ++ [visit.char]) = visit.next := by
    rw [byteSize_append, place]
    rfl
  have outside : Nesting.outside.after (left ++ [visit.char]) = .outside := by
    rw [Nesting.after_append, parted.outside, Nesting.after_of_plain parted.plain]
  rw [parted.whole, visits_append outside, visits_append parted.outside, alone, behind,
    List.append_assoc, place, List.map_singleton, Visit.shift, Nat.zero_add]
  rfl

theorem offset_lt_of_visited (visited : visit ∈ visits text) : visit.offset < byteSize text := by
  have bounds := (bounds_of_mem_visitsFrom visited).2
  rwa [Nat.zero_add] at bounds

theorem filter_before (parted : Parted text left [visit.char] right)
    (place : byteSize left = visit.offset) :
    (visits text).filter (fun other => other.offset < visit.offset) = visits left := by
  have earlier : ∀ other ∈ visits left, decide (other.offset < visit.offset) = true := by
    intro other visited
    have bound := offset_lt_of_visited visited
    exact decide_eq_true (place ▸ bound)
  have later : ∀ other ∈ visit :: (visits right).map (Visit.shift visit.next),
      ¬ decide (other.offset < visit.offset) = true := by
    intro other visited
    rw [decide_eq_true_iff]
    rcases List.mem_cons.mp visited with rfl | visited
    · omega
    · obtain ⟨moved, _, rfl⟩ := List.mem_map.mp visited
      simp only [Visit.shift, Visit.next]
      omega
  rw [visits_of_parted parted place, List.filter_append, List.filter_eq_self.mpr earlier,
    List.filter_eq_nil_iff.mpr later, List.append_nil]

theorem filter_after (parted : Parted text left [visit.char] right)
    (place : byteSize left = visit.offset) :
    (visits text).filter (fun other => visit.offset < other.offset) =
      (visits right).map (Visit.shift visit.next) := by
  have earlier : ∀ other ∈ visits left, ¬ decide (visit.offset < other.offset) = true := by
    intro other visited
    have bound := offset_lt_of_visited visited
    rw [decide_eq_true_iff]
    omega
  have later : ∀ other ∈ (visits right).map (Visit.shift visit.next),
      decide (visit.offset < other.offset) = true := by
    intro other visited
    obtain ⟨moved, _, rfl⟩ := List.mem_map.mp visited
    have positive := visit.char.utf8Size_pos
    apply decide_eq_true
    simp only [Visit.shift, Visit.next]
    omega
  rw [visits_of_parted parted place, List.filter_append, List.filter_eq_nil_iff.mpr earlier,
    List.nil_append, List.filter_cons_of_neg (by simp), List.filter_eq_self.mpr later]

/-- On the left of a cut a pattern is found where the whole text has it, if it ends before
the cut. -/
theorem surfaceOffset?_left (parted : Parted text left [visit.char] right)
    (place : byteSize left = visit.offset) (pattern : List Char) :
    surfaceOffset? pattern left =
      firstVisit? text fun other => other.offset < visit.offset &&
        (pattern.isPrefixOf (dropBytes other.offset text) &&
          other.offset + byteSize pattern ≤ visit.offset) := by
  have same : (visits text).filter (fun other => other.offset < visit.offset) =
      (visits left).map (Visit.shift 0) := by
    rw [filter_before parted place]
    exact List.map_id _ |>.symm
  have agree : ∀ other ∈ visits left,
      (pattern.isPrefixOf (dropBytes (other.shift 0).offset text) &&
        decide ((other.shift 0).offset + byteSize pattern ≤ visit.offset)) =
          pattern.isPrefixOf (dropBytes other.offset left) := by
    intro other visited
    obtain ⟨before, after, whole, here, _⟩ := mem_visitsFrom visited
    rw [Nat.zero_add] at here
    have ahead : dropBytes other.offset left = other.char :: after := by
      rw [here, whole, dropBytes_byteSize]
    have aheadWhole : dropBytes other.offset text =
        (other.char :: after) ++ ([visit.char] ++ right) := by
      rw [here, parted.whole, whole, List.append_assoc, List.append_assoc, dropBytes_byteSize]
    have room : other.offset + byteSize pattern ≤ visit.offset ↔
        byteSize pattern ≤ byteSize (other.char :: after) := by
      rw [here, ← place, whole, byteSize_append, Nat.add_le_add_iff_left]
    simp only [Visit.shift, Nat.add_zero, aheadWhole, ahead, room, isPrefixOf_append]
  rw [firstVisit?_shifted same agree, ← surfaceOffset?_eq_firstVisit?]
  exact Option.map_id'.symm

/-- On the right of a cut the search goes on. -/
theorem surfaceOffset?_right (parted : Parted text left [visit.char] right)
    (place : byteSize left = visit.offset) (pattern : List Char) :
    (surfaceOffset? pattern right).map (· + visit.next) =
      firstVisit? text fun other => visit.offset < other.offset &&
        pattern.isPrefixOf (dropBytes other.offset text) := by
  have agree : ∀ other ∈ visits right,
      pattern.isPrefixOf (dropBytes (other.shift visit.next).offset text) =
        pattern.isPrefixOf (dropBytes other.offset right) := by
    intro other _
    have behind : visit.next = byteSize (left ++ [visit.char]) := by
      rw [byteSize_append, place]
      rfl
    rw [Visit.shift, behind, Nat.add_comm, parted.whole, dropBytes_append]
  rw [firstVisit?_shifted (filter_after parted place) agree, ← surfaceOffset?_eq_firstVisit?]

end

/-! ### Trimming -/

/-- What trimming does to the visits of a text with the blanks `front` and `back` around
it: it takes blank visits away and no others, so what holds no blank is found as before. -/
structure Trimming (text front back : List Char) : Prop where
  whole : text = front ++ trim text ++ back
  kept : (visits text).filter (fun visit => byteSize front ≤ visit.offset &&
      visit.offset < byteSize front + byteSize (trim text)) =
    (visits (trim text)).map (Visit.shift (byteSize front))
  removed : ∀ visit ∈ visits text, (visit.offset < byteSize front ∨
    byteSize front + byteSize (trim text) ≤ visit.offset) → isBlank visit.char = true
  found : ∀ pattern, pattern ≠ [] → (∀ c ∈ pattern, isBlank c = false) →
    (surfaceOffset? pattern (trim text)).map (· + byteSize front) = surfaceOffset? pattern text

section

variable {text front core back : List Char}

theorem visits_surrounded (blank : Blank front) (whole : text = front ++ core ++ back) :
    visits text = visits front ++ ((visits core).map (Visit.shift (byteSize front)) ++
      visitsFrom (Nesting.outside.after core) (byteSize front + byteSize core) back) := by
  have inner : Nesting.outside.after (front ++ core) = Nesting.outside.after core := by
    rw [Nesting.after_append, blank.after]
  rw [whole, visits, visitsFrom_append, inner, Nat.zero_add, byteSize_append, ← visits,
    visits_append (blank.after _), List.append_assoc]

theorem isBlank_of_visited {nesting : Nesting} {offset : Nat} {visit : Visit} (blank : Blank text)
    (visited : visit ∈ visitsFrom nesting offset text) : isBlank visit.char = true := by
  obtain ⟨before, after, rfl, _, _⟩ := mem_visitsFrom visited
  exact blank _ (List.mem_append_right before List.mem_cons_self)

/-- The visits in the middle are those of the text that stands there. -/
theorem filter_between (blank : Blank front) (whole : text = front ++ core ++ back) :
    (visits text).filter (fun visit => byteSize front ≤ visit.offset &&
        visit.offset < byteSize front + byteSize core) =
      (visits core).map (Visit.shift (byteSize front)) := by
  have earlier : ∀ visit ∈ visits front, ¬ (decide (byteSize front ≤ visit.offset) &&
      decide (visit.offset < byteSize front + byteSize core)) = true := by
    intro visit visited
    have bound := offset_lt_of_visited visited
    simp only [Bool.and_eq_true, decide_eq_true_iff]
    omega
  have here : ∀ visit ∈ (visits core).map (Visit.shift (byteSize front)),
      (decide (byteSize front ≤ visit.offset) &&
        decide (visit.offset < byteSize front + byteSize core)) = true := by
    intro visit moved
    obtain ⟨inner, visited, rfl⟩ := List.mem_map.mp moved
    have bound := offset_lt_of_visited visited
    rw [Bool.and_eq_true, decide_eq_true_iff, decide_eq_true_iff]
    simp only [Visit.shift]
    omega
  have later : ∀ visit ∈ visitsFrom (Nesting.outside.after core)
      (byteSize front + byteSize core) back, ¬ (decide (byteSize front ≤ visit.offset) &&
        decide (visit.offset < byteSize front + byteSize core)) = true := by
    intro visit visited
    have bound := (bounds_of_mem_visitsFrom visited).1
    simp only [Bool.and_eq_true, decide_eq_true_iff]
    omega
  rw [visits_surrounded blank whole, List.filter_append, List.filter_append,
    List.filter_eq_nil_iff.mpr earlier, List.filter_eq_self.mpr here,
    List.filter_eq_nil_iff.mpr later, List.nil_append, List.append_nil]

theorem isBlank_of_surrounding (frontBlank : Blank front) (backBlank : Blank back)
    (whole : text = front ++ core ++ back) {visit : Visit} (visited : visit ∈ visits text)
    (around : visit.offset < byteSize front ∨ byteSize front + byteSize core ≤ visit.offset) :
    isBlank visit.char = true := by
  rw [visits_surrounded frontBlank whole, List.mem_append, List.mem_append] at visited
  rcases visited with early | inside | late
  · exact isBlank_of_visited frontBlank early
  · obtain ⟨inner, visited, rfl⟩ := List.mem_map.mp inside
    have bound := offset_lt_of_visited visited
    simp only [Visit.shift] at around
    omega
  · exact isBlank_of_visited backBlank late

/-- A pattern without blanks does not reach into blanks. -/
theorem isPrefixOf_append_blank_iff (blank : Blank back) {pattern : List Char}
    (visible : ∀ c ∈ pattern, isBlank c = false) (ahead : List Char) :
    pattern.isPrefixOf (ahead ++ back) = pattern.isPrefixOf ahead := by
  rw [← isPrefixOf_append pattern ahead back, Bool.eq_iff_iff, Bool.and_eq_true,
    decide_eq_true_iff, iff_self_and, List.isPrefixOf_iff_prefix]
  intro starts
  rcases List.prefix_or_prefix_of_prefix starts (List.prefix_append ahead back) with within | past
  · obtain ⟨rest, rfl⟩ := within
    simp
  · obtain ⟨extra, rfl⟩ := past
    cases extra with
    | nil => simp
    | cons c extra =>
        have reached : c ∈ back := by
          obtain ⟨rest, same⟩ := starts
          rw [List.append_assoc, List.append_cancel_left_eq] at same
          exact same ▸ List.mem_cons_self
        have hidden := visible c (by simp)
        rw [blank c reached] at hidden
        cases hidden

theorem dropBytes_of_visited {visit : Visit} (visited : visit ∈ visits text) :
    ∃ after, dropBytes visit.offset text = visit.char :: after := by
  obtain ⟨before, after, split, place, _⟩ := mem_visitsFrom visited
  exact ⟨after, by rw [place, Nat.zero_add, split, dropBytes_byteSize]⟩

/-- A pattern without blanks is found in a text as it is found among blanks. -/
theorem surfaceOffset?_surrounded (frontBlank : Blank front) (backBlank : Blank back)
    (whole : text = front ++ core ++ back) {pattern : List Char} (given : pattern ≠ [])
    (visible : ∀ c ∈ pattern, isBlank c = false) :
    (surfaceOffset? pattern core).map (· + byteSize front) = surfaceOffset? pattern text := by
  have agree : ∀ visit ∈ visits core,
      pattern.isPrefixOf (dropBytes (visit.shift (byteSize front)).offset text) =
        pattern.isPrefixOf (dropBytes visit.offset core) := by
    intro visit visited
    obtain ⟨before, after, rfl, place, _⟩ := mem_visitsFrom visited
    rw [Nat.zero_add] at place
    rw [Visit.shift, Nat.add_comm, whole, List.append_assoc, dropBytes_append, place,
      List.append_assoc, dropBytes_byteSize, dropBytes_byteSize,
      isPrefixOf_append_blank_iff backBlank visible]
  -- Where the pattern stands, the visit is not blank and lies in the middle.
  have standing : ∀ visit ∈ visits text, pattern.isPrefixOf (dropBytes visit.offset text) =
      ((decide (byteSize front ≤ visit.offset) &&
          decide (visit.offset < byteSize front + byteSize core)) &&
        pattern.isPrefixOf (dropBytes visit.offset text)) := by
    intro visit visited
    obtain ⟨after, ahead⟩ := dropBytes_of_visited visited
    rw [Bool.eq_iff_iff, Bool.and_eq_true, iff_and_self, ahead]
    intro starts
    have shown : isBlank visit.char = false := by
      obtain ⟨c, rest, rfl⟩ := List.exists_cons_of_ne_nil given
      rw [List.isPrefixOf_cons_cons, Bool.and_eq_true, beq_iff_eq] at starts
      exact starts.1 ▸ visible c List.mem_cons_self
    by_contra outside
    rw [Bool.and_eq_true, decide_eq_true_iff, decide_eq_true_iff] at outside
    have blank := isBlank_of_surrounding frontBlank backBlank whole visited (by omega)
    rw [blank] at shown
    cases shown
  calc (surfaceOffset? pattern core).map (· + byteSize front)
      = firstVisit? text fun visit => (byteSize front ≤ visit.offset &&
            visit.offset < byteSize front + byteSize core) &&
          pattern.isPrefixOf (dropBytes visit.offset text) := by
        rw [surfaceOffset?_eq_firstVisit?,
          firstVisit?_shifted (filter_between frontBlank whole) agree]
    _ = surfaceOffset? pattern text := by
        rw [surfaceOffset?_eq_firstVisit?, firstVisit?, firstVisit?, List.find?_congr standing]

/-- Every text is trimmed in this way. -/
theorem exists_trimming (text : List Char) : ∃ front back, Trimming text front back := by
  obtain ⟨front, back, frontBlank, backBlank, whole⟩ := exists_trim text
  refine ⟨front, back, whole, filter_between frontBlank whole, ?_, ?_⟩
  · exact fun _ => isBlank_of_surrounding frontBlank backBlank whole
  · exact fun _ => surfaceOffset?_surrounded frontBlank backBlank whole

end

/-! ### Starting anew -/

/-- A text may be cut at any position that a walk visits.  Each part has the visits of the
whole text on its side, trimming a part takes only blank visits away, and a search in a
part is a search of the whole text among the visits on that side. -/
theorem surface_restarts {text : List Char} {visit : Visit} (visited : visit ∈ visits text) :
    (∀ accept, surfaceCut? accept text =
      ((visits text).find? fun other =>
        accept (takeBytes other.offset text).reverse (dropBytes other.offset text)).map
          fun other => (takeBytes other.offset text, dropBytes other.offset text)) ∧
    ∃ left right, left = takeBytes visit.offset text ∧ right = dropBytes visit.next text ∧
      text = left ++ visit.char :: right ∧
      visits left = (visits text).filter (fun other => other.offset < visit.offset) ∧
      (visits right).map (Visit.shift visit.next) =
        (visits text).filter (fun other => visit.offset < other.offset) ∧
      (∃ front back, Trimming left front back) ∧ (∃ front back, Trimming right front back) ∧
      (∀ pattern, surfaceOffset? pattern left =
        firstVisit? text fun other => other.offset < visit.offset &&
          (pattern.isPrefixOf (dropBytes other.offset text) &&
            other.offset + byteSize pattern ≤ visit.offset)) ∧
      ∀ pattern, (surfaceOffset? pattern right).map (· + visit.next) =
        firstVisit? text fun other => visit.offset < other.offset &&
          pattern.isPrefixOf (dropBytes other.offset text) := by
  obtain ⟨parted, place⟩ := parted_of_visited visited
  have whole : text = takeBytes visit.offset text ++ visit.char :: dropBytes visit.next text := by
    have split := parted.whole
    rwa [List.append_assoc, List.singleton_append] at split
  refine ⟨fun accept => surfaceCut?_eq_find? accept text, _, _, rfl, rfl, whole,
    (filter_before parted place).symm, (filter_after parted place).symm, exists_trimming _,
    exists_trimming _, surfaceOffset?_left parted place, surfaceOffset?_right parted place⟩

/-- A text with a bracket that nothing opened, characters of two bytes, quotes and an
operator inside brackets is cut at its `=`. -/
theorem surface_restarts_unbalanced :
    ⟨10, '='⟩ ∈ visits ")é [a=b] = 'ü^' ^ c".toList ∧
      visits ")é [a=b] ".toList = [⟨1, 'é'⟩, ⟨3, ' '⟩, ⟨9, ' '⟩] ∧
      surfaceOffset? ['^'] " 'ü^' ^ c".toList = some 7 ∧
      firstVisit? ")é [a=b] = 'ü^' ^ c".toList (fun other => 10 < other.offset &&
        ['^'].isPrefixOf (dropBytes other.offset ")é [a=b] = 'ü^' ^ c".toList)) = some 18 := by
  have visited : ⟨10, '='⟩ ∈ visits ")é [a=b] = 'ü^' ^ c".toList := by decide
  obtain ⟨_, left, right, rfl, rfl, _, before, _, _, _, _, after⟩ := surface_restarts visited
  refine ⟨visited, before, by decide, ?_⟩
  rw [← after ['^']]
  decide

end TableScript.Text
