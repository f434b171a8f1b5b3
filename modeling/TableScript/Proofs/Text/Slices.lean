import TableScript.Proofs.Text.Visits

namespace TableScript.Text

/-! Slices.  A text is kept as its bytes in UTF-8, and where it is cut is a byte offset.
It can be cut only between two characters: at any other offset there are no two texts to
be had.  Cuts that are described by the parts on their sides fall between characters, and
the parts are the slices around the cut. -/

theorem size_utf8Encode (text : List Char) : text.utf8Encode.size = byteSize text := by
  induction text with
  | nil => rfl
  | cons c rest continued =>
      rw [List.utf8Encode_cons, ByteArray.size_append, List.utf8Encode_singleton,
        List.size_toByteArray, String.length_utf8EncodeChar, continued, byteSize]

/-- The offset lies between two characters of a text, or at one of its ends. -/
def Boundary (text : List Char) (offset : Nat) : Prop :=
  String.Pos.Raw.IsValid (String.ofList text) ⟨offset⟩

theorem boundary_iff {text : List Char} {offset : Nat} :
    Boundary text offset ↔ ∃ before after, text = before ++ after ∧ offset = byteSize before := by
  have size (part : List Char) : (String.ofList part).utf8ByteSize = byteSize part := by
    rw [← String.size_toByteArray, String.toByteArray_ofList, size_utf8Encode]
  rw [Boundary, String.Pos.Raw.isValid_ofList]
  constructor
  · rintro ⟨count, place⟩
    exact ⟨text.take count, text.drop count, (List.take_append_drop count text).symm,
      place.trans (size _)⟩
  · rintro ⟨before, after, rfl, place⟩
    exact ⟨before.length, by rw [List.take_left, size]; exact place⟩

/-- The part of a text between two byte offsets, which are in order and lie between
characters. -/
structure Slice (text : List Char) (start stop : Nat) (part : List Char) : Prop where
  ordered : start ≤ stop
  opens : Boundary text start
  closes : Boundary text stop
  bytes : text.utf8Encode.extract start stop = part.utf8Encode

/-- What stands in the middle of a text is a slice of it. -/
theorem slice_append (before part after : List Char) :
    Slice (before ++ part ++ after) (byteSize before) (byteSize before + byteSize part) part := by
  refine ⟨Nat.le_add_right _ _, ?_, ?_, ?_⟩
  · exact boundary_iff.mpr ⟨before, part ++ after, List.append_assoc _ _ _, rfl⟩
  · exact boundary_iff.mpr ⟨before ++ part, after, rfl, (byteSize_append before part).symm⟩
  · have front : (before ++ part).utf8Encode.size = byteSize before + byteSize part := by
      rw [size_utf8Encode, byteSize_append]
    have kept : (before ++ part).utf8Encode.extract (byteSize before)
        (byteSize before + byteSize part) = part.utf8Encode := by
      rw [List.utf8Encode_append]
      exact ByteArray.extract_append_eq_right (size_utf8Encode before).symm
        (by rw [size_utf8Encode, size_utf8Encode])
    have beyond : after.utf8Encode.extract
        (byteSize before - (byteSize before + byteSize part)) 0 = ByteArray.empty := by
      rw [ByteArray.extract_eq_empty_iff]
      omega
    rw [List.utf8Encode_append, ByteArray.extract_append, kept, front, Nat.sub_self, beyond,
      ByteArray.append_empty]

/-- A text has no two prefixes of one size. -/
theorem eq_of_byteSize_eq {first second rest other : List Char}
    (same : first ++ rest = second ++ other) (size : byteSize first = byteSize second) :
    first = second := by
  rw [← takeBytes_append first rest, same, size, takeBytes_append]

/-- Of two prefixes of a text, the smaller one is a prefix of the other. -/
theorem prefix_of_byteSize_le {first second text : List Char} (left : first <+: text)
    (right : second <+: text) (size : byteSize first ≤ byteSize second) : first <+: second := by
  rcases List.prefix_or_prefix_of_prefix left right with within | ⟨more, rfl⟩
  · exact within
  · cases more with
    | nil => simp
    | cons c more =>
        have positive := c.utf8Size_pos
        rw [byteSize_append, byteSize] at size
        omega

/-- There are no slices but the lists of characters in the middle of a text. -/
theorem slice_iff {text part : List Char} {start stop : Nat} :
    Slice text start stop part ↔ ∃ before after, text = before ++ part ++ after ∧
      start = byteSize before ∧ stop = byteSize before + byteSize part := by
  constructor
  · intro slice
    obtain ⟨before, ahead, whole, rfl⟩ := boundary_iff.mp slice.opens
    obtain ⟨upTo, after, again, rfl⟩ := boundary_iff.mp slice.closes
    -- Between two boundaries in order there is a list of characters; its bytes tell which.
    obtain ⟨held, rfl⟩ : before <+: upTo :=
      prefix_of_byteSize_le ⟨ahead, whole.symm⟩ ⟨after, again.symm⟩ slice.ordered
    have between := slice.bytes
    rw [byteSize_append, again, (slice_append before held after).bytes] at between
    have same : held = part := by
      apply String.ofList_injective
      rw [← String.toByteArray_inj, String.toByteArray_ofList, String.toByteArray_ofList, between]
    subst same
    exact ⟨before, after, again, rfl, byteSize_append before held⟩
  · rintro ⟨before, after, rfl, rfl, rfl⟩
    exact slice_append before part after

theorem exists_slice_of_infix {text part : List Char} (inside : part <:+: text) :
    ∃ start stop, Slice text start stop part := by
  obtain ⟨before, after, rfl⟩ := inside
  exact ⟨_, _, slice_append before part after⟩

/-! ### Cuts at a symbol -/

/-- A symbol of ASCII characters stands at a byte offset strictly inside a text, and
`before` and `after` are the slices on its two sides.  Every character of the symbol is
one byte long. -/
structure CutAt (text : List Char) (offset : Nat) (symbol before after : List Char) : Prop where
  ascii : ∀ c ∈ symbol, c.val ≤ 127
  inside : offset < byteSize text
  stands : Slice text offset (offset + symbol.length) symbol
  before : Slice text 0 offset before
  after : Slice text (offset + symbol.length) (byteSize text) after

theorem byteSize_of_ascii {text : List Char} (ascii : ∀ c ∈ text, c.val ≤ 127) :
    byteSize text = text.length := by
  induction text with
  | nil => rfl
  | cons c rest continued =>
      rw [List.forall_mem_cons] at ascii
      rw [byteSize, Char.utf8Size_eq_one_iff.mpr ascii.1, continued ascii.2, List.length_cons,
        Nat.add_comm]

section

variable {text before after : List Char}

theorem cutAt_of_append {symbol : List Char} (ascii : ∀ c ∈ symbol, c.val ≤ 127)
    (given : symbol ≠ []) (whole : text = before ++ symbol ++ after) :
    CutAt text (byteSize before) symbol before after := by
  have size := byteSize_of_ascii ascii
  have positive : 0 < symbol.length := List.length_pos_iff.mpr given
  have left := slice_append [] before (symbol ++ after)
  have middle := slice_append before symbol after
  have right := slice_append (before ++ symbol) after []
  rw [List.nil_append, ← List.append_assoc, ← whole, byteSize, Nat.zero_add] at left
  rw [← whole, size] at middle
  rw [List.append_nil, ← byteSize_append, ← whole, byteSize_append, size] at right
  refine ⟨ascii, ?_, middle, left, right⟩
  rw [whole, byteSize_append, byteSize_append, size]
  omega

theorem cutAt_of_char {c : Char} (ascii : c.val ≤ 127) (whole : text = before ++ c :: after) :
    CutAt text (byteSize before) [c] before after :=
  cutAt_of_append (List.forall_mem_singleton.mpr ascii) (List.cons_ne_nil c [])
    (by simpa using whole)

/-- What stands between two single bytes, the second of which ends the text. -/
theorem slice_enclosed {opening closing : Char} {inside : List Char}
    (whole : text = before ++ (opening :: inside ++ [closing]))
    (ascii : opening.val ≤ 127 ∧ closing.val ≤ 127) :
    Slice text (byteSize before + 1) (byteSize text - 1) inside := by
  have first : byteSize [opening] = 1 := Char.utf8Size_eq_one_iff.mpr ascii.1
  have last : byteSize [closing] = 1 := Char.utf8Size_eq_one_iff.mpr ascii.2
  have parts : text = (before ++ [opening]) ++ inside ++ [closing] := by simpa using whole
  have stop : byteSize text - 1 = byteSize before + 1 + byteSize inside := by
    simp only [parts, byteSize_append, first, last]
    omega
  rw [slice_iff]
  exact ⟨before ++ [opening], [closing], parts, by rw [byteSize_append, first],
    by rw [stop, byteSize_append, first]⟩

end

end TableScript.Text
