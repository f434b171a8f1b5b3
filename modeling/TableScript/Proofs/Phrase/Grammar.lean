import TableScript.Phrase.Reader

namespace TableScript

open Text

/-! The reader as a grammar.  `Shaped` tells which recogniser gave the shape of a
text and which ones had found nothing before, and `Reads` tells what a text is
read as; both say exactly what the reader does. -/

theorem bind_eq_ok {ε α β : Type} {first : Except ε α} {next : α → Except ε β} {result : β}
    (reached : first >>= next = .ok result) :
    ∃ value, first = .ok value ∧ next value = .ok result := by
  cases first with
  | error fault => cases reached
  | ok value => exact ⟨value, rfl, reached⟩

inductive Shaped (text : List Char) : Shape → Prop where
  | assign {left value : List Char} {target : Target}
      (cut : Shape.assignment? text = some (left, value))
      (goal : Target.read left = .ok target) : Shaped text (.assign target value)
  | arithmetic {op : Arithmetic} {left right : List Char}
      (unassigned : Shape.assignment? text = none)
      (cut : Shape.arithmetic? text = some (op, left, right)) :
      Shaped text (.arithmetic op left right)
  | compare {op : Comparison} {left right : List Char}
      (unassigned : Shape.assignment? text = none)
      (uncomputed : Shape.arithmetic? text = none)
      (cut : Shape.comparison? text = some (op, left, right)) :
      Shaped text (.compare op left right)
  | call {construct : Shape}
      (unassigned : Shape.assignment? text = none)
      (uncomputed : Shape.arithmetic? text = none)
      (uncompared : Shape.comparison? text = none)
      (applied : Shape.call? text = some construct) : Shaped text construct
  | concat {left right : List Char}
      (unassigned : Shape.assignment? text = none)
      (uncomputed : Shape.arithmetic? text = none)
      (uncompared : Shape.comparison? text = none)
      (uncalled : Shape.call? text = none)
      (cut : surfaceSplit? ['^'] text = some (left, right)) : Shaped text (.concat left right)
  | atom {construct : Shape}
      (unassigned : Shape.assignment? text = none)
      (uncomputed : Shape.arithmetic? text = none)
      (uncompared : Shape.comparison? text = none)
      (uncalled : Shape.call? text = none)
      (unjoined : surfaceSplit? ['^'] text = none)
      (found : Shape.atom text = .ok construct) : Shaped text construct

theorem shaped_of_shape {text : List Char} {construct : Shape}
    (found : shape text = .ok construct) : text ≠ [] ∧ Shaped text construct := by
  unfold shape at found
  split at found
  · cases found
  · rename_i given
    refine ⟨by simpa using given, ?_⟩
    split at found
    · rename_i cut
      split at found
      · rename_i goal
        cases found
        exact .assign cut goal
      · cases found
    · rename_i unassigned
      split at found
      · rename_i cut
        cases found
        exact .arithmetic unassigned cut
      · rename_i uncomputed
        split at found
        · rename_i cut
          cases found
          exact .compare unassigned uncomputed cut
        · rename_i uncompared
          split at found
          · rename_i applied
            cases found
            exact .call unassigned uncomputed uncompared applied
          · rename_i uncalled
            split at found
            · rename_i cut
              cases found
              exact .concat unassigned uncomputed uncompared uncalled cut
            · rename_i unjoined
              exact .atom unassigned uncomputed uncompared uncalled unjoined found

theorem shape_of_shaped {text : List Char} {construct : Shape} (given : text ≠ [])
    (shaped : Shaped text construct) : shape text = .ok construct := by
  have unempty : ¬ text.isEmpty = true := by simpa using given
  unfold shape
  rw [if_neg unempty]
  cases shaped with
  | assign cut goal => simp only [cut, goal]
  | arithmetic unassigned cut => simp only [unassigned, cut]
  | compare unassigned uncomputed cut => simp only [unassigned, uncomputed, cut]
  | call unassigned uncomputed uncompared applied =>
      simp only [unassigned, uncomputed, uncompared, applied]
  | concat unassigned uncomputed uncompared uncalled cut =>
      simp only [unassigned, uncomputed, uncompared, uncalled, cut]
  | atom unassigned uncomputed uncompared uncalled unjoined found =>
      simp only [unassigned, uncomputed, uncompared, uncalled, unjoined, found]

namespace Phrase

mutual

inductive Reads : List Char → Phrase → Prop where
  | leaf {text : List Char} {phrase : Phrase} (found : shape (trim text) = .ok (.leaf phrase)) :
      Reads text phrase
  | assign {text operand : List Char} {target : Target} {value : Phrase}
      (found : shape (trim text) = .ok (.assign target operand)) (inner : Reads operand value) :
      Reads text (.assign target value)
  | arithmetic {text first second : List Char} {op : Arithmetic} {left right : Phrase}
      (found : shape (trim text) = .ok (.arithmetic op first second))
      (leftRead : Reads first left) (rightRead : Reads second right) :
      Reads text (.arithmetic op left right)
  | compare {text first second : List Char} {op : Comparison} {left right : Phrase}
      (found : shape (trim text) = .ok (.compare op first second))
      (leftRead : Reads first left) (rightRead : Reads second right) :
      Reads text (.compare op left right)
  | concat {text first second : List Char} {left right : Phrase}
      (found : shape (trim text) = .ok (.concat first second))
      (leftRead : Reads first left) (rightRead : Reads second right) :
      Reads text (.concat left right)
  | call {text : List Char} {callee : Callee} {pieces : List (List Char)}
      {arguments : List Phrase} (found : shape (trim text) = .ok (.call callee pieces))
      (inner : ReadsAll pieces arguments) : Reads text (.call callee arguments)
  | builtin {text : List Char} {name : String} {pieces : List (List Char)}
      {arguments : List Phrase} (found : shape (trim text) = .ok (.builtin name pieces))
      (inner : ReadsAll pieces arguments) : Reads text (.builtin name arguments)
  | element {text operand : List Char} {index : String} {key : Phrase}
      (found : shape (trim text) = .ok (.element index operand)) (inner : Reads operand key) :
      Reads text (.element index key)

inductive ReadsAll : List (List Char) → List Phrase → Prop where
  | nil : ReadsAll [] []
  | cons {text : List Char} {phrase : Phrase} {texts : List (List Char)} {phrases : List Phrase}
      (first : Reads text phrase) (rest : ReadsAll texts phrases) :
      ReadsAll (text :: texts) (phrase :: phrases)

end

/-- Everything the reader accepts is derived by the grammar. -/
theorem reads_of_read_both :
    (∀ text phrase, read text = .ok phrase → Reads text phrase) ∧
      ∀ texts phrases, readAll texts = .ok phrases → ReadsAll texts phrases := by
  apply read.mutual_induct
  · intro text fault found phrase accepted
    rw [read, found] at accepted
    cases accepted
  · intro text leaf found phrase accepted
    rw [read, found] at accepted
    cases accepted
    exact .leaf found
  · intro text target value found continued phrase accepted
    rw [read, found] at accepted
    obtain ⟨inner, read, same⟩ := bind_eq_ok accepted
    cases same
    exact .assign found (continued inner read)
  · intro text op left right found leftRead rightRead phrase accepted
    rw [read, found] at accepted
    obtain ⟨first, firstRead, accepted⟩ := bind_eq_ok accepted
    obtain ⟨second, secondRead, same⟩ := bind_eq_ok accepted
    cases same
    exact .arithmetic found (leftRead first firstRead) (rightRead second secondRead)
  · intro text op left right found leftRead rightRead phrase accepted
    rw [read, found] at accepted
    obtain ⟨first, firstRead, accepted⟩ := bind_eq_ok accepted
    obtain ⟨second, secondRead, same⟩ := bind_eq_ok accepted
    cases same
    exact .compare found (leftRead first firstRead) (rightRead second secondRead)
  · intro text left right found leftRead rightRead phrase accepted
    rw [read, found] at accepted
    obtain ⟨first, firstRead, accepted⟩ := bind_eq_ok accepted
    obtain ⟨second, secondRead, same⟩ := bind_eq_ok accepted
    cases same
    exact .concat found (leftRead first firstRead) (rightRead second secondRead)
  · intro text callee arguments found continued phrase accepted
    rw [read, found] at accepted
    obtain ⟨inner, read, same⟩ := bind_eq_ok accepted
    cases same
    exact .call found (continued inner read)
  · intro text name arguments found continued phrase accepted
    rw [read, found] at accepted
    obtain ⟨inner, read, same⟩ := bind_eq_ok accepted
    cases same
    exact .builtin found (continued inner read)
  · intro text index key found continued phrase accepted
    rw [read, found] at accepted
    obtain ⟨inner, read, same⟩ := bind_eq_ok accepted
    cases same
    exact .element found (continued inner read)
  · intro phrases accepted
    rw [readAll] at accepted
    cases accepted
    exact .nil
  · intro text others first rest phrases accepted
    rw [readAll] at accepted
    obtain ⟨phrase, firstRead, accepted⟩ := bind_eq_ok accepted
    obtain ⟨later, restRead, same⟩ := bind_eq_ok accepted
    cases same
    exact .cons (first phrase firstRead) (rest later restRead)

mutual

theorem Reads.read_eq_ok {text : List Char} {phrase : Phrase} (reads : Reads text phrase) :
    read text = .ok phrase := by
  cases reads with
  | leaf found => rw [read, found]
  | assign found inner =>
      rw [read, found]
      simp only [inner.read_eq_ok]
      rfl
  | arithmetic found leftRead rightRead | compare found leftRead rightRead
  | concat found leftRead rightRead =>
      rw [read, found]
      simp only [leftRead.read_eq_ok, rightRead.read_eq_ok]
      rfl
  | call found inner | builtin found inner =>
      rw [read, found]
      simp only [inner.readAll_eq_ok]
      rfl
  | element found inner =>
      rw [read, found]
      simp only [inner.read_eq_ok]
      rfl

theorem ReadsAll.readAll_eq_ok {texts : List (List Char)} {phrases : List Phrase}
    (reads : ReadsAll texts phrases) : readAll texts = .ok phrases := by
  cases reads with
  | nil => rw [readAll]
  | cons first rest =>
      rw [readAll, first.read_eq_ok, rest.readAll_eq_ok]
      rfl

end

theorem read_eq_ok_iff {text : List Char} {phrase : Phrase} :
    read text = .ok phrase ↔ Reads text phrase :=
  ⟨reads_of_read_both.1 text phrase, Reads.read_eq_ok⟩

end Phrase

end TableScript
