import Mathlib.Order.Bounds.Basic
import TableScript.Proofs.Text.Slices

namespace TableScript.Text

/-! Closing parentheses.  The parenthesis that closes another one is the first with which
the parentheses outside quotes balance.  A search for it may count the open parentheses
without fear of a closing one that nothing opened, since the count starts with the one
that is to be closed and ends with it. -/

/-- The characters outside single quotes, for a walk that comes to a text inside or
outside of them. -/
def unquotedChars (quoted : Bool) : List Char → List Char
  | [] => []
  | c :: rest =>
      if c == '\'' then unquotedChars (!quoted) rest
      else if quoted then unquotedChars quoted rest
      else c :: unquotedChars quoted rest

/-- Outside quotes, a text closes as many parentheses as it opens. -/
def Balanced (text : List Char) : Prop :=
  (unquotedChars false text).count '(' = (unquotedChars false text).count ')'

/-- How a search for a closing parenthesis ends that counts the open ones. -/
inductive ClosingSearch where
  /-- A parenthesis is closed when none is open, so that the count cannot go down. -/
  | broken
  | missing
  | found (offset : Nat)
deriving DecidableEq, Repr

/-- The search in a text that begins at a byte offset, with `depth` open parentheses. -/
def closingSearch (quoted : Bool) (depth offset : Nat) : List Char → ClosingSearch
  | [] => .missing
  | c :: rest =>
      let next (quoted : Bool) (depth : Nat) :=
        closingSearch quoted depth (offset + c.utf8Size) rest
      if c == '\'' then next (!quoted) depth
      else if quoted then next quoted depth
      else if c == '(' then next quoted (depth + 1)
      else if c == ')' then
        match depth with
        | 0 => .broken
        | 1 => .found offset
        | depth + 2 => next quoted (depth + 1)
      else next quoted depth

/-- The search for the parenthesis that closes the one at a byte offset. -/
def closingFrom (text : List Char) (start : Nat) : ClosingSearch :=
  closingSearch false 0 start (dropBytes start text)

/-! ### One character -/

/-- What a character does to the quote flag and to the number of open parentheses inside
the one that is to be closed, unless it closes that one. -/
inductive ParenStep : Char → Bool → Nat → Bool → Nat → Prop where
  | quote (quoted : Bool) (inner : Nat) : ParenStep '\'' quoted inner (!quoted) inner
  | hidden {c : Char} (other : c ≠ '\'') (inner : Nat) : ParenStep c true inner true inner
  | opened (inner : Nat) : ParenStep '(' false inner false (inner + 1)
  | closed (inner : Nat) : ParenStep ')' false (inner + 1) false inner
  | plain {c : Char} (other : c ≠ '\'' ∧ c ≠ '(' ∧ c ≠ ')') (inner : Nat) :
      ParenStep c false inner false inner

theorem parenStep_cases (c : Char) (quoted : Bool) (inner : Nat) :
    (c = ')' ∧ quoted = false ∧ inner = 0) ∨
      ∃ flag count, ParenStep c quoted inner flag count := by
  by_cases quote : c = '\''
  · subst quote
    exact .inr ⟨_, _, .quote quoted inner⟩
  · cases quoted with
    | true => exact .inr ⟨_, _, .hidden quote inner⟩
    | false =>
        by_cases opening : c = '('
        · subst opening
          exact .inr ⟨_, _, .opened inner⟩
        · by_cases closing : c = ')'
          · subst closing
            cases inner with
            | zero => exact .inl ⟨rfl, rfl, rfl⟩
            | succ inner => exact .inr ⟨_, _, .closed inner⟩
          · exact .inr ⟨_, _, .plain ⟨quote, opening, closing⟩ inner⟩

section

variable {c : Char} {quoted flag : Bool} {inner count : Nat}

theorem ParenStep.closingParen? (step : ParenStep c quoted inner flag count) (rest : List Char) :
    Text.closingParen? quoted inner (c :: rest) =
      (Text.closingParen? flag count rest).map fun parts => (c :: parts.1, parts.2) := by
  cases step with
  | quote | opened | closed => simp [Text.closingParen?]
  | hidden other => simp [Text.closingParen?, other]
  | plain other => simp [Text.closingParen?, other.1, other.2.1, other.2.2]

theorem ParenStep.closingSearch (step : ParenStep c quoted inner flag count) (offset : Nat)
    (rest : List Char) :
    Text.closingSearch quoted (inner + 1) offset (c :: rest) =
      Text.closingSearch flag (count + 1) (offset + c.utf8Size) rest := by
  cases step with
  | quote | opened | closed => simp [Text.closingSearch]
  | hidden other => simp [Text.closingSearch, other]
  | plain other => simp [Text.closingSearch, other.1, other.2.1, other.2.2]

/-- How many more parentheses are opened than closed. -/
def surplus (quoted : Bool) (text : List Char) : Int :=
  (unquotedChars quoted text).count '(' - (unquotedChars quoted text).count ')'

theorem balanced_iff_surplus {text : List Char} : Balanced text ↔ surplus false text = 0 := by
  rw [Balanced, surplus]
  omega

theorem surplus_nil (quoted : Bool) : surplus quoted [] = 0 := rfl

theorem surplus_opening (rest : List Char) :
    surplus false ('(' :: rest) = surplus false rest + 1 := by
  have shown : unquotedChars false ('(' :: rest) = '(' :: unquotedChars false rest := rfl
  rw [surplus, shown, List.count_cons_self, List.count_cons_of_ne (by decide), surplus]
  omega

theorem surplus_closing (rest : List Char) :
    surplus false (')' :: rest) = surplus false rest - 1 := by
  have shown : unquotedChars false (')' :: rest) = ')' :: unquotedChars false rest := rfl
  rw [surplus, shown, List.count_cons_self, List.count_cons_of_ne (by decide), surplus]
  omega

/-- What a text opens and the number of parentheses open before it change together. -/
theorem ParenStep.surplus (step : ParenStep c quoted inner flag count) (rest : List Char) :
    Text.surplus quoted (c :: rest) + inner = Text.surplus flag rest + count := by
  cases step with
  | quote => simp [Text.surplus, unquotedChars]
  | hidden other => simp [Text.surplus, unquotedChars, other]
  | opened =>
      rw [surplus_opening]
      omega
  | closed =>
      rw [surplus_closing]
      omega
  | plain other => simp [Text.surplus, unquotedChars, other.1, other.2.1, other.2.2]

end

/-! ### The whole search -/

section

variable {quoted : Bool} {inner : Nat} {text before after : List Char}

/-- With one parenthesis open, the search that counts never breaks down. -/
theorem closingSearch_eq (quoted : Bool) (inner offset : Nat) (text : List Char) :
    closingSearch quoted (inner + 1) offset text =
      (closingParen? quoted inner text).elim .missing fun parts =>
        .found (offset + byteSize parts.1) := by
  induction text generalizing quoted inner offset with
  | nil => rfl
  | cons c rest continued =>
      rcases parenStep_cases c quoted inner with ⟨rfl, rfl, rfl⟩ | ⟨flag, count, step⟩
      · rfl
      · rw [step.closingSearch, step.closingParen?, continued]
        cases closingParen? flag count rest with
        | none => rfl
        | some parts => simp only [Option.elim_some, Option.map_some, byteSize, Nat.add_assoc]

/-- With the parenthesis that is found, everything that was open is closed. -/
theorem surplus_of_found (found : closingParen? quoted inner text = some (before, after)) :
    surplus quoted (before ++ [')']) + inner = -1 := by
  induction text generalizing quoted inner before with
  | nil => cases found
  | cons c rest continued =>
      rcases parenStep_cases c quoted inner with ⟨rfl, rfl, rfl⟩ | ⟨flag, count, step⟩
      · cases found
        rfl
      · rw [step.closingParen?, Option.map_eq_some_iff] at found
        obtain ⟨⟨start, rest⟩, earlier, same⟩ := found
        cases same
        rw [List.cons_append, step.surplus]
        exact continued earlier

/-- Before that it is not, and if none is found it never is. -/
theorem surplus_of_prefix {start : List Char}
    (scanned : start <+: (closingParen? quoted inner text).elim text Prod.fst) :
    0 ≤ surplus quoted start + inner := by
  induction text generalizing quoted inner start with
  | nil =>
      cases List.prefix_nil.mp scanned
      rw [surplus_nil]
      omega
  | cons c rest continued =>
      cases start with
      | nil =>
          rw [surplus_nil]
          omega
      | cons d start =>
          rcases parenStep_cases c quoted inner with ⟨rfl, rfl, rfl⟩ | ⟨flag, count, step⟩
          · cases List.prefix_nil.mp scanned
          · have within : d = c ∧ start <+: (closingParen? flag count rest).elim rest Prod.fst := by
              rw [step.closingParen?] at scanned
              revert scanned
              cases closingParen? flag count rest with
              | none => exact List.cons_prefix_cons.mp
              | some parts => exact List.cons_prefix_cons.mp
            obtain ⟨rfl, within⟩ := within
            rw [step.surplus]
            exact continued within

end

/-- The offsets from `start` on for which the parentheses of the text up to there, the
byte at the offset included, balance. -/
def balancedEnds (text : List Char) (start : Nat) : Set Nat :=
  {stop | start ≤ stop ∧ ∃ part, Slice text start (stop + 1) part ∧ Balanced part}

section

variable {text before rest : List Char}

/-- Where the parentheses balance, a part of the text ends that begins with the opening
one. -/
theorem mem_balancedEnds (whole : text = before ++ '(' :: rest) {stop : Nat} :
    stop ∈ balancedEnds text (byteSize before) ↔
      ∃ inside, inside <+: rest ∧ byteSize before + byteSize inside = stop ∧
        Balanced ('(' :: inside) := by
  have size (inside : List Char) : byteSize ('(' :: inside) = byteSize inside + 1 :=
    Nat.add_comm _ _
  constructor
  · rintro ⟨reached, part, slice, balanced⟩
    obtain ⟨front, after, again, place, behind⟩ := slice_iff.mp slice
    rw [whole, List.append_assoc] at again
    cases eq_of_byteSize_eq again place
    have ahead := List.append_cancel_left again
    cases part with
    | nil =>
        rw [byteSize] at behind
        omega
    | cons c inside =>
        cases ahead
        rw [size] at behind
        exact ⟨inside, List.prefix_append inside after, by omega, balanced⟩
  · rintro ⟨inside, ⟨after, rfl⟩, rfl, balanced⟩
    refine ⟨Nat.le_add_right _ _, '(' :: inside, ?_, balanced⟩
    rw [slice_iff]
    exact ⟨before, after, by simpa using whole, rfl, by rw [size, Nat.add_assoc]⟩

/-- As long as the search goes on, the parentheses do not balance. -/
theorem not_balanced_of_prefix {start : List Char}
    (scanned : start <+: (closingParen? false 0 rest).elim rest Prod.fst) :
    ¬ Balanced ('(' :: start) := by
  have within := surplus_of_prefix scanned
  rw [balanced_iff_surplus, surplus_opening]
  omega

theorem balancedEnds_eq_empty (whole : text = before ++ '(' :: rest)
    (missing : closingParen? false 0 rest = none) :
    balancedEnds text (byteSize before) = ∅ := by
  rw [Set.eq_empty_iff_forall_notMem]
  intro stop member
  obtain ⟨inside, scanned, _, balanced⟩ := (mem_balancedEnds whole).mp member
  have within : inside <+: (closingParen? false 0 rest).elim rest Prod.fst := by
    rwa [missing]
  exact not_balanced_of_prefix within balanced

theorem isLeast_balancedEnds {inside after : List Char} (whole : text = before ++ '(' :: rest)
    (found : closingParen? false 0 rest = some (inside, after)) :
    IsLeast (balancedEnds text (byteSize before)) (byteSize before + 1 + byteSize inside) := by
  have closing : byteSize [')'] = 1 := rfl
  have ahead : rest = inside ++ ')' :: after := closingParen?_eq_append found
  constructor
  · have closed := surplus_of_found found
    refine (mem_balancedEnds whole).mpr ⟨inside ++ [')'], ?_, ?_, ?_⟩
    · exact ⟨after, by rw [ahead, List.append_assoc, List.singleton_append]⟩
    · rw [byteSize_append, closing]
      omega
    · rw [balanced_iff_surplus, surplus_opening]
      omega
  · intro stop member
    obtain ⟨held, scanned, rfl, balanced⟩ := (mem_balancedEnds whole).mp member
    -- A part that ends earlier has been passed by the search, with a parenthesis open.
    by_contra earlier
    have early : held <+: inside := by
      apply prefix_of_byteSize_le scanned ⟨')' :: after, ahead.symm⟩
      omega
    have within : held <+: (closingParen? false 0 rest).elim rest Prod.fst := by
      rwa [found]
    exact not_balanced_of_prefix within balanced

end

/-- What is known of the search for the parenthesis that closes the one at `start`. -/
structure Closes (text : List Char) (start : Nat) : Prop where
  agrees : closingFrom text start =
    (closingParen? false 0 (dropBytes (start + 1) text)).elim .missing fun parts =>
      .found (start + 1 + byteSize parts.1)
  unbroken : closingFrom text start ≠ .broken
  found : ∀ stop, closingFrom text start = .found stop ↔ IsLeast (balancedEnds text start) stop
  missing : closingFrom text start = .missing ↔ balancedEnds text start = ∅
  cut : ∀ stop, closingFrom text start = .found stop →
    ∃ before after, CutAt text stop [')'] before after

section

variable {text before rest : List Char}

theorem closingFrom_eq (whole : text = before ++ '(' :: rest) :
    closingFrom text (byteSize before) =
      (closingParen? false 0 rest).elim .missing fun parts =>
        .found (byteSize before + 1 + byteSize parts.1) := by
  rw [closingFrom, whole, dropBytes_byteSize, ← closingSearch_eq]
  rfl

theorem dropBytes_opening (whole : text = before ++ '(' :: rest) :
    dropBytes (byteSize before + 1) text = rest := by
  rw [whole, dropBytes_append]
  exact dropBytes_zero rest

theorem closes_of_missing (whole : text = before ++ '(' :: rest)
    (missing : closingParen? false 0 rest = none) : Closes text (byteSize before) := by
  have ends : closingFrom text (byteSize before) = .missing := by
    rw [closingFrom_eq whole, missing]
    rfl
  have never := balancedEnds_eq_empty whole missing
  refine ⟨by rw [dropBytes_opening whole, closingFrom_eq whole], ?_, fun stop => ?_, ?_, ?_⟩
  · rw [ends]
    nofun
  · rw [ends, never]
    exact ⟨nofun, fun least => absurd least.1 (Set.notMem_empty stop)⟩
  · exact iff_of_true ends never
  · rw [ends]
    nofun

theorem closes_of_found {inside after : List Char} (whole : text = before ++ '(' :: rest)
    (found : closingParen? false 0 rest = some (inside, after)) :
    Closes text (byteSize before) := by
  have ends : closingFrom text (byteSize before) =
      .found (byteSize before + 1 + byteSize inside) := by
    rw [closingFrom_eq whole, found]
    rfl
  have least := isLeast_balancedEnds whole found
  refine ⟨by rw [dropBytes_opening whole, closingFrom_eq whole], ?_, fun stop => ?_, ?_, ?_⟩
  · rw [ends]
    nofun
  · rw [ends, ClosingSearch.found.injEq]
    exact ⟨fun same => same ▸ least, least.unique⟩
  · rw [ends]
    exact ⟨nofun, fun empty => absurd least.1 (empty ▸ Set.notMem_empty _)⟩
  · intro stop same
    rw [ends, ClosingSearch.found.injEq] at same
    have place : byteSize (before ++ '(' :: inside) = stop := by
      rw [byteSize_append, ← same, Nat.add_assoc]
      rfl
    have split : text = (before ++ '(' :: inside) ++ ')' :: after := by
      rw [whole, closingParen?_eq_append found, List.append_assoc]
      rfl
    exact ⟨_, _, place ▸ cutAt_of_char (by decide) split⟩

end

/-- From an opening parenthesis the search finds the one that closes it, if there is one. -/
theorem closes_of_slice {text : List Char} {start : Nat}
    (opening : Slice text start (start + 1) ['(']) : Closes text start := by
  obtain ⟨before, rest, whole, rfl, _⟩ := slice_iff.mp opening
  rw [List.append_assoc, List.singleton_append] at whole
  cases result : closingParen? false 0 rest with
  | none => exact closes_of_missing whole result
  | some parts => exact closes_of_found whole result

end TableScript.Text
