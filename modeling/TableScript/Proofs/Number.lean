import Mathlib.Data.Nat.Digits.Defs
import TableScript.Number
import TableScript.Proofs.Index

namespace TableScript.Number

/-! Numerals: the texts that stand for numbers.  Reading accepts exactly the numerals
of the numbers that have 64 bits, and a number is written as the one numeral of it
that is canonical, so that it can be read back. -/

/-- One or more ASCII digits. -/
structure Digits (text : List Char) : Prop where
  nonempty : text ≠ []
  all : ∀ c ∈ text, c.isDigit = true

/-- The number that digits denote, of which the last one counts the units. -/
def denoted (digits : List Char) : Nat :=
  Nat.ofDigits 10 (digits.reverse.map fun c => c.toNat - '0'.toNat)

/-- A text is an optional sign in front of digits, and stands for a number. -/
inductive Numeral : List Char → Int → Prop where
  | unsigned {digits : List Char} (valid : Digits digits) : Numeral digits (denoted digits)
  | plus {digits : List Char} (valid : Digits digits) : Numeral ('+' :: digits) (denoted digits)
  | minus {digits : List Char} (valid : Digits digits) :
      Numeral ('-' :: digits) (-(denoted digits : Int))

/-- The canonical numeral of a number, which has no plus sign, no zero in front of
other digits and no sign in front of zero. -/
inductive Decimal : List Char → Int → Prop where
  | zero : Decimal ['0'] 0
  | positive {first : Char} {rest : List Char} (valid : Digits (first :: rest))
      (leading : first ≠ '0') : Decimal (first :: rest) (denoted (first :: rest))
  | negative {first : Char} {rest : List Char} (valid : Digits (first :: rest))
      (leading : first ≠ '0') : Decimal ('-' :: first :: rest) (-(denoted (first :: rest) : Int))

variable {text : List Char} {n : Int}

/-! ### Reading -/

theorem ofDigitChars_eq_denoted (digits : List Char) :
    Nat.ofDigitChars 10 digits 0 = denoted digits := by
  rw [denoted, Nat.ofDigits_eq_foldr, List.foldr_map, List.foldr_reverse,
    Nat.ofDigitChars_eq_foldl]
  simp only [Nat.cast_id, Nat.add_comm]

theorem digits?_eq_some_iff {m : Nat} :
    digits? text = some m ↔ Digits text ∧ m = denoted text := by
  rw [digits?, ofDigitChars_eq_denoted]
  constructor
  · intro read
    split at read
    · cases read
    · rename_i valid
      simp only [Bool.or_eq_true, List.isEmpty_iff, Bool.not_eq_true, Bool.not_eq_false', not_or,
        List.all_eq_true] at valid
      cases read
      exact ⟨⟨valid.1, valid.2⟩, rfl⟩
  · intro digits
    obtain ⟨valid, rfl⟩ := digits
    have all : text.all Char.isDigit = true := List.all_eq_true.mpr valid.all
    have nonempty : text.isEmpty = false := List.isEmpty_eq_false_iff.mpr valid.nonempty
    simp [all, nonempty]

theorem signed?_eq_some_iff : signed? text = some n ↔ Numeral text n := by
  constructor
  · intro read
    unfold signed? at read
    split at read <;>
      obtain ⟨_, cast, rfl⟩ := Option.map_eq_some_iff.mp read <;>
      obtain ⟨_, found, same⟩ := Option.bind_eq_some_iff.mp cast <;>
      obtain ⟨valid, rfl⟩ := digits?_eq_some_iff.mp found <;>
      cases same
    · exact .minus valid
    · exact .plus valid
    · exact .unsigned valid
  · intro numeral
    cases numeral with
    | unsigned valid =>
        have read := digits?_eq_some_iff.mpr ⟨valid, rfl⟩
        unfold signed?
        split
        · exact absurd (valid.all '-' List.mem_cons_self) (by decide)
        · exact absurd (valid.all '+' List.mem_cons_self) (by decide)
        · rw [read]
          rfl
    | plus valid => rw [signed?, digits?_eq_some_iff.mpr ⟨valid, rfl⟩]; rfl
    | minus valid => rw [signed?, digits?_eq_some_iff.mpr ⟨valid, rfl⟩]; rfl

/-- Reading accepts the numerals of the numbers that fit, and nothing else. -/
theorem read?_eq_some_iff : read? text = some n ↔ Numeral text n ∧ Fits n := by
  rw [read?, Option.filter_eq_some_iff, signed?_eq_some_iff, decide_eq_true_iff]

/-! ### Positions -/

/-- A text is an optional plus sign in front of digits, and stands for a number. -/
inductive Unsigned : List Char → Nat → Prop where
  | plain {digits : List Char} (valid : Digits digits) : Unsigned digits (denoted digits)
  | plus {digits : List Char} (valid : Digits digits) : Unsigned ('+' :: digits) (denoted digits)

/-- The positions are the unsigned numbers below 2 to the 64. -/
theorem position?_eq_some_iff {k : Nat} :
    position? text = some k ↔ Unsigned text k ∧ k < 2 ^ 64 := by
  have bound : ∀ k, k < 18446744073709551616 ↔ k < 2 ^ 64 := fun _ => Iff.rfl
  constructor
  · intro read
    unfold position? at read
    simp only [Option.filter_eq_some_iff, digits?_eq_some_iff, decide_eq_true_iff, bound] at read
    split at read <;> obtain ⟨⟨valid, rfl⟩, small⟩ := read
    · exact ⟨.plus valid, small⟩
    · exact ⟨.plain valid, small⟩
  · rintro ⟨unsigned, small⟩
    unfold position?
    simp only [Option.filter_eq_some_iff, digits?_eq_some_iff, decide_eq_true_iff, bound]
    cases unsigned with
    | plus valid => exact ⟨⟨valid, rfl⟩, small⟩
    | plain valid =>
        split
        · exact absurd (valid.all '+' List.mem_cons_self) (by decide)
        · exact ⟨⟨valid, rfl⟩, small⟩

/-! ### Writing -/

theorem digitChar_of_isDigit {c : Char} (digit : c.isDigit = true) :
    c.toNat - '0'.toNat < 10 ∧ Nat.digitChar (c.toNat - '0'.toNat) = c := by
  have bounds : 48 ≤ c.toNat ∧ c.toNat ≤ 57 := Char.isDigit_iff_toNat.mp digit
  have small : c.toNat - '0'.toNat < 10 := by
    change c.toNat - 48 < 10
    omega
  refine ⟨small, Char.toNat_inj.mp ?_⟩
  rw [Nat.toNat_digitChar_of_lt_ten small]
  change 48 + (c.toNat - 48) = c.toNat
  omega

/-- Digits behind the numeral of a positive number are kept as they are. -/
theorem toDigits_ofDigitChars {front : Nat} (positive : 0 < front)
    (all : ∀ c ∈ text, c.isDigit = true) :
    Nat.toDigits 10 (Nat.ofDigitChars 10 text front) = Nat.toDigits 10 front ++ text := by
  induction text generalizing front with
  | nil => simp
  | cons c text continued =>
      obtain ⟨digit, all⟩ := List.forall_mem_cons.mp all
      obtain ⟨small, same⟩ := digitChar_of_isDigit digit
      have next := Nat.toDigits_append_toDigits (by decide : 1 < 10) positive small
      rw [Nat.toDigits_of_lt_base small, same] at next
      rw [Nat.ofDigitChars_cons, continued (by omega) all, ← next, List.append_assoc]
      rfl

theorem toDigits_denoted {first : Char} {rest : List Char} (valid : Digits (first :: rest))
    (leading : first ≠ '0') : Nat.toDigits 10 (denoted (first :: rest)) = first :: rest := by
  obtain ⟨digit, all⟩ := List.forall_mem_cons.mp valid.all
  obtain ⟨small, same⟩ := digitChar_of_isDigit digit
  have positive : 0 < first.toNat - '0'.toNat := by
    apply Nat.pos_of_ne_zero
    intro zero
    rw [zero] at same
    exact leading same.symm
  rw [← ofDigitChars_eq_denoted, Nat.ofDigitChars_cons, Nat.mul_zero, Nat.zero_add,
    toDigits_ofDigitChars positive all, Nat.toDigits_of_lt_base small, same]
  rfl

/-- A positive number is written without a zero in front. -/
theorem exists_toDigits {m : Nat} (positive : 0 < m) :
    ∃ first rest, Nat.toDigits 10 m = first :: rest ∧ first ≠ '0' := by
  induction m using Nat.strong_induction_on with
  | h m continued =>
      by_cases small : m < 10
      · refine ⟨m.digitChar, [], Nat.toDigits_of_lt_base small, ?_⟩
        intro zero
        rw [Nat.digitChar_eq_zero] at zero
        omega
      · obtain ⟨first, rest, front, leading⟩ := continued (m / 10) (by omega) (by omega)
        refine ⟨first, rest ++ [(m % 10).digitChar], ?_, leading⟩
        rw [Nat.toDigits_of_base_le (by decide) (by omega), front]
        rfl

theorem digits_toDigits (m : Nat) : Digits (Nat.toDigits 10 m) :=
  ⟨Nat.toDigits_ne_nil, fun _ => Nat.isDigit_of_mem_toDigits (by decide) (by decide)⟩

theorem denoted_toDigits (m : Nat) : denoted (Nat.toDigits 10 m) = m := by
  rw [← ofDigitChars_eq_denoted, Nat.ofDigitChars_ten_toDigits]

theorem toList_write_natCast (m : Nat) : (write m).toList = Nat.toDigits 10 m :=
  Nat.toList_repr

theorem toList_write_negSucc (m : Nat) :
    (write (Int.negSucc m)).toList = '-' :: Nat.toDigits 10 (m + 1) := by
  change ("-" ++ (m + 1).repr).toList = _
  rw [String.toList_append, Nat.toList_repr]
  rfl

theorem decimal_write (n : Int) : Decimal (write n).toList n := by
  -- The digits of a positive number do not start with a zero, whatever its sign.
  have canonical (m : Nat) : ∃ first rest, Nat.toDigits 10 (m + 1) = first :: rest ∧
      first ≠ '0' ∧ Digits (first :: rest) ∧ denoted (first :: rest) = m + 1 := by
    obtain ⟨first, rest, written, leading⟩ := exists_toDigits (Nat.succ_pos m)
    rw [Nat.succ_eq_add_one] at written
    exact ⟨first, rest, written, leading, written ▸ digits_toDigits _, written ▸ denoted_toDigits _⟩
  cases n with
  | ofNat m =>
      rw [Int.ofNat_eq_natCast, toList_write_natCast]
      cases m with
      | zero => exact .zero
      | succ m =>
          obtain ⟨first, rest, written, leading, valid, value⟩ := canonical m
          rw [written, ← value]
          exact .positive valid leading
  | negSucc m =>
      obtain ⟨first, rest, written, leading, valid, value⟩ := canonical m
      rw [toList_write_negSucc, written, Int.negSucc_eq, ← Nat.cast_succ, Nat.succ_eq_add_one,
        ← value]
      exact .negative valid leading

/-- A number has one canonical numeral, the one it is written as. -/
theorem decimal_iff : Decimal text n ↔ text = (write n).toList := by
  constructor
  · intro decimal
    cases decimal with
    | zero => rfl
    | positive valid leading => rw [toList_write_natCast, toDigits_denoted valid leading]
    | negative valid leading =>
        have written := toDigits_denoted valid leading
        obtain ⟨m, value⟩ : ∃ m, denoted _ = m + 1 := Nat.exists_eq_succ_of_ne_zero (by
          intro zero
          rw [zero] at written
          exact leading (List.cons.inj written).1.symm)
        rw [value] at written
        rw [value, Nat.cast_succ, ← Int.negSucc_eq, toList_write_negSucc, written]
  · intro written
    rw [written]
    exact decimal_write n

theorem Decimal.numeral (decimal : Decimal text n) : Numeral text n := by
  cases decimal with
  | zero => exact .unsigned ⟨by simp, by simp⟩
  | positive valid => exact .unsigned valid
  | negative valid => exact .minus valid

theorem Decimal.visible (decimal : Decimal text n) : ∀ c ∈ text, Text.isBlank c = false := by
  have digit {c : Char} (digit : c.isDigit = true) : Text.isBlank c = false :=
    isBlank_of_isIndexChar (by simp [isIndexChar, Char.isAlphanum, digit])
  cases decimal with
  | zero => exact List.forall_mem_singleton.mpr (by decide)
  | positive valid => exact fun c member => digit (valid.all c member)
  | negative valid =>
      exact List.forall_mem_cons.mpr ⟨by decide, fun c member => digit (valid.all c member)⟩

theorem unsigned_write (k : Nat) : Unsigned (write k).toList k := by
  have written := Unsigned.plain (digits_toDigits k)
  rwa [denoted_toDigits, ← toList_write_natCast] at written

theorem trim_write (n : Int) : Text.trim (write n).toList = (write n).toList := by
  have visible := (decimal_write n).visible
  exact Text.trim_eq_self ⟨fun c first => visible c (List.mem_of_head? first),
    fun c last => visible c (List.mem_of_getLast? last)⟩

/-- What is written is read back. -/
theorem read?_write (fits : Fits n) : read? (write n).toList = some n :=
  read?_eq_some_iff.mpr ⟨(decimal_write n).numeral, fits⟩

theorem write_injective : Function.Injective write := by
  intro m n same
  have read := signed?_eq_some_iff.mpr (decimal_write m).numeral
  rw [same, signed?_eq_some_iff.mpr (decimal_write n).numeral] at read
  exact (Option.some.inj read).symm

end TableScript.Number
