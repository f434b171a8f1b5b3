import TableScript.Proofs.Number
import TableScript.Proofs.Traversal
import TableScript.Value

namespace TableScript

open Number

/-! What operators do with values.  Arithmetic gives the exact result as a number
that can be read again, or none; the ordering comparisons follow the order of the
numbers, which `==` does not see. -/

/-! ### Integers in texts -/

namespace Value

variable {value : String} {n : Int}

theorem integer_eq_ok_iff :
    integer value = .ok n ↔ Numeral (Text.trim value.toList) n ∧ Fits n := by
  rw [integer, ← read?_eq_some_iff]
  cases read? (Text.trim value.toList) <;> simp

theorem fits_of_integer (read : integer value = .ok n) : Fits n :=
  (integer_eq_ok_iff.mp read).2

theorem integer_write (fits : Fits n) : integer (write n) = .ok n := by
  rw [integer, trim_write, read?_write fits]

theorem eq_ofBool_of_truth {holds : Bool} (read : truth value = .ok holds) :
    value = ofBool holds := by
  unfold truth at read
  split at read
  · cases read
    assumption
  · split at read
    · cases read
      assumption
    · cases read

end Value

/-! ### Arithmetic -/

namespace Arithmetic

/-- A quotient without its fraction, and the remainder, which is smaller than the
divisor and has the sign of the dividend. -/
structure Truncated (m n quotient remainder : Int) : Prop where
  whole : m = quotient * n + remainder
  small : remainder.natAbs < n.natAbs
  sign : remainder = 0 ∨ remainder.sign = m.sign

/-- The operation has a result within 64 bits.  The remainder of the least number and
-1 is left out although it is 0, because their quotient is too great. -/
def Defined (m n : Int) : Arithmetic → Prop
  | add => Fits (m + n)
  | subtract => Fits (m - n)
  | divide => n ≠ 0 ∧ ∃ quotient remainder, Truncated m n quotient remainder ∧ Fits quotient
  | modulo => n ≠ 0 ∧ ¬ (m = least ∧ n = -1)

/-- The number is the exact result of the operation. -/
def Exact (m n result : Int) : Arithmetic → Prop
  | add => result = m + n
  | subtract => result = m - n
  | divide => ∃ remainder, Truncated m n result remainder
  | modulo => ∃ quotient, Truncated m n quotient result

variable {m n : Int}

theorem truncated_tdiv (nonzero : n ≠ 0) : Truncated m n (Int.tdiv m n) (Int.tmod m n) where
  whole := by rw [Int.mul_comm, Int.mul_tdiv_add_tmod]
  small := by
    rw [Int.natAbs_tmod]
    exact Nat.mod_lt _ (Int.natAbs_pos.mpr nonzero)
  sign := by
    rw [← Int.sign_eq_zero_iff_zero, Int.sign_tmod]
    split
    · exact .inl rfl
    · exact .inr rfl

/-- Quotient and remainder are determined. -/
theorem Truncated.unique {quotient remainder : Int} (division : Truncated m n quotient remainder) :
    quotient = Int.tdiv m n ∧ remainder = Int.tmod m n := by
  obtain ⟨whole, small, sign⟩ := division
  have nonzero : n ≠ 0 := by omega
  have sum : remainder + n * quotient = m := by rw [whole, Int.mul_comm, Int.add_comm]
  rcases Int.le_total 0 m with nonnegative | nonpositive
  · have upward : 0 ≤ remainder := by
      rcases sign with zero | same
      · omega
      · rwa [← Int.sign_nonneg_iff, same, Int.sign_nonneg_iff]
    obtain ⟨left, right⟩ := (Int.tdiv_tmod_unique nonnegative nonzero).mpr
      ⟨sum, upward, by omega⟩
    exact ⟨left.symm, right.symm⟩
  · have downward : remainder ≤ 0 := by
      rcases sign with zero | same
      · omega
      · rwa [← Int.sign_nonpos_iff, same, Int.sign_nonpos_iff]
    obtain ⟨left, right⟩ := (Int.tdiv_tmod_unique' nonpositive nonzero).mpr
      ⟨sum, by omega, downward⟩
    exact ⟨left.symm, right.symm⟩

/-- Only the least number divided by -1 leaves the range. -/
theorem fits_tdiv_iff (fits : Fits m) (nonzero : n ≠ 0) :
    Fits (Int.tdiv m n) ↔ ¬ (m = least ∧ n = -1) := by
  constructor
  · intro bounded extreme
    obtain ⟨rfl, rfl⟩ := extreme
    revert bounded
    decide
  · intro other
    unfold Fits least greatest at *
    by_cases unit : n = 1
    · rwa [unit, Int.tdiv_one]
    · by_cases opposite : n = -1
      · rw [opposite, Int.tdiv_neg, Int.tdiv_one]
        omega
      · have halved : (Int.tdiv m n).natAbs ≤ m.natAbs / 2 := by
          rw [Int.natAbs_tdiv]
          exact Nat.div_le_div_left (by omega) (by decide)
        omega

theorem fits_tmod (fits : Fits n) (nonzero : n ≠ 0) : Fits (Int.tmod m n) := by
  have small := (truncated_tdiv nonzero : Truncated m n _ _).small
  unfold Fits least greatest at *
  omega

variable {op : Arithmetic} {result : Int}

theorem exact_iff (defined : op.Defined m n) : op.Exact m n result ↔ result = op.exact m n := by
  cases op with
  | add | subtract => exact Iff.rfl
  | modulo =>
      constructor
      · intro remainder
        obtain ⟨_, division⟩ := remainder
        exact division.unique.2
      · intro same
        rw [same]
        exact ⟨_, truncated_tdiv defined.1⟩
  | divide =>
      constructor
      · intro quotient
        obtain ⟨_, division⟩ := quotient
        exact division.unique.1
      · intro same
        rw [same]
        exact ⟨_, truncated_tdiv defined.1⟩

theorem defined_iff (fits : Fits m) :
    op.Defined m n ↔
      ¬ (op = modulo ∧ n = 0) ∧ ¬ (op = divide ∧ n = 0) ∧ ¬ op.Overflows m n := by
  cases op with
  | add | subtract => simp [Defined, Overflows, exact]
  | modulo =>
      simp only [Defined, Overflows, true_and, reduceCtorEq, false_and, not_false_eq_true, not_not]
      exact and_congr_right fun nonzero => (fits_tdiv_iff fits nonzero).symm
  | divide =>
      simp only [Defined, Overflows, exact, true_and, reduceCtorEq, false_and, not_false_eq_true,
        not_not]
      refine and_congr_right fun nonzero => ?_
      constructor
      · intro divided
        obtain ⟨quotient, remainder, division, bounded⟩ := divided
        rwa [← division.unique.1]
      · intro bounded
        exact ⟨_, _, truncated_tdiv nonzero, bounded⟩

/-- On numbers that fit, an operation gives its exact result wherever it is
defined. -/
theorem apply_eq_ok_iff (fits : Fits m) :
    op.apply m n = .ok result ↔ op.Defined m n ∧ op.Exact m n result := by
  constructor
  · intro done
    unfold apply at done
    split at done
    · cases done
    · split at done
      · cases done
      · split at done
        · cases done
        · cases done
          have defined := (defined_iff fits).mpr ⟨‹_›, ‹_›, ‹_›⟩
          exact ⟨defined, (exact_iff defined).mpr rfl⟩
  · intro both
    obtain ⟨defined, exact⟩ := both
    obtain ⟨unmodulo, undivide, bounded⟩ := (defined_iff fits).mp defined
    rw [apply, if_neg unmodulo, if_neg undivide, if_neg bounded, (exact_iff defined).mp exact]

theorem fits_of_apply (left : Fits m) (right : Fits n) (done : op.apply m n = .ok result) :
    Fits result := by
  obtain ⟨defined, exact⟩ := (apply_eq_ok_iff left).mp done
  cases op with
  | add | subtract =>
      rw [show result = _ from exact]
      exact defined
  | modulo =>
      rw [(exact_iff defined).mp exact]
      exact fits_tmod right defined.1
  | divide =>
      obtain ⟨_, quotient, _, division, bounded⟩ := defined
      obtain ⟨_, again⟩ := exact
      rwa [again.unique.1, ← division.unique.1]

/-- The operation on the numbers that two texts stand for, of which the left one is
read first. -/
def compute (op : Arithmetic) (left right : String) : Except RunFault String := do
  let m ← Value.integer left
  let n ← Value.integer right
  (op.apply m n).map write

variable {left right text : String}

theorem compute_of_integers (leftRead : Value.integer left = .ok m)
    (rightRead : Value.integer right = .ok n) :
    op.compute left right = (op.apply m n).map write := by
  rw [compute, leftRead, rightRead]
  rfl

theorem compute_eq_ok_iff :
    op.compute left right = .ok text ↔
      ∃ m n result, Value.integer left = .ok m ∧ Value.integer right = .ok n ∧
        op.apply m n = .ok result ∧ text = write result := by
  constructor
  · intro done
    obtain ⟨m, leftRead, done⟩ := bind_eq_ok done
    obtain ⟨n, rightRead, done⟩ := bind_eq_ok done
    obtain ⟨result, applied, same⟩ := map_eq_ok done
    exact ⟨m, n, result, leftRead, rightRead, applied, same⟩
  · intro steps
    obtain ⟨m, n, result, leftRead, rightRead, applied, rfl⟩ := steps
    rw [compute_of_integers leftRead rightRead, applied]
    rfl

end Arithmetic

/-! ### Comparisons -/

namespace Comparison

/-- Two numbers stand in the order that the comparison asks for. -/
def Orders (m n : Int) : Comparison → Prop
  | less => m < n
  | greater => m > n
  | lessEqual => m ≤ n
  | greaterEqual => m ≥ n
  | equal => m = n

instance (m n : Int) : (op : Comparison) → Decidable (op.Orders m n)
  | less => inferInstanceAs (Decidable (m < n))
  | greater => inferInstanceAs (Decidable (m > n))
  | lessEqual => inferInstanceAs (Decidable (m ≤ n))
  | greaterEqual => inferInstanceAs (Decidable (m ≥ n))
  | equal => inferInstanceAs (Decidable (m = n))

/-- The comparison has a result between two values, and this is true. -/
def Holds (op : Comparison) (left right : String) : Prop :=
  op.holds left right = .ok true

variable {left right : String} {m n : Int}

theorem exists_holds_iff {op : Comparison} (ordering : op ≠ equal) :
    (∃ truth, op.holds left right = .ok truth) ↔
      (∃ m, Value.integer left = .ok m) ∧ ∃ n, Value.integer right = .ok n := by
  cases op with
  | equal => exact absurd rfl ordering
  | _ =>
      simp only [holds]
      cases Value.integer left with
      | error fault => simp
      | ok m => cases Value.integer right <;> simp

theorem holds_eq_ok (op : Comparison) (ordering : op ≠ equal)
    (leftRead : Value.integer left = .ok m) (rightRead : Value.integer right = .ok n) :
    op.holds left right = .ok (decide (op.Orders m n)) := by
  cases op with
  | equal => exact absurd rfl ordering
  | _ =>
      simp only [holds, leftRead, rightRead]
      rfl

theorem holds_iff_orders (op : Comparison) (ordering : op ≠ equal)
    (leftRead : Value.integer left = .ok m) (rightRead : Value.integer right = .ok n) :
    op.Holds left right ↔ op.Orders m n := by
  rw [Holds, holds_eq_ok op ordering leftRead rightRead, Except.ok.injEq, decide_eq_true_iff]

theorem holds_equal_iff : equal.Holds left right ↔ left = right := by
  simp [Holds, holds]

end Comparison

end TableScript
