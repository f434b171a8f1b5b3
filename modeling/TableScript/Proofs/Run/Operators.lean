import TableScript.Proofs.Run.Evaluation

namespace TableScript

open Number

/-! Operators in a run.  Arithmetic on the texts that its operands evaluate to is exact
or fails, and what it writes are canonical numerals; so on results of arithmetic the
textual `==` agrees with the comparisons of numbers. -/

/-! ### Arithmetic -/

/-- How arithmetic on two texts may end.  It succeeds where both are integers and the
operation is defined, and then with the canonical numeral of the exact result, after
both operands; otherwise it fails with an error of the run. -/
structure Arithmetic.ExactOrFails (op : Arithmetic) (left right : String)
    (ends : Except Error String → State → Prop) (after : State) : Prop where
  succeeds : (∃ text last, ends (.ok text) last) ↔
    ∃ m n, Value.integer left = .ok m ∧ Value.integer right = .ok n ∧ op.Defined m n
  exact : ∀ text last, ends (.ok text) last → last = after ∧
    ∃ m n result, Value.integer left = .ok m ∧ Value.integer right = .ok n ∧
      op.Exact m n result ∧ Decimal text.toList result ∧ Value.integer text = .ok result
  fails : (∃ text last, ends (.ok text) last) ∨
    ∃ fault last, ends (.error (.runtime fault)) last
  only : ∀ error last, ends (.error error) last → ∃ fault, error = .runtime fault
  overflow : op = .modulo → Value.integer left = .ok least → Value.integer right = .ok (-1) →
    ends (.error (.runtime (.overflow .modulo least (-1)))) after

namespace Arithmetic

variable {op : Arithmetic} {left right text : String}

theorem exists_compute_iff :
    (∃ text, op.compute left right = .ok text) ↔
      ∃ m n, Value.integer left = .ok m ∧ Value.integer right = .ok n ∧ op.Defined m n := by
  constructor
  · intro computed
    obtain ⟨text, done⟩ := computed
    obtain ⟨m, n, result, leftRead, rightRead, applied, _⟩ := compute_eq_ok_iff.mp done
    have defined := ((apply_eq_ok_iff (Value.fits_of_integer leftRead)).mp applied).1
    exact ⟨m, n, leftRead, rightRead, defined⟩
  · intro integers
    obtain ⟨m, n, leftRead, rightRead, defined⟩ := integers
    have applied := (apply_eq_ok_iff (Value.fits_of_integer leftRead)).mpr
      ⟨defined, (exact_iff defined).mpr rfl⟩
    exact ⟨_, compute_eq_ok_iff.mpr ⟨m, n, _, leftRead, rightRead, applied, rfl⟩⟩

/-- A result is the numeral of a number that fits, and is read as that number. -/
theorem exact_compute (done : op.compute left right = .ok text) :
    ∃ m n result, Value.integer left = .ok m ∧ Value.integer right = .ok n ∧
      op.Exact m n result ∧ Decimal text.toList result ∧ Value.integer text = .ok result := by
  obtain ⟨m, n, result, leftRead, rightRead, applied, rfl⟩ := compute_eq_ok_iff.mp done
  have leftFits := Value.fits_of_integer leftRead
  have fits := fits_of_apply leftFits (Value.fits_of_integer rightRead) applied
  exact ⟨m, n, result, leftRead, rightRead, ((apply_eq_ok_iff leftFits).mp applied).2,
    decimal_write result, Value.integer_write fits⟩

end Arithmetic

theorem Code.Evaluates.exactOrFails (op : Arithmetic) {left right : Code}
    {first second : String} {state middle after : State}
    (leftValue : left.Evaluates state (.ok first) middle)
    (rightValue : right.Evaluates middle (.ok second) after) :
    op.ExactOrFails first second ((Code.arithmetic op left right).Evaluates state) after := by
  obtain ⟨last, evaluated, complete⟩ := leftValue.arithmetic op rightValue
  constructor
  case succeeds =>
    rw [← Arithmetic.exists_compute_iff]
    constructor
    · intro succeeds
      obtain ⟨text, reached, ended⟩ := succeeds
      exact ⟨text, mapError_eq_ok (ended.unique evaluated).1.symm⟩
    · intro computed
      obtain ⟨text, done⟩ := computed
      rw [done] at evaluated
      exact ⟨text, last, evaluated⟩
  case exact =>
    intro text reached ended
    obtain ⟨same, rfl⟩ := ended.unique evaluated
    obtain ⟨m, n, result, leftRead, exact⟩ := Arithmetic.exact_compute (mapError_eq_ok same.symm)
    exact ⟨complete m leftRead, m, n, result, leftRead, exact⟩
  case fails =>
    cases computed : op.compute first second with
    | ok text =>
        rw [computed] at evaluated
        exact .inl ⟨text, last, evaluated⟩
    | error fault =>
        rw [computed] at evaluated
        exact .inr ⟨fault, last, evaluated⟩
  case only =>
    intro error reached ended
    obtain ⟨fault, _, same⟩ := mapError_eq_error (ended.unique evaluated).1.symm
    exact ⟨fault, same⟩
  case overflow =>
    intro modulo leftRead rightRead
    subst modulo
    rw [Arithmetic.compute_of_integers leftRead rightRead] at evaluated
    rw [complete least leftRead] at evaluated
    exact evaluated

/-- Integer arithmetic is exact or fails.  A text is read as an integer if and only if,
without the blanks around it, it is a numeral of a number with 64 bits; what is written
is read back; and an operation on what two operands evaluate to gives the canonical
numeral of its exact result, or else an error of the run. -/
theorem arithmetic_exact_or_fails :
    (∀ (text : String) (n : Int), Value.integer text = .ok n ↔
      Numeral (Text.trim text.toList) n ∧ -2 ^ 63 ≤ n ∧ n ≤ 2 ^ 63 - 1) ∧
    (∀ n : Int, -2 ^ 63 ≤ n → n ≤ 2 ^ 63 - 1 → Value.integer (write n) = .ok n) ∧
    (∀ (text : List Char) (n : Int), Decimal text n ↔ text = (write n).toList) ∧
    ∀ (op : Arithmetic) (left right : Code) (first second : String) (state middle after : State),
      left.Evaluates state (.ok first) middle → right.Evaluates middle (.ok second) after →
      op.ExactOrFails first second ((Code.arithmetic op left right).Evaluates state) after := by
  refine ⟨?_, ?_, ?_, ?_⟩
  · intro text n
    exact Value.integer_eq_ok_iff
  · intro n lower upper
    exact Value.integer_write ⟨lower, upper⟩
  · intro text n
    exact decimal_iff
  · intro op left right first second state middle after leftValue rightValue
    exact leftValue.exactOrFails op rightValue

/-- A dividend between blanks and with leading zeros is divided without the fraction;
and the least number has no remainder by -1. -/
theorem arithmetic_exact_or_fails_least :
    Value.integer "\u00a0-007\n" = .ok (-7) ∧
      Arithmetic.ExactOrFails .divide "\u00a0-007\n" "+2"
        ((Code.arithmetic .divide (.literal "\u00a0-007\n") (.literal "+2")).Evaluates (.fresh 1))
        (.fresh 1) ∧
      (Code.arithmetic .divide (.literal "\u00a0-007\n") (.literal "+2")).Evaluates (.fresh 1)
        (.ok "-3") (.fresh 1) ∧
      Value.integer (write least) = .ok least ∧
      (Code.arithmetic .modulo (.literal (write least)) (.literal "-1")).Evaluates (.fresh 1)
        (.error (.runtime (.overflow .modulo least (-1)))) (.fresh 1) := by
  obtain ⟨_, readBack, _, exact⟩ := arithmetic_exact_or_fails
  have shown : Value.integer "\u00a0-007\n" = .ok (-7) := rfl
  have least : Value.integer (write least) = .ok least := readBack least (by decide) (by decide)
  have divided := exact .divide _ _ _ _ _ _ _
    (Code.evaluates_literal "\u00a0-007\n" (.fresh 1)) (Code.evaluates_literal "+2" (.fresh 1))
  have remainder := exact .modulo _ _ _ _ _ _ _
    (Code.evaluates_literal (write Number.least) (.fresh 1))
    (Code.evaluates_literal "-1" (.fresh 1))
  refine ⟨shown, divided, Code.evaluates_of_ended (show (eval 2 _ _).ended? = _ from rfl), least,
    remainder.overflow rfl least rfl⟩

/-! ### Comparisons -/

/-- The text is the result of an arithmetic expression somewhere in a run. -/
def Computed (text : String) : Prop :=
  ∃ op left right state after, (Code.arithmetic op left right).Evaluates state (.ok text) after

/-- What arithmetic gives are the written forms of the integers, and nothing else. -/
theorem computed_iff {text : String} : Computed text ↔ ∃ n, Fits n ∧ text = write n := by
  constructor
  · intro computed
    obtain ⟨op, left, right, state, after, evaluated⟩ := computed
    obtain ⟨enough, done⟩ := evaluated.eventually_done
    obtain ⟨m, middle, leftDone, done⟩ :=
      Outcome.andThen_eq_done (done (enough + 1) (Nat.le_succ enough))
    obtain ⟨n, last, rightDone, done⟩ := Outcome.andThen_eq_done done
    obtain ⟨applied, _⟩ := Outcome.ofRun_eq_done done
    obtain ⟨result, applied, same⟩ := map_eq_ok applied
    obtain ⟨_, _, leftRead⟩ := Run.integer_eq_done leftDone
    obtain ⟨_, _, rightRead⟩ := Run.integer_eq_done rightDone
    have fits := Arithmetic.fits_of_apply (Value.fits_of_integer leftRead)
      (Value.fits_of_integer rightRead) applied
    exact ⟨result, fits, same⟩
  · intro written
    obtain ⟨n, fits, rfl⟩ := written
    -- Adding 0 to a number gives its numeral.
    have read := Value.integer_write fits
    have zero : Value.integer "0" = .ok 0 := rfl
    have sum : Arithmetic.add.apply n 0 = .ok n :=
      (Arithmetic.apply_eq_ok_iff fits).mpr
        ⟨show Fits (n + 0) by rwa [Int.add_zero], (Int.add_zero n).symm⟩
    have computed : Arithmetic.add.compute (write n) "0" = .ok (write n) :=
      Arithmetic.compute_eq_ok_iff.mpr ⟨n, 0, n, read, zero, sum, rfl⟩
    obtain ⟨last, evaluated, _⟩ := (Code.evaluates_literal (write n) (.fresh 0)).arithmetic .add
      (Code.evaluates_literal "0" (.fresh 0))
    rw [computed] at evaluated
    exact ⟨_, _, _, _, _, evaluated⟩

/-- One of three holds, and the other two do not. -/
def ExactlyOne (p q r : Prop) : Prop :=
  p ∧ ¬ q ∧ ¬ r ∨ ¬ p ∧ q ∧ ¬ r ∨ ¬ p ∧ ¬ q ∧ r

namespace Comparison

/-- On two texts, `==` and the comparisons of numbers are as on the numbers that the
texts stand for. -/
structure Agree (left right : String) (m n : Int) : Prop where
  sameNumber : equal.Holds left right ↔ m = n
  exactlyOne :
    ExactlyOne (less.Holds left right) (equal.Holds left right) (greater.Holds left right)
  atMost : lessEqual.Holds left right ↔ less.Holds left right ∨ equal.Holds left right
  atLeast : greaterEqual.Holds left right ↔ greater.Holds left right ∨ equal.Holds left right

variable {left right : String} {m n : Int}

theorem exactlyOne_of_integers (leftRead : Value.integer left = .ok m)
    (rightRead : Value.integer right = .ok n) :
    ExactlyOne (less.Holds left right) (less.Holds right left)
      (lessEqual.Holds left right ∧ greaterEqual.Holds left right) := by
  rw [holds_iff_orders less nofun leftRead rightRead,
    holds_iff_orders less nofun rightRead leftRead,
    holds_iff_orders lessEqual nofun leftRead rightRead,
    holds_iff_orders greaterEqual nofun leftRead rightRead]
  simp only [Orders, ExactlyOne]
  omega

theorem agree_write (leftFits : Fits m) (rightFits : Fits n) : Agree (write m) (write n) m n := by
  have leftRead := Value.integer_write leftFits
  have rightRead := Value.integer_write rightFits
  have same : equal.Holds (write m) (write n) ↔ m = n :=
    holds_equal_iff.trans write_injective.eq_iff
  have below := holds_iff_orders less nofun leftRead rightRead
  have above := holds_iff_orders greater nofun leftRead rightRead
  have atMost := holds_iff_orders lessEqual nofun leftRead rightRead
  have atLeast := holds_iff_orders greaterEqual nofun leftRead rightRead
  simp only [Orders] at below above atMost atLeast
  refine ⟨same, ?_, ?_, ?_⟩
  · rw [same, below, above, ExactlyOne]
    omega
  · rw [same, below, atMost]
    omega
  · rw [same, above, atLeast]
    omega

end Comparison

/-- The textual `==` agrees with the comparisons of numbers on computed integers.  A
comparison gives what it gives for the values of its operands.  Those of numbers succeed
if and only if both values are integers, and follow the order of these; and between
results of arithmetic `==` is equality of numbers, so that exactly one of `<`, `==` and
`>` is true. -/
theorem comparisons_agree :
    (∀ (op : Comparison) (left right : Code) (first second : String)
        (state middle after : State),
      left.Evaluates state (.ok first) middle → right.Evaluates middle (.ok second) after →
      (Code.compare op left right).Evaluates state
        (((op.holds first second).map Value.ofBool).mapError Error.runtime) after) ∧
    (∀ (op : Comparison) (first second : String), op ≠ .equal →
      ((∃ truth, op.holds first second = .ok truth) ↔
        (∃ m, Value.integer first = .ok m) ∧ ∃ n, Value.integer second = .ok n) ∧
      ∀ m n, Value.integer first = .ok m → Value.integer second = .ok n →
        (op.Holds first second ↔ op.Orders m n)) ∧
    (∀ (first second : String) (m n : Int), Value.integer first = .ok m →
      Value.integer second = .ok n →
      ExactlyOne (Comparison.less.Holds first second) (Comparison.less.Holds second first)
        (Comparison.lessEqual.Holds first second ∧ Comparison.greaterEqual.Holds first second)) ∧
    ∀ first second : String, Computed first → Computed second →
      ∃ m n, Value.integer first = .ok m ∧ Value.integer second = .ok n ∧
        Comparison.Agree first second m n := by
  refine ⟨?_, ?_, ?_, ?_⟩
  · intro op left right first second state middle after leftValue rightValue
    exact leftValue.compare op rightValue
  · intro op first second ordering
    exact ⟨Comparison.exists_holds_iff ordering,
      fun m n => Comparison.holds_iff_orders op ordering⟩
  · intro first second m n
    exact Comparison.exactlyOne_of_integers
  · intro first second firstComputed secondComputed
    obtain ⟨m, leftFits, rfl⟩ := computed_iff.mp firstComputed
    obtain ⟨n, rightFits, rfl⟩ := computed_iff.mp secondComputed
    exact ⟨m, n, Value.integer_write leftFits, Value.integer_write rightFits,
      Comparison.agree_write leftFits rightFits⟩

/-- A literal like `07` is a number like the other, but not the same text; what is
computed is written the same way, and of the comparisons exactly one is true. -/
theorem comparisons_agree_computed :
    ExactlyOne (Comparison.less.Holds "07" "+7") (Comparison.less.Holds "+7" "07")
        (Comparison.lessEqual.Holds "07" "+7" ∧ Comparison.greaterEqual.Holds "07" "+7") ∧
      (Code.compare .equal (.literal "07") (.literal "+7")).Evaluates (.fresh 0) (.ok "false")
        (.fresh 0) ∧
      Computed "7" ∧ Computed "-12" ∧ Comparison.Agree "7" "-12" 7 (-12) := by
  obtain ⟨compared, _, ordered, agree⟩ := comparisons_agree
  have seven : Computed "7" := computed_iff.mpr ⟨7, by decide, rfl⟩
  have minus : Computed "-12" := computed_iff.mpr ⟨-12, by decide, rfl⟩
  refine ⟨ordered _ _ 7 7 rfl rfl, ?_, seven, minus, ?_⟩
  · exact compared .equal _ _ _ _ _ _ _ (Code.evaluates_literal "07" (.fresh 0))
      (Code.evaluates_literal "+7" (.fresh 0))
  · obtain ⟨m, n, leftRead, rightRead, agreed⟩ := agree _ _ seven minus
    cases leftRead
    cases rightRead
    exact agreed

end TableScript
