import TableScript.Fault
import TableScript.Text.Blank

namespace TableScript

/-! Values.  Every value of the language is a text; arithmetic and the ordering
comparisons read integers from texts, and `==` compares the texts themselves. -/

namespace Value

/-- The integer a value stands for, blanks around it left aside. -/
def integer (value : String) : Except RunFault Int :=
  match Number.read? (Text.trim value.toList) with
  | some n => .ok n
  | none => .error (.notInteger value)

def ofBool (truth : Bool) : String :=
  if truth then "true" else "false"

def truth (value : String) : Except RunFault Bool :=
  if value = "true" then .ok true
  else if value = "false" then .ok false
  else .error (.notBoolean value)

theorem truth_ofBool (b : Bool) : truth (ofBool b) = .ok b := by
  cases b <;> rfl

end Value

namespace Arithmetic

/-- The exact result.  Division drops the fraction, and a remainder has the
sign of the left operand. -/
def exact : Arithmetic → Int → Int → Int
  | add, left, right => left + right
  | subtract, left, right => left - right
  | modulo, left, right => Int.tmod left right
  | divide, left, right => Int.tdiv left right

/-- Whether the operation leaves the range of 64 bits.  A remainder does so
where its quotient does. -/
def Overflows : Arithmetic → Int → Int → Prop
  | modulo, left, right => ¬ Number.Fits (Int.tdiv left right)
  | op, left, right => ¬ Number.Fits (op.exact left right)

instance (op : Arithmetic) (left right : Int) : Decidable (op.Overflows left right) := by
  cases op <;> exact inferInstanceAs (Decidable (¬ _))

def apply (op : Arithmetic) (left right : Int) : Except RunFault Int :=
  if op = modulo ∧ right = 0 then .error .moduloByZero
  else if op = divide ∧ right = 0 then .error .divisionByZero
  else if op.Overflows left right then .error (.overflow op left right)
  else .ok (op.exact left right)

end Arithmetic

/-- Whether a comparison holds between two values.  The ordering comparisons
read the left value first. -/
def Comparison.holds (op : Comparison) (left right : String) : Except RunFault Bool :=
  match op with
  | .equal => .ok (left == right)
  | _ =>
      match Value.integer left with
      | .error fault => .error fault
      | .ok m =>
          match Value.integer right with
          | .error fault => .error fault
          | .ok n =>
              .ok (match op with
                | .less => decide (m < n)
                | .greater => decide (m > n)
                | .lessEqual => decide (m ≤ n)
                | .greaterEqual => decide (m ≥ n)
                | .equal => decide (m = n))

end TableScript
