import TableScript.Text.Blank

namespace TableScript.Number

/-! Decimal numbers.  Integers have 64 bits and a sign; positions in an array
have 64 bits and no sign.  A written integer is canonical: no leading zero, no
plus sign and no negative zero. -/

def least : Int := -9223372036854775808

def greatest : Int := 9223372036854775807

def Fits (n : Int) : Prop := least ≤ n ∧ n ≤ greatest

instance (n : Int) : Decidable (Fits n) :=
  inferInstanceAs (Decidable (least ≤ n ∧ n ≤ greatest))

def digits? (text : List Char) : Option Nat :=
  if text.isEmpty || !text.all Char.isDigit then none else some (Nat.ofDigitChars 10 text 0)

/-- An optional sign and digits, of any size. -/
def signed? : List Char → Option Int
  | '-' :: text => (digits? text).map fun n => -(n : Int)
  | '+' :: text => (digits? text).map fun n => (n : Int)
  | text => (digits? text).map fun n => (n : Int)

/-- Reads an integer of 64 bits; leading zeros and a plus sign are allowed. -/
def read? (text : List Char) : Option Int :=
  (signed? text).filter fun n => decide (Fits n)

/-- Reads a position: an optional plus sign and digits, below 2 to the 64. -/
def position? (text : List Char) : Option Nat :=
  let digits := match text with
    | '+' :: rest => rest
    | _ => text
  (digits? digits).filter fun n => decide (n < 18446744073709551616)

def write (n : Int) : String := Int.repr n

end TableScript.Number
