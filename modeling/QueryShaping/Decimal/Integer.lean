import QueryShaping.Text.Blank

/-!
# Reading integers

A decimal integer is an optional sign and at least one digit. Digits are read from the left, and the
first difficulty met is the one reported: a character that is no digit, or a digit that takes the number
out of the signed 64-bit range.
-/

namespace QueryShaping.Decimal

/-- Why a text is not an integer in range. -/
inductive IntegerFault where
  | empty
  | badDigit
  | tooLarge
  | tooSmall
deriving DecidableEq

def IntegerFault.message : IntegerFault → String
  | .empty => "cannot parse integer from empty string"
  | .badDigit => "invalid digit found in string"
  | .tooLarge => "number too large to fit in target type"
  | .tooSmall => "number too small to fit in target type"

/-- The value of an ASCII digit. -/
def digitValue? (c : Char) : Option Nat :=
  if '0' ≤ c ∧ c ≤ '9' then some (c.toNat - 48) else none

/-- Appends digits to a number that is not negative. -/
def readUpward (n : Int) : List Char → Except IntegerFault Int
  | [] => .ok n
  | c :: cs =>
    match digitValue? c with
    | none => .error .badDigit
    | some d =>
      let next := n * 10 + d
      if Int64.maxValue.toInt < next then .error .tooLarge else readUpward next cs

/-- Appends digits to a number that is not positive. -/
def readDownward (n : Int) : List Char → Except IntegerFault Int
  | [] => .ok n
  | c :: cs =>
    match digitValue? c with
    | none => .error .badDigit
    | some d =>
      let next := n * 10 - d
      if next < Int64.minValue.toInt then .error .tooSmall else readDownward next cs

/-- The integer that a text without blanks stands for. -/
def readSigned : List Char → Except IntegerFault Int
  | [] => .error .empty
  | ['+'] | ['-'] => .error .badDigit
  | '+' :: cs => readUpward 0 cs
  | '-' :: cs => readDownward 0 cs
  | cs => readUpward 0 cs

/-- Reads an integer, ignoring blanks around it. -/
def readInteger (s : String) : Except IntegerFault Int :=
  readSigned (Text.trimBlanks s.toList)

end QueryShaping.Decimal
