import QueryShaping.Value.Basic

/-!
# Comparing values

Numbers compare across widths, through doubles as soon as one of them is a floating-point number; all other
variants compare with their own kind only. Sorting puts nulls first and leaves values that do not compare where
they are.
-/

namespace QueryShaping

/-- The order of two doubles, none when one of them is no number. -/
def Double.compare? (a b : Double) : Option Ordering :=
  if a.isNaN || b.isNaN then none else some (Ord.compare a.place b.place)

namespace Value

/-- The order of two values that are comparable. -/
def compare? : Value → Value → Option Ordering
  | .bool a, .bool b => some (Ord.compare a b)
  | .string a, .string b => some (Ord.compare a b)
  | .timestamp a, .timestamp b => some (Ord.compare a.toInt b.toInt)
  | .bytes a, .bytes b => some (compareOfLessAndEq a b)
  | .uuid a, .uuid b => some (compareOfLessAndEq a.bytes b.bytes)
  | a, b =>
    if a.isFloat || b.isFloat then do
      (← a.double?).compare? (← b.double?)
    else do
      return Ord.compare (← a.int64?).toInt (← b.int64?).toInt

/-- Equality that ignores the width of numbers. Two nulls are equal here. -/
def looselyEquals : Value → Value → Bool
  | .null, .null => true
  | a, b => a.compare? b == some .eq

/-- The order used for sorting. -/
def sortOrder : Value → Value → Ordering
  | .null, .null => .eq
  | .null, _ => .lt
  | _, .null => .gt
  | a, b => (a.compare? b).getD .eq

end Value

end QueryShaping
