import QueryShaping.Error
import QueryShaping.Evaluation.Like
import QueryShaping.Evaluation.Remainder
import QueryShaping.Value.Order

/-!
# Operators on values

What operators, functions and aggregates compute from values that are already there. A null operand makes the
result null, except where the connectives of three-valued logic can do without it.
-/

namespace QueryShaping

/-- A truth value; there is none where it is unknown. -/
abbrev Truth := Option Bool

namespace Truth

def both : Truth → Truth → Truth
  | some false, _ => some false
  | _, some false => some false
  | some true, some true => some true
  | _, _ => none

def either : Truth → Truth → Truth
  | some true, _ => some true
  | _, some true => some true
  | some false, some false => some false
  | _, _ => none

def toValue : Truth → Value
  | some b => .bool b
  | none => .null

end Truth

/-- The value that settles a connective without its right operand. -/
def BinaryOp.settling : BinaryOp → Truth
  | .andAlso => some false
  | .orElse => some true
  | _ => none

/-- The connective of a logical operator. -/
def BinaryOp.connect : BinaryOp → Truth → Truth → Truth
  | .orElse => Truth.either
  | _ => Truth.both

/-- The truth of an expression that has this value. -/
def truthOf (expr : Expr) : Value → Except Error Truth
  | .bool b => .ok (some b)
  | .null => .ok none
  | found => .error (.evaluation (.notABoolean expr found))

/-- Whether a condition is fulfilled; one that is unknown is not. -/
def holdsWith (expr : Expr) (v : Value) : Except Error Bool := do
  return (← truthOf expr v).getD false

def fits64 (n : Int) : Bool :=
  Int64.minValue.toInt ≤ n && n ≤ Int64.maxValue.toInt

def fits32 (n : Int) : Bool :=
  Int32.minValue.toInt ≤ n && n ≤ Int32.maxValue.toInt

/-- The result of an operator on integers, if there is one. A remainder counts as a division. -/
def integerResult? (op : BinaryOp) (a b : Int) : Option Int :=
  let checked (n : Int) : Option Int := if fits64 n then some n else none
  match op with
  | .add => checked (a + b)
  | .subtract => checked (a - b)
  | .multiply => checked (a * b)
  | .divide => if b = 0 then none else checked (a.tdiv b)
  | .modulo => if b = 0 || !fits64 (a.tdiv b) then none else some (a.tmod b)
  | _ => none

def floatOperation : BinaryOp → Float → Float → Float
  | .add => (· + ·)
  | .subtract => (· - ·)
  | .multiply => (· * ·)
  | .divide => (· / ·)
  | _ => floatRemainder

/-- Arithmetic on two values that are not null. Two narrow integers give a narrow one when the result fits. -/
def arithmetic (op : BinaryOp) (left right : Value) : Except Error Value :=
  match op, left, right with
  | .add, .string a, .string b => .ok (.string (a ++ b))
  | _, _, _ =>
    match left.int64?, right.int64? with
    | some a, some b =>
      match integerResult? op a.toInt b.toInt with
      | some n =>
        if left.int32?.isSome && right.int32?.isSome && fits32 n then .ok (.int32 (Int32.ofInt n))
        else .ok (.int64 (Int64.ofInt n))
      | none => .error (.evaluation (.outOfRange op a.toInt b.toInt))
    | _, _ =>
      match left.double?, right.double? with
      | some a, some b => .ok (.float64 (a.combine (floatOperation op) b))
      | _, _ => .error (.evaluation (.cannotApply op left right))

/-- Whether an order is one that a comparison asks for. -/
def BinaryOp.admits : BinaryOp → Ordering → Bool
  | .equal, o => o == .eq
  | .notEqual, o => o != .eq
  | .lessThan, o => o == .lt
  | .lessThanOrEqual, o => o != .gt
  | .greaterThan, o => o == .gt
  | _, o => o != .lt

/-- An operator that is no connective, on two values. -/
def applyBinary (op : BinaryOp) (left right : Value) : Except Error Value :=
  if left.isNull || right.isNull then .ok .null
  else if op.isComparison then
    match left.compare? right with
    | some o => .ok (.bool (op.admits o))
    | none => .error (.evaluation (.cannotCompare left right))
  else arithmetic op left right

def negate : Value → Except Error Value
  | .null => .ok .null
  | .int32 n => .ok (.int32 (-n))
  | .int64 n => .ok (.int64 (-n))
  | .float32 x => .ok (.float32 x.neg)
  | .float64 x => .ok (.float64 x.neg)
  | operand => .error (.evaluation (.cannotNegate operand))

/-- A unary operator on the value of an expression. -/
def applyUnary (op : UnaryOp) (expr : Expr) (operand : Value) : Except Error Value :=
  match op with
  | .isNull => .ok (.bool operand.isNull)
  | .isNotNull => .ok (.bool !operand.isNull)
  | .not => do
    let truth ← truthOf expr operand
    return Truth.toValue (truth.map (!·))
  | .negate => negate operand

/-- Whether a value is among candidates. It is unknown when it is not found and a candidate is null. -/
def membership (item : Value) (candidates : List Value) : Truth :=
  if candidates.any fun c => !c.isNull && item.looselyEquals c then some true
  else if candidates.any Value.isNull then none
  else some false

/-- The result of `IN` or `NOT IN`. -/
def membershipValue (item : Value) (candidates : List Value) (negated : Bool) : Value :=
  Truth.toValue ((membership item candidates).map (· != negated))

/-- The result of `LIKE` with an optional escape, of which the first character counts. -/
def applyLike (subject pattern : Value) (escape : Option Value) : Except Error Value :=
  let matched (escape : Option Char) : Except Error Value :=
    match subject, pattern with
    | .null, _ => .ok .null
    | _, .null => .ok .null
    | .string s, .string p => .ok (.bool (likeMatches s p escape))
    | _, _ => .error (.evaluation (.likeNeedsTexts subject pattern))
  match escape with
  | none => matched none
  | some (.string e) => matched e.toList.head?
  | some .null => .ok .null
  | some found => .error (.evaluation (.escapeNotAText found))

/-- A function that is no aggregate, by its name in any case. -/
def applyFunction (name : String) (arguments : List Value) : Except Error Value :=
  match Text.asciiUppercase name, arguments with
  | "COALESCE", _ => .ok ((arguments.find? fun v => !v.isNull).getD .null)
  | _, [.null] => .ok .null
  | "UPPER", [.string s] => .ok (.string (Text.uppercase s))
  | "LOWER", [.string s] => .ok (.string (Text.lowercase s))
  | "LENGTH", [.string s] => .ok (.int32 (Int32.ofNat s.length))
  | "ABS", [.int32 n] => .ok (.int32 n.abs)
  | "ABS", [.int64 n] => .ok (.int64 n.abs)
  | "ABS", [.float64 x] => .ok (.float64 x.abs)
  | _, _ => .error (.evaluation (.unsupportedFunction name arguments))

/-- The first of the least values. -/
def leastValue : List Value → Value
  | [] => .null
  | v :: rest => rest.foldl (fun best v => if best.sortOrder v == .gt then v else best) v

/-- The last of the greatest values. -/
def greatestValue : List Value → Value
  | [] => .null
  | v :: rest => rest.foldl (fun best v => if best.sortOrder v == .gt then best else v) v

/-- The sum of numbers as a double. -/
def floatSum (name : String) (values : List Value) : Except Error Double :=
  values.foldlM (fun total v =>
    match v.double? with
    | some x => .ok (total.add x)
    | none => .error (.evaluation (.aggregateOfNonNumber name v))) .zero

/-- An aggregate of values among which there is no null. -/
def aggregateOf (name : String) (values : List Value) : Except Error Value :=
  match name with
  | "COUNT" => .ok (.int64 (Int64.ofNat values.length))
  | "MIN" => .ok (leastValue values)
  | "MAX" => .ok (greatestValue values)
  | _ =>
    if values.isEmpty then .ok .null
    else if name = "SUM" && values.all Value.isInteger then
      .ok (.int64 (Int64.ofInt ((values.filterMap Value.int64?).foldl (fun total n => total + n.toInt) 0)))
    else do
      let total ← floatSum name values
      return .float64 (if name = "AVG" then total.div (.ofFloat (Float.ofNat values.length)) else total)

/-- An aggregate over the values that its argument has in the rows of a group. -/
def applyAggregate (name : String) (values : List Value) : Except Error Value :=
  aggregateOf (Text.asciiUppercase name) (values.filter fun v => !v.isNull)

/-- An aggregate without an argument, over a group of so many rows. -/
def countRows (name : String) (rows : Nat) : Except Error Value :=
  let name := Text.asciiUppercase name
  if name = "COUNT" then .ok (.int64 (Int64.ofNat rows))
  else .error (.evaluation (.aggregateWithoutArgument name))

end QueryShaping
