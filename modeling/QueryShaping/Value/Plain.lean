import QueryShaping.Value.Json

/-!
# Reading JSON as a plain type
-/

namespace QueryShaping

inductive PlainType where
  | bool
  | int32
  | int64
  | float
  | string
  | any
  | option (t : PlainType)
  | list (t : PlainType)
  | map (t : PlainType)

/-- The value of this type that JSON stands for, again as JSON. Integers must fit and stand for doubles too; only an
option can be `null`. -/
def PlainType.read? : PlainType → Json → Option Json
  | .bool, j => j.bool?.map .bool
  | .int32, j => j.int32?.map fun n => .int n.toInt
  | .int64, j => j.int64?.map fun n => .int n.toInt
  | .float, j => j.number?.map .float
  | .string, j => j.string?.map .string
  | .any, j => some j
  | .option _, .null => some .null
  | .option t, j => t.read? j
  | .list t, j => (j.listWith? t.read?).map .array
  | .map t, .object members => (members.mapM fun m => (t.read? m.2).map fun v => (m.1, v)).map .object
  | .map _, _ => none

end QueryShaping
