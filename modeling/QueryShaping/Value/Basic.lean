import QueryShaping.Value.Double

/-!
# Values

A value as it is stored in a row, bound to a parameter or produced for a result. Equality on values tells the
variants apart, so a 32-bit and a 64-bit one are different values, and follows the comparison of floating-point
numbers, so a number that is none differs from itself.
-/

namespace QueryShaping

/-- Sixteen bytes. -/
structure Uuid where
  bytes : List UInt8
  size : bytes.length = 16
deriving DecidableEq

inductive Value where
  | null
  | bool (b : Bool)
  | int32 (n : Int32)
  | int64 (n : Int64)
  | float32 (x : Single)
  | float64 (x : Double)
  | string (s : String)
  | bytes (data : List UInt8)
  | timestamp (micros : Int64)
  | uuid (u : Uuid)
deriving BEq

instance : Inhabited Value := ⟨.null⟩

namespace Value

def isNull : Value → Bool
  | .null => true
  | _ => false

/-- The name of the variant. -/
def typeName : Value → String
  | .null => "null"
  | .bool _ => "bool"
  | .int32 _ => "int32"
  | .int64 _ => "int64"
  | .float32 _ => "float32"
  | .float64 _ => "float64"
  | .string _ => "string"
  | .bytes _ => "bytes"
  | .timestamp _ => "timestamp"
  | .uuid _ => "uuid"

def bool? : Value → Option Bool
  | .bool b => some b
  | _ => none

def int32? : Value → Option Int32
  | .int32 n => some n
  | _ => none

/-- An integer of either width. -/
def int64? : Value → Option Int64
  | .int64 n => some n
  | .int32 n => some n.toInt64
  | _ => none

/-- A number of any kind as a double. -/
def double? : Value → Option Double
  | .float64 x => some x
  | .float32 x => some x.toDouble
  | .int32 n => some (.ofInt64 n.toInt64)
  | .int64 n => some (.ofInt64 n)
  | _ => none

def string? : Value → Option String
  | .string s => some s
  | _ => none

def bytes? : Value → Option (List UInt8)
  | .bytes data => some data
  | _ => none

def uuid? : Value → Option Uuid
  | .uuid u => some u
  | _ => none

def isInteger : Value → Bool
  | .int32 _ | .int64 _ => true
  | _ => false

def isFloat : Value → Bool
  | .float32 _ | .float64 _ => true
  | _ => false

end Value

end QueryShaping
