import QueryShaping.Value.Basic
import QueryShaping.Json.Basic
import QueryShaping.Text.Hex

/-!
# Values as JSON

Two forms. `Value.toJson` is the plain rendering of a result, in which bytes are hexadecimal text and the variant
is lost. `Value.encode` names the variant and can be read back by `Value.decode?`; only a floating-point number
that is not finite has no such form and is written as `null`.
-/

namespace QueryShaping

/-- A double, or `null` when it is not finite. -/
def Json.ofDouble (x : Double) : Json :=
  if x.isFinite then .float x.toFloat else .null

def Json.ofBytes (data : List UInt8) : Json :=
  .array (data.map fun b => .int b.toNat)

/-- An object whose one member names a variant. -/
def Json.variant (tag : String) (payload : Json) : Json :=
  .object [(tag, payload)]

namespace Json

/-- An integer between two bounds. -/
def intBetween? (low high : Int) (j : Json) : Option Int :=
  j.int?.filter fun n => low ≤ n && n ≤ high

def int32? (j : Json) : Option Int32 :=
  (j.intBetween? Int32.minValue.toInt Int32.maxValue.toInt).map Int32.ofInt

def int64? (j : Json) : Option Int64 :=
  (j.intBetween? Int64.minValue.toInt Int64.maxValue.toInt).map Int64.ofInt

def byte? (j : Json) : Option UInt8 :=
  (j.intBetween? 0 255).map fun n => n.toNat.toUInt8

/-- The nearest double of a number. -/
def double? (j : Json) : Option Double :=
  j.number?.map .ofFloat

/-- The nearest single of an integer; any other number is read as a double first. -/
def single? : Json → Option Single
  | .int n => some (.ofFloat32 (Float32.ofInt n))
  | j => j.double?.map Double.toSingle

def bytes? (j : Json) : Option (List UInt8) :=
  j.listWith? byte?

def uuid? (j : Json) : Option Uuid := do
  let data ← j.bytes?
  if h : data.length = 16 then some ⟨data, h⟩ else none

end Json

namespace Value

def toJson : Value → Json
  | .null => .null
  | .bool b => .bool b
  | .int32 n => .int n.toInt
  | .int64 n => .int n.toInt
  | .float32 x => .ofDouble x.toDouble
  | .float64 x => .ofDouble x
  | .string s => .string s
  | .bytes data => .string (Text.hexText data)
  | .timestamp micros => .int micros.toInt
  | .uuid u => .string (Text.hexText u.bytes)

def encode : Value → Json
  | .null => .string "Null"
  | .bool b => .variant "Bool" (.bool b)
  | .int32 n => .variant "Int32" (.int n.toInt)
  | .int64 n => .variant "Int64" (.int n.toInt)
  | .float32 x => .variant "Float32" (.ofDouble x.toDouble)
  | .float64 x => .variant "Float64" (.ofDouble x)
  | .string s => .variant "String" (.string s)
  | .bytes data => .variant "Bytes" (.ofBytes data)
  | .timestamp micros => .variant "Timestamp" (.int micros.toInt)
  | .uuid u => .variant "Uuid" (.ofBytes u.bytes)

/-- The value with this tag and payload. -/
def ofTagged? (tag : String) (payload : Json) : Option Value :=
  match tag with
  | "Null" => match payload with
    | .null => some .null
    | _ => none
  | "Bool" => payload.bool?.map .bool
  | "Int32" => payload.int32?.map .int32
  | "Int64" => payload.int64?.map .int64
  | "Float32" => payload.single?.map .float32
  | "Float64" => payload.double?.map .float64
  | "String" => payload.string?.map .string
  | "Bytes" => payload.bytes?.map .bytes
  | "Timestamp" => payload.int64?.map .timestamp
  | "Uuid" => payload.uuid?.map .uuid
  | _ => none

def decode? : Json → Option Value
  | .string tag => if tag = "Null" then some .null else none
  | .object [(tag, payload)] => ofTagged? tag payload
  | _ => none

end Value

end QueryShaping
