import QueryShaping.Value.Json

/-!
# Keys

What identifies a value among others: the width of an integer is forgotten and a floating-point number counts by
its bits as a double. A key is a tuple of such parts; rows, groups and entities are told apart by their keys.
-/

namespace QueryShaping

inductive KeyPart where
  | null
  | bool (b : Bool)
  | int (n : Int)
  | float (bits : UInt64)
  | string (s : String)
  | bytes (data : List UInt8)
  | timestamp (micros : Int)
  | uuid (u : Uuid)
deriving DecidableEq

abbrev Key := List KeyPart

def KeyPart.ofValue : Value → KeyPart
  | .null => .null
  | .bool b => .bool b
  | .int32 n => .int n.toInt
  | .int64 n => .int n.toInt
  | .float32 x => .float x.toDouble.bits
  | .float64 x => .float x.bits
  | .string s => .string s
  | .bytes data => .bytes data
  | .timestamp micros => .timestamp micros.toInt
  | .uuid u => .uuid u

/-- The place of a part's variant in the order of parts. -/
def KeyPart.rank : KeyPart → Nat
  | .null => 0
  | .bool _ => 1
  | .int _ => 2
  | .float _ => 3
  | .string _ => 4
  | .bytes _ => 5
  | .timestamp _ => 6
  | .uuid _ => 7

/-- Parts are ordered by variant first. -/
def KeyPart.compare : KeyPart → KeyPart → Ordering
  | .bool a, .bool b => Ord.compare a b
  | .int a, .int b => Ord.compare a b
  | .float a, .float b => Ord.compare a.toNat b.toNat
  | .string a, .string b => Ord.compare a b
  | .bytes a, .bytes b => compareOfLessAndEq a b
  | .timestamp a, .timestamp b => Ord.compare a b
  | .uuid a, .uuid b => compareOfLessAndEq a.bytes b.bytes
  | a, b => Ord.compare a.rank b.rank

/-- A part with its variant, floating-point numbers by the digits of their bits. -/
def KeyPart.encode : KeyPart → Json
  | .null => .string "Null"
  | .bool b => .variant "Bool" (.bool b)
  | .int n => .variant "Int" (.int n)
  | .float bits => .variant "Float" (.string (Text.hexNumber 16 bits.toNat))
  | .string s => .variant "String" (.string s)
  | .bytes data => .variant "Bytes" (.ofBytes data)
  | .timestamp micros => .variant "Timestamp" (.int micros)
  | .uuid u => .variant "Uuid" (.ofBytes u.bytes)

namespace Key

def ofValues (values : List Value) : Key :=
  values.map KeyPart.ofValue

/-- Whether no part of the key is present. -/
def allNull (key : Key) : Bool :=
  key.all (· = .null)

/-- The lexicographic order; a shorter key comes before its extensions. -/
def compare : Key → Key → Ordering
  | [], [] => .eq
  | [], _ :: _ => .lt
  | _ :: _, [] => .gt
  | a :: as, b :: bs => (a.compare b).then (compare as bs)

end Key

end QueryShaping
