import QueryShaping.Value.Json

/-!
# The exact form of values

JSON that keeps every floating-point number, also one that is not finite: a double is the text of its bits, and
there is one text for all that are not numbers.
-/

namespace QueryShaping

def exactMark : String := "f64:"

/-- The text of a double by its bits. -/
def exactText (x : Double) : String :=
  exactMark ++ if x.isNaN then "nan" else Text.hexNumber 16 x.bits.toNat

/-- The double that such a text stands for. -/
def exactDouble? (s : String) : Option Double := do
  guard (s.startsWith exactMark)
  let rest := String.ofList (s.toList.drop exactMark.length)
  if rest = "nan" then return .nan
  let data ← (Text.readHex rest).toOption
  guard (data.length = 8)
  return ⟨UInt64.ofNat (data.foldl (fun n b => n * 256 + b.toNat) 0)⟩

mutual

/-- JSON in which every double is text. -/
def Json.exact : Json → Json
  | .float x => .string (exactText (.ofFloat x))
  | .array items => .array (Json.exactAll items)
  | .object members => .object (Json.exactMembers members)
  | .null => .null
  | .bool b => .bool b
  | .int n => .int n
  | .string s => .string s

def Json.exactAll : List Json → List Json
  | [] => []
  | j :: rest => j.exact :: Json.exactAll rest

def Json.exactMembers : List (String × Json) → List (String × Json)
  | [] => []
  | (name, j) :: rest => (name, j.exact) :: Json.exactMembers rest

end

namespace Value

def encodeExact : Value → Json
  | .float32 x => .variant "Float32" (.string (exactText x.toDouble))
  | .float64 x => .variant "Float64" (.string (exactText x))
  | v => v.encode

/-- Reads a value whose double may be text or a number. -/
def decodeExact? : Json → Option Value
  | .object [("Float32", .string s)] => (exactDouble? s).map fun x => .float32 x.toSingle
  | .object [("Float64", .string s)] => (exactDouble? s).map .float64
  | j => decode? j

end Value

end QueryShaping
