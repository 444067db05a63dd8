/-!
# JSON values

Numbers are kept apart by how they are written: an integer is exact, any other number is the nearest double.
Members of an object stay in order, repetitions included; a look-up finds the last of them.

Decoders that descend into a value recurse on `Json.Part`, a part of a value together with the fact that it
is smaller.
-/

namespace QueryShaping

inductive Json where
  | null
  | bool (b : Bool)
  | int (n : Int)
  | float (x : Float)
  | string (s : String)
  | array (items : List Json)
  | object (members : List (String × Json))
deriving Inhabited

namespace Json

/-- A value that is strictly inside another one. -/
structure Part (whole : Json) where
  value : Json
  smaller : sizeOf value < sizeOf whole

/-- The items of an array. -/
def parts? (j : Json) : Option (List (Part j)) :=
  match j with
  | .array items =>
    some (items.attach.map fun ⟨item, h⟩ =>
      ⟨item, by have := List.sizeOf_lt_of_mem h; simp; omega⟩)
  | _ => none

/-- The tag and the payload of a value written as an object with one member. -/
def tagged? (j : Json) : Option (String × Part j) :=
  match j with
  | .object [(tag, payload)] => some (tag, ⟨payload, by simp; omega⟩)
  | _ => none

/-- The parts of a value that are its fields, by name. -/
structure Fields (whole : Json) where
  named : List (String × Part whole)

/-- The members of an object as fields. -/
def members? (j : Json) : Option (Fields j) :=
  match j with
  | .object members =>
    some ⟨members.attach.map fun ⟨(name, value), h⟩ =>
      (name, ⟨value, by have := List.sizeOf_lt_of_mem h; simp at this ⊢; omega⟩)⟩
  | _ => none

/-- The fields with these names: the members of an object, or the items of an array that has all of them in this
order. -/
def fields? (j : Json) (names : List String) : Option (Fields j) :=
  match j.parts? with
  | some items => if items.length = names.length then some ⟨names.zip items⟩ else none
  | none => j.members?

namespace Part

variable {whole : Json}

/-- A part of a part. -/
def within (p : Part whole) (inner : Part p.value) : Part whole :=
  ⟨inner.value, Nat.lt_trans inner.smaller p.smaller⟩

def parts? (p : Part whole) : Option (List (Part whole)) :=
  p.value.parts?.map fun items => items.map p.within

def tagged? (p : Part whole) : Option (String × Part whole) :=
  p.value.tagged?.map fun (tag, payload) => (tag, p.within payload)

/-- The fields of a part as parts of the whole. -/
def lift (p : Part whole) (f : Fields p.value) : Fields whole :=
  ⟨f.named.map fun (name, inner) => (name, p.within inner)⟩

def members? (p : Part whole) : Option (Fields whole) :=
  p.value.members?.map p.lift

def fields? (p : Part whole) (names : List String) : Option (Fields whole) :=
  (p.value.fields? names).map p.lift

end Part

namespace Fields

variable {whole : Json}

/-- The last field with this name. -/
def get? (f : Fields whole) (name : String) : Option (Part whole) :=
  (f.named.reverse.find? (·.1 = name)).map (·.2)

/-- The field with this name, as a value. -/
def value? (f : Fields whole) (name : String) : Option Json :=
  (f.get? name).map Part.value

/-- The field with this name, if it is there and not `null`. -/
def optional? (f : Fields whole) (name : String) : Option (Part whole) :=
  match f.get? name with
  | some ⟨.null, _⟩ => none
  | found => found

/-- The items of the field with this name. -/
def items? (f : Fields whole) (name : String) : Option (List (Part whole)) :=
  (f.get? name).bind Part.parts?

end Fields

/-- The member of an object with this name. -/
def field? (j : Json) (name : String) : Option Json :=
  j.members?.bind (·.value? name)

/-- A member that may be absent or `null`. -/
def optional? (j : Json) (name : String) : Option (Part j) :=
  j.members?.bind (·.optional? name)

def bool? : Json → Option Bool
  | .bool b => some b
  | _ => none

def string? : Json → Option String
  | .string s => some s
  | _ => none

def int? : Json → Option Int
  | .int n => some n
  | _ => none

def nat? : Json → Option Nat
  | .int n => if 0 ≤ n then some n.toNat else none
  | _ => none

/-- A number of either kind. -/
def number? : Json → Option Float
  | .int n => some (Float.ofInt n)
  | .float x => some x
  | _ => none

def array? : Json → Option (List Json)
  | .array items => some items
  | _ => none

/-- The value of a field that is written as `null` when there is none. -/
def ofOption (encode : α → Json) : Option α → Json
  | none => .null
  | some a => encode a

/-- Reads a field that may be absent or `null`. -/
def optionWith? (decode : Json → Option α) : Option Json → Option (Option α)
  | none => some none
  | some .null => some none
  | some j => (decode j).map some

/-- Reads a field that may be absent or `null`. -/
def Fields.option? {whole : Json} (f : Fields whole) (decode : Json → Option α) (name : String) : Option (Option α) :=
  optionWith? decode (f.value? name)

/-- Reads every item of an array. -/
def listWith? (decode : Json → Option α) : Json → Option (List α)
  | .array items => items.mapM decode
  | _ => none

/-- Reads a variant without payload: its tag alone, or the tag with `null`. -/
def unit? : Json → Option String
  | .string tag => some tag
  | .object [(tag, .null)] => some tag
  | _ => none

/-- The members of an object with a value added or replaced. -/
def setMember (name : String) (value : Json) : List (String × Json) → List (String × Json)
  | [] => [(name, value)]
  | (key, old) :: rest =>
    if key = name then (name, value) :: rest else (key, old) :: setMember name value rest

/-- The object in which the last value given for a name stands. -/
def objectOf (members : List (String × Json)) : Json :=
  .object (members.foldl (fun acc (name, value) => setMember name value acc) [])

end Json

end QueryShaping
