import QueryShaping.Value.Basic

/-!
# Parameters

The values bound to the parameters of a command, ordered by name. Commands are told apart by which parameters are
null, never by the values themselves.
-/

namespace QueryShaping

/-- Named values in the order of their names. -/
structure Parameters where
  entries : List (String × Value)

namespace Parameters

def empty : Parameters := ⟨[]⟩

/-- Puts a binding at its place, in the place of an earlier one of the same name. -/
def insertEntry (name : String) (value : Value) : List (String × Value) → List (String × Value)
  | [] => [(name, value)]
  | (other, old) :: rest =>
    if name < other then (name, value) :: (other, old) :: rest
    else if name = other then (name, value) :: rest
    else (other, old) :: insertEntry name value rest

def set (p : Parameters) (name : String) (value : Value) : Parameters :=
  ⟨insertEntry name value p.entries⟩

def ofList (bindings : List (String × Value)) : Parameters :=
  bindings.foldl (fun p (name, value) => p.set name value) empty

def get? (p : Parameters) (name : String) : Option Value :=
  p.entries.lookup name

def size (p : Parameters) : Nat :=
  p.entries.length

/-- Which parameters there are, and which of them are null. -/
def nullability (p : Parameters) : List (String × Bool) :=
  p.entries.map fun (name, value) => (name, value.isNull)

/-- Whether a parameter is there and null. -/
def isNull (p : Parameters) (name : String) : Bool :=
  p.nullability.lookup name = some true

end Parameters

end QueryShaping
