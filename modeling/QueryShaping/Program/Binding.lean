import QueryShaping.Execution.Reader
import QueryShaping.Query.Typing
import QueryShaping.Value.Key

/-!
# Bindings

A binding is a projection of a select made ready for reading: which field of a row it is, and how the stored value
there becomes a value of the domain. A null is itself in every domain, where it is allowed at all.
-/

namespace QueryShaping

structure Binding where
  ordinal : Nat
  column : String
  domainType : Option DomainType
  converter : Option Converter
  nullable : Bool

namespace Binding

/-- The binding of a projection. -/
def resolve (select : Select) (index : Nat) (nullable : Bool) : Except Error Binding :=
  match select.projections[index]? with
  | none => .error (.shape (.projectionOutOfRange index))
  | some p => .ok ⟨index, p.aliasName, p.expr.domainType?, p.expr.mapping?.bind (·.converter), nullable⟩

/-- The bindings of an identifier, any part of which may be missing. -/
def resolveIdentifier (select : Select) (indices : List Nat) : Except Error (List Binding) :=
  indices.mapM fun index => resolve select index true

def fault (b : Binding) (f : DecodeFault) : Error :=
  .decode b.column b.ordinal f

/-- Turns a stored value into a value of the domain. -/
def decode (b : Binding) (stored : Value) : Except Error Value :=
  if stored.isNull then
    if b.nullable then .ok .null else .error (b.fault .nullValue)
  else do
    let value ←
      match b.converter with
      | none => pure stored
      | some c => (c.load stored).mapError fun e => b.fault (.conversion e)
    match b.domainType with
    | none => return value
    | some t => if t.accepts value then return t.coerce value else throw (b.fault (.typeMismatch t value))

/-- Reads the bound field of the current row. -/
def read (b : Binding) (reader : Reader) : Except Error Value := do
  b.decode (← reader.value b.ordinal)

/-- Reads an identifier from the current row. -/
def readAll (bindings : List Binding) (reader : Reader) : Except Error (List Value) :=
  bindings.mapM fun b => b.read reader

/-- Reads the key that an identifier has on the current row. -/
def readKey (bindings : List Binding) (reader : Reader) : Except Error Key := do
  return Key.ofValues (← readAll bindings reader)

end Binding

end QueryShaping
