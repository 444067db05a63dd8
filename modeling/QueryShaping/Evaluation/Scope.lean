import QueryShaping.Error
import QueryShaping.Parameters

/-!
# Scopes

A column is looked up by the identity of its source, first among the sources of the select it stands in and then
among those of the enclosing selects, from the inside out.
-/

namespace QueryShaping

abbrev Row := List Value

/-- Rows under column names: a stored table or the result of a select. -/
structure Relation where
  columns : List String
  rows : List Row

/-- What a select is evaluated over. -/
structure Environment where
  tables : List (String × Relation)
  parameters : Parameters

/-- A source bound to one of its rows, or to none where an outer join found none. -/
structure Bound where
  id : TableId
  columns : List String
  row : Option Row

/-- One row of each source of a select. -/
abbrev Frame := List Bound

/-- The rows that an expression can see: those of its own select, those of the enclosing ones, and, under a
grouping, all rows of the group. -/
structure Scope where
  frame : Frame
  outer : List Frame
  group : Option (List Frame)

namespace Bound

/-- The value of a column; every column of a missing row is null. -/
def get (b : Bound) (name : String) : Except Error Value :=
  match b.columns.findIdx? (· = name) with
  | some index => .ok ((b.row.bind (·[index]?)).getD .null)
  | none => .error (.evaluation (.unknownColumn name))

end Bound

namespace Scope

/-- The scope of an expression over a single row. -/
def ofRow (frame : Frame) (outer : List Frame) : Scope :=
  ⟨frame, outer, none⟩

/-- What a subquery sees as enclosing. -/
def frames (s : Scope) : List Frame :=
  s.frame :: s.outer

def bound? (s : Scope) (id : TableId) : Option Bound :=
  s.frames.findSome? fun frame => frame.find? (·.id = id)

def column (s : Scope) (c : ColumnRef) : Except Error Value :=
  match s.bound? c.table with
  | some bound => bound.get c.name
  | none => .error (.evaluation (.columnOutOfScope c))

def key (s : Scope) (k : KeyRef) : Except Error Value :=
  match s.bound? k.table with
  | some bound => bound.get k.key
  | none => .error (.evaluation (.keyOutOfScope k))

end Scope

/-- A value in the stored form that a mapping asks for. -/
def storedValue (mapping : Option TypeMapping) (v : Value) : Except Error Value :=
  match storeWith mapping v with
  | .ok stored => .ok stored
  | .error e => .error (.conversion e)

namespace Environment

def table (env : Environment) (name : String) : Except Error Relation :=
  match env.tables.lookup name with
  | some table => .ok table
  | none => .error (.evaluation (.unknownTable name))

def parameter (env : Environment) (name : String) (mapping : Option TypeMapping) : Except Error Value :=
  match env.parameters.get? name with
  | some v => storedValue mapping v
  | none => .error (.evaluation (.missingParameter name))

end Environment

end QueryShaping
