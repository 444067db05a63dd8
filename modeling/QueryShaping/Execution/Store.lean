import QueryShaping.Evaluation.Run
import QueryShaping.Execution.Reader

/-!
# Stores

A store answers commands from its tables. It can be told to fail the next executions, or to answer from a script
instead of its tables, and it counts executions and the readers that were opened and closed.
-/

namespace QueryShaping

/-- What a store has done so far. -/
structure Counters where
  executions : Nat
  opened : Nat
  closed : Nat
deriving DecidableEq

/-- A prepared answer to one execution. -/
structure ScriptEntry where
  rows : List Row
  openFault : Option ProviderFault
  readFailure : Option ReadFailure

/-- Prepared answers, one for each execution, and a parameter that must not be null when a command is made. -/
structure Script where
  entries : List ScriptEntry
  required : Option String

structure Store where
  tables : List (String × Relation)
  /-- The number of executions that are still going to fail. -/
  pendingFailures : Nat
  script : Option Script
  counters : Counters

namespace Store

def empty : Store :=
  ⟨[], 0, none, ⟨0, 0, 0⟩⟩

/-- The tables with one of them added or replaced. -/
def putTable (name : String) (table : Relation) : List (String × Relation) → List (String × Relation)
  | [] => [(name, table)]
  | (other, old) :: rest =>
    if other = name then (name, table) :: rest else (other, old) :: putTable name table rest

/-- Creates an empty table, in the place of one of the same name. -/
def createTable (s : Store) (name : String) (columns : List String) : Store :=
  { s with tables := putTable name ⟨columns, []⟩ s.tables }

/-- Appends a row to a table. -/
def insert (s : Store) (name : String) (row : Row) : Except Error Store :=
  match s.tables.lookup name with
  | none => .error (.provider (.unknownTable name))
  | some table =>
    if row.length = table.columns.length then
      .ok { s with tables := putTable name { table with rows := table.rows ++ [row] } s.tables }
    else .error (.provider (.wrongWidth name table.columns.length row.length))

/-- Appends rows up to the first that does not fit, and gives its fault. -/
def insertAll (s : Store) (name : String) : List Row → Store × Option Error
  | [] => (s, none)
  | row :: rest =>
    match s.insert name row with
    | .ok s => s.insertAll name rest
    | .error e => (s, some e)

def rowCount (s : Store) (name : String) : Nat :=
  (s.tables.lookup name).elim 0 (·.rows.length)

def failNext (s : Store) (count : Nat) : Store :=
  { s with pendingFailures := count }

/-- The readers that are open. -/
def openReaders (s : Store) : Nat :=
  s.counters.opened - s.counters.closed

/-- Counts an execution. -/
def countExecution (s : Store) : Store :=
  { s with counters := { s.counters with executions := s.counters.executions + 1 } }

def countOpened (s : Store) : Store :=
  { s with counters := { s.counters with opened := s.counters.opened + 1 } }

def countClosed (s : Store) : Store :=
  { s with counters := { s.counters with closed := s.counters.closed + 1 } }

/-- The answer to an execution, before anything is counted. -/
def answer (s : Store) (select : Select) (parameters : Parameters) : Except Error Reader :=
  match s.script with
  | some script =>
    match script.entries[s.counters.executions]? with
    | none => .error (.provider .scriptExhausted)
    | some entry =>
      match entry.openFault with
      | some fault => .error (.provider fault)
      | none => .ok { Reader.ofRows entry.rows with failure := entry.readFailure }
  | none =>
    if 0 < s.pendingFailures then .error (.provider .connectionFailed)
    else do
      let found ← evaluate ⟨s.tables, parameters⟩ select
      return Reader.start found.rows found.columns.length

/-- Executes a select. A store that was told to fail does so once less. -/
def execute (s : Store) (select : Select) (parameters : Parameters) : Store × Except Error Reader :=
  let failures := if s.script.isSome then s.pendingFailures else s.pendingFailures - 1
  let after := { s.countExecution with pendingFailures := failures }
  match s.answer select parameters with
  | .ok reader => (after.countOpened, .ok reader)
  | .error e => (after, .error e)

/-- Why no command can be made while these parameters are null. -/
def refusal (s : Store) (nullability : List (String × Bool)) : Option Error :=
  match s.script.bind (·.required) with
  | none => none
  | some name => if nullability.lookup name = some true then some (.provider (.nullParameter name)) else none

/-- Closes a reader of this store; closing it again changes nothing. -/
def closeReader (s : Store) (r : Reader) : Store × Reader :=
  if r.closed then (s, r) else (s.countClosed, r.close)

end Store

end QueryShaping
