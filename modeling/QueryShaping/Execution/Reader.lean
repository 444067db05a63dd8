import QueryShaping.Evaluation.Scope

/-!
# Readers

A forward-only cursor over rows. It stands on a row only after a read that found one, and a closed reader refuses
to be read.
-/

namespace QueryShaping

/-- A read that is going to fail: after so many reads, with this fault. -/
structure ReadFailure where
  after : Nat
  fault : ProviderFault

structure Reader where
  /-- The rows that have not been read yet. -/
  rest : List Row
  current : Option Row
  fieldCount : Nat
  closed : Bool
  /-- The number of reads so far. -/
  reads : Nat
  failure : Option ReadFailure

namespace Reader

/-- A reader before the first of these rows. -/
def start (rows : List Row) (fieldCount : Nat) : Reader :=
  ⟨rows, none, fieldCount, false, 0, none⟩

/-- A reader over rows that say themselves how many fields there are. -/
def ofRows (rows : List Row) : Reader :=
  Reader.start rows (rows.head?.elim 0 List.length)

/-- Moves to the next row, and tells whether there is one. -/
def read (r : Reader) : Except Error (Bool × Reader) :=
  if r.closed then .error (.provider .closedReader)
  else
    match r.failure.filter (·.after = r.reads), r.rest with
    | some failure, _ => .error (.provider failure.fault)
    | none, row :: rest => .ok (true, { r with rest := rest, current := some row, reads := r.reads + 1 })
    | none, [] => .ok (false, { r with current := none, reads := r.reads + 1 })

/-- The value of a field of the current row. -/
def value (r : Reader) (ordinal : Nat) : Except Error Value :=
  match r.current with
  | none => .error (.provider .noCurrentRow)
  | some row =>
    match row[ordinal]? with
    | some v => .ok v
    | none => .error (.provider (.ordinalOutOfRange ordinal row.length))

def close (r : Reader) : Reader :=
  { r with closed := true, current := none }

end Reader

end QueryShaping
