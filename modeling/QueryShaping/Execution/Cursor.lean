import QueryShaping.Execution.World
import QueryShaping.Shaping.Decode

/-!
# Cursors

Where an enumeration stands in its rows. The cursor keeps the reader of the query and one reader for every collection
that is loaded by a query of its own, each with the row it may have read ahead.
-/

namespace QueryShaping

/-- Where the identity of entities is resolved: nowhere, within the enumeration, or by a manager. -/
inductive IdentityScope where
  | nowhere
  | within (known : IdentityMap)
  | manager (place : Nat)

/-- The reader of a collection. Its row is ahead when it has been read but belongs to nobody yet. -/
structure SplitReader where
  reader : Reader
  ahead : Bool
  exhausted : Bool

structure Cursor where
  reader : Reader
  splits : List (Nat × SplitReader)
  identity : IdentityScope
  /-- Whether the current row of the query starts the next value. -/
  ahead : Bool
  exhausted : Bool
  /-- The number of the next slot of the value that is being shaped. -/
  nextSlot : Nat

/-- What a cursor needs from its enumeration. -/
structure Fetch where
  context : Context
  mode : Mode
  /-- The command caches of the collections that are loaded by queries of their own. -/
  splits : List (Nat × Nat)

/-- A step of a cursor. What it has read stays read, also if it fails. -/
abbrev Pull := ExceptT Error (StateT Cursor (Proc World))

namespace Pull

def ofExcept (x : Except Error α) : Pull α := ExceptT.mk (pure x)

/-- An action that leaves the cursor alone. -/
def ofAction (x : Action α) : Pull α := ExceptT.mk (StateT.lift x.run)

def modifyWorld (f : World → World) : Pull Unit :=
  ExceptT.lift (StateT.lift (Proc.modify f))

end Pull

namespace Cursor

def start (reader : Reader) (identity : IdentityScope) : Cursor :=
  ⟨reader, [], identity, false, false, 0⟩

/-- The entities that the scope of the cursor knows. -/
def known (c : Cursor) (w : World) : Option IdentityMap :=
  match c.identity with
  | .nowhere => none
  | .within known => some known
  | .manager place => some (w.manager place).known

/-- Keeps the entities that are known after a step of shaping. -/
def keepKnown (c : Cursor) (w : World) : Option IdentityMap → Cursor × World
  | none => (c, w)
  | some known =>
    match c.identity with
    | .nowhere => (c, w)
    | .within _ => ({ c with identity := .within known }, w)
    | .manager place => (c, w.setManager place { w.manager place with known := known })

/-- Carries out a step of shaping on the entities of the world. -/
def shape (c : Cursor) (w : World) (x : Shaping α) : (Except Error α × Cursor) × World :=
  let graph := w.graph
  let known := c.known w
  let w := { w with graph := .empty }
  let (result, s) := x.run.run ⟨graph, known, c.nextSlot⟩
  let (c, w) := Cursor.keepKnown { c with nextSlot := s.nextSlot } { w with graph := s.graph } s.known
  ((result, c), w)

def setSplit (c : Cursor) (id : Nat) (r : SplitReader) : Cursor :=
  { c with splits := (id, r) :: c.splits.filter (·.1 ≠ id) }

/-- No fewer than the rows of collections that have been read ahead or not read at all. -/
def splitRows (c : Cursor) : Nat :=
  c.splits.foldl (fun rows (_, r) => rows + r.reader.rest.length + 1) 0

/-- All readers of the cursor. -/
def readers (c : Cursor) : List Reader :=
  c.reader :: c.splits.map (·.2.reader)

end Cursor

/-- Carries out a step of shaping. -/
def Pull.shape (x : Shaping α) : Pull α :=
  ExceptT.mk fun c => Proc.modifyGet fun w => c.shape w x

end QueryShaping
