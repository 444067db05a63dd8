import QueryShaping.Execution.Compiled
import QueryShaping.Execution.Loading

/-!
# Enumerations

An enumeration gives the values of a query one by one. The first pull opens the reader of the query. A failure is
reported once and ends the enumeration, the end of the rows exhausts it, and disposing it closes its readers.
-/

namespace QueryShaping

/-- How far an enumeration has come. -/
inductive Phase where
  | created
  | active
  | exhausted
  | faulted
  | disposed
deriving DecidableEq

def Phase.name : Phase → String
  | .created => "Created"
  | .active => "Open"
  | .exhausted => "Exhausted"
  | .faulted => "Faulted"
  | .disposed => "Disposed"

/-- Whether no further value can come. -/
def Phase.isTerminal : Phase → Bool
  | .created => false
  | .active => false
  | .exhausted => true
  | .faulted => true
  | .disposed => true

structure Enumeration where
  query : CompiledQuery
  context : Context
  mode : Mode
  phase : Phase
  cursor : Option Cursor

/-- Where an enumeration resolves the identity of entities. -/
def World.openScope (w : World) (tracking : Tracking) (manager : Nat) : IdentityScope × World :=
  match tracking with
  | .trackAll => (.manager manager, w.setManager manager (w.manager manager).started)
  | .identityResolution => (.within .empty, w)
  | .none => (.nowhere, w)

namespace Enumeration

def start (query : CompiledQuery) (context : Context) (mode : Mode) : Enumeration :=
  ⟨query, context, mode, .created, none⟩

/-- What the cursor needs. Of two collections with one id the inner one has the command. -/
def fetch (e : Enumeration) : Fetch :=
  ⟨e.context, e.mode, e.query.splits.reverse⟩

/-- Opens the reader of the query. -/
def openCursor (e : Enumeration) : Action Cursor := do
  let reader ← e.context.openCached e.mode e.query.commands
  let identity ← Action.perform fun w => w.openScope e.query.options.tracking e.context.manager
  return .start reader identity

end Enumeration

/-- The steps that a pull is made of. -/
structure Puller (m : Type → Type) where
  /-- A step that calls no reader. -/
  step {α : Type} : Proc World α → m α
  /-- Opens the reader of the query. -/
  openCursor : Enumeration → m (Except Error Cursor)
  /-- Shapes the next value with a cursor. -/
  next : Enumeration → Cursor → m (Except Error (Option Result) × Cursor)

/-- Pulling as it is. -/
def Puller.plain : Puller (Proc World) where
  step x := x
  openCursor e := e.openCursor.run
  next e c := (e.query.program.next e.fetch.loader).run.run c

namespace Enumeration

section Steps

variable {m : Type → Type} [Monad m] (k : Puller m)

/-- Shapes the next value with a cursor. -/
def advance (e : Enumeration) (c : Cursor) : m (Except Error (Option Result) × Enumeration) := do
  let (result, c) ← k.next e c
  return (result, { e with cursor := some c })

/-- Shapes the next value, with a cursor that is opened at the first time. -/
def produce (e : Enumeration) : m (Except Error (Option Result) × Enumeration) := do
  match e.cursor with
  | some c => e.advance k c
  | none =>
    match ← k.openCursor e with
    | .error fault => return (.error fault, e)
    | .ok c => advance k { e with phase := .active } c

/-- Shapes the next value while nobody else uses the context, if the options ask for that. -/
def guarded (e : Enumeration) : m (Except Error (Option Result) × Enumeration) := do
  if e.query.options.detectConcurrentAccess then
    match ((← k.step Proc.get).detector e.context.detector).enter with
    | .error fault => return (.error fault, e)
    | .ok entered =>
      k.step (Proc.modify fun w => w.setDetector e.context.detector entered)
      let result ← e.produce k
      k.step (Proc.modify fun w => w.setDetector e.context.detector .idle)
      return result
  else e.produce k

/-- Notes the end of the rows, and a failure. -/
def settle : Except Error (Option Result) × Enumeration → m (Except Error (Option Result) × Enumeration)
  | (.ok (some value), e) => return (.ok (some value), e)
  | (.ok none, e) => return (.ok none, { e with phase := .exhausted })
  | (.error fault, e) => do
    k.step (Proc.modify fun w => w.report e.context.contextType fault)
    return (.error fault, { e with phase := .faulted })

def pullBy (e : Enumeration) : m (Except Error (Option Result) × Enumeration) :=
  match e.phase with
  | .disposed => return (.error .disposed, e)
  | .faulted => return (.error .faulted, e)
  | .exhausted => return (.ok none, e)
  | .created | .active => e.guarded k >>= settle k

end Steps

/-- Gives the next value, or nothing at the end. -/
def pull (e : Enumeration) : Proc World (Except Error (Option Result) × Enumeration) := e.pullBy .plain

/-- Starting over is not possible. -/
def reset (_ : Enumeration) : Except Error Unit :=
  .error (.unsupported "resetting a query enumerator")

/-- Closes the readers. Doing so again changes nothing. -/
def dispose (e : Enumeration) (w : World) : Enumeration × World :=
  if e.phase = .disposed then (e, w)
  else
    let readers := e.cursor.elim [] Cursor.readers
    ({ e with phase := .disposed, cursor := none }, readers.foldl World.closeReader w)

/-- Gives the next value or failure; nothing comes after the end or a failure. -/
def next (e : Enumeration) : Proc World (Option (Except Error Result) × Enumeration) := do
  if e.phase.isTerminal then return (none, e)
  match ← e.pull with
  | (.ok (some value), e) => return (some (.ok value), e)
  | (.ok none, e) => return (none, e)
  | (.error fault, e) => return (some (.error fault), e)

/-- The rows of the query that have not been read. -/
def rowsLeft (e : Enumeration) : Nat :=
  e.cursor.elim 0 (·.reader.rest.length)

/-- Gives the values that are left, at most as many as `fuel`. -/
def drainWith : (fuel : Nat) → Enumeration → Proc World (List (Except Error Result) × Enumeration)
  | 0, e => return ([], e)
  | fuel + 1, e => do
    match ← e.next with
    | (none, e) => return ([], e)
    | (some item, e) => do
      let (rest, e) ← drainWith fuel e
      return (item :: rest, e)

/-- Gives all values that are left. Each one uses up a row at least, but the first of them may have been read ahead. -/
def drain (e : Enumeration) : Proc World (List (Except Error Result) × Enumeration) := do
  match ← e.next with
  | (none, e) => return ([], e)
  | (some item, e) => do
    let (rest, e) ← drainWith (e.rowsLeft + 2) e
    return (item :: rest, e)

/-- Gives all values that are left and disposes the enumeration. -/
def collect (e : Enumeration) : Proc World (List (Except Error Result)) := do
  let (items, e) ← e.drain
  Proc.modify fun w => (e.dispose w).2
  return items

end Enumeration

/-- All values of a query, or the failure that came first. -/
def CompiledQuery.toList (q : CompiledQuery) (context : Context) (mode : Mode) :
    Proc World (Except Error (List Result)) := do
  return (← (Enumeration.start q context mode).collect).mapM id

end QueryShaping
