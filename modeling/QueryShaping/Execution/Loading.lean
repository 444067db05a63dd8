import QueryShaping.Execution.Cursor

/-!
# Loading collections

The slots of a value are filled in one of two ways. If all collections are joined into the query, rows are consumed
until one belongs to another parent; that row is kept for the next value. If they have queries of their own, each
collection reads from its reader as long as the rows repeat the key of its parent, and keeps the first other row for
the next one.

The program is given for any `Loader`, so that its steps can keep an account of what they do. `Fetch.loader` keeps none.
-/

namespace QueryShaping

/-- Whose reader is called. -/
inductive ReaderName where
  | query
  | collection (id : Nat)
deriving DecidableEq

/-- The steps that loading is made of. Values are shaped in `n` and loaded in `m`. -/
structure Loader (n m : Type → Type) where
  shaper : Shaper n
  /-- A step of the cursor that calls no reader. -/
  step {α : Type} : Pull α → m α
  /-- Opens the reader of a collection. -/
  openSplit : (id : Nat) → m Reader
  /-- Moves a reader to its next row. -/
  read : ReaderName → Reader → m (Bool × Reader)
  /-- Looks at the current row of a reader. -/
  look {α : Type} : ReaderName → Except Error α → m α
  /-- Shapes what is on the current row of a reader. -/
  shape {α : Type} : ReaderName → n α → m α

namespace Fetch

def openSplit (f : Fetch) (id : Nat) : Pull Reader :=
  match f.splits.lookup id with
  | none => throw (.shape (.noSplitCommand id))
  | some cache => Pull.ofAction (f.context.openCached f.mode cache)

/-- Loading as it is. -/
def loader (f : Fetch) : Loader Shaping Pull where
  shaper := .plain
  step x := x
  openSplit := f.openSplit
  read _ r := Pull.ofAction (f.context.readRow f.mode r)
  look _ x := Pull.ofExcept x
  shape _ x := Pull.shape x

end Fetch

/-- How a collection is loaded that is part of its own elements. -/
abbrev LoadAgain (m : Type → Type) := Nat → Slot → m Slot

section Steps

variable {n m : Type → Type} [Monad n] [Monad m]

namespace Loader

variable (l : Loader n m)

/-- Moves the reader of the query to its next row. -/
def readRow : m Bool := do
  let (found, reader) ← l.read .query (← l.step get).reader
  l.step (modify fun c => { c with reader := reader })
  return found

/-- The reader of a collection, opened at its first use. -/
def splitReader (id : Nat) : m SplitReader := do
  match (← l.step get).splits.lookup id with
  | some r => return r
  | none =>
    let r : SplitReader := ⟨← l.openSplit id, false, false⟩
    l.step (modify fun c => c.setSplit id r)
    return r

/-- The reader of a collection on a row that belongs to nobody yet, if there is such a row. -/
def nextRow? (id : Nat) : m (Option Reader) := do
  let r ← l.splitReader id
  if r.exhausted then return none
  if r.ahead then return some r.reader
  let (found, reader) ← l.read (.collection id) r.reader
  l.step (modify fun c => c.setSplit id ⟨reader, found, !found⟩)
  return if found then some reader else none

/-- Says that the current row of a collection has found its parent. -/
def take (id : Nat) : m Unit := do
  match (← l.step get).splits.lookup id with
  | some r => l.step (modify fun c => c.setSplit id { r with ahead := false })
  | none => l.step (throw (.shape (.noReader id)))

/-- Fills a slot from the reader of its collection. Each round uses up a row, so `fuel` has to exceed the rows that are
left. -/
def fillSlot (id : Nat) (parent child : List Binding) (decode : Reader → n Draft) (load : Draft → m Draft) :
    (fuel : Nat) → Slot → m Slot
  | 0, s => return s
  | fuel + 1, s => do
    match ← l.nextRow? id with
    | none => return s
    | some reader =>
      if (← l.look (.collection id) (Binding.readKey parent reader)) = s.parentKey then
        l.take id
        match ← l.shape (.collection id) (s.element? l.shaper child decode reader) with
        | none => fillSlot id parent child decode load fuel s
        | some (key, d) => fillSlot id parent child decode load fuel (s.put key (← load d))
      else return s

/-- Fills a slot from the reader of its collection, with all rows that are left at hand. -/
def loadSlot (id : Nat) (parent child : List Binding) (decode : Reader → n Draft) (load : Draft → m Draft) (s : Slot) :
    m Slot := do
  let r ← l.splitReader id
  l.fillSlot id parent child decode load (r.reader.rest.length + 2) s

end Loader

section Again

variable (l : Loader n m) (again : LoadAgain m)

mutual

/-- Fills the slots of a draft from queries of their own. -/
def Node.loadSplit : Node → Draft → m Draft
  | .scalar _, d => return d
  | .entity e, d => e.loadSplit d
  | .collection c, .collection s => do return .collection (← c.loadSplit s)
  | .record members, .record ds => do return .record (← Node.loadSplitMembers members ds)
  | _, _ => l.step (throw (.shape .unknownSlot))

def EntityNode.loadSplit : EntityNode → Draft → m Draft
  | ⟨_, _, _, references, collections, _⟩, .entity id ds slots => do
    let ds ← EntityNode.loadSplitReferences references ds
    let slots ← CollectionPlace.loadSplitAll collections slots
    return .entity id ds slots
  | _, .null => return .null
  | _, _ => l.step (throw (.shape .unknownSlot))

def CollectionPlace.loadSplit : CollectionPlace → Slot → m Slot
  | .here c, s => c.loadSplit s
  | .again id _, s => again id s

def CollectionNode.loadSplit : CollectionNode → Slot → m Slot
  | ⟨id, _, _, _, _, _, none⟩, _ => l.step (throw (.shape (.noSplitQuery id)))
  | ⟨id, _, _, _, child, element, some parent⟩, s =>
    l.loadSlot id parent child (element.decode l.shaper) (fun d => element.loadSplit d) s

def Node.loadSplitMembers : List (String × Node) → List (String × Draft) → m (List (String × Draft))
  | (_, member) :: rest, (name, d) :: ds => do
    let d ← member.loadSplit d
    return (name, d) :: (← Node.loadSplitMembers rest ds)
  | [], [] => return []
  | _, _ => l.step (throw (.shape .unknownSlot))

def EntityNode.loadSplitReferences : List (String × EntityNode) → List Draft → m (List Draft)
  | (_, target) :: rest, d :: ds => do
    let d ← target.loadSplit d
    return d :: (← EntityNode.loadSplitReferences rest ds)
  | [], [] => return []
  | _, _ => l.step (throw (.shape .unknownSlot))

def CollectionPlace.loadSplitAll : List (String × CollectionPlace) → List Slot → m (List Slot)
  | (_, c) :: rest, s :: slots => do
    let s ← c.loadSplit s
    return s :: (← CollectionPlace.loadSplitAll rest slots)
  | [], [] => return []
  | _, _ => l.step (throw (.shape .unknownSlot))

end

end Again

variable (l : Loader n m)

namespace Program

/-- Loads a collection inside its own elements. Every time a row of its reader has been used up, so when `rows` runs out
there must be a reader that was not open before, and one starts anew. -/
def loadAgainWith (p : Program) (anew : LoadAgain m) : (rows : Nat) → LoadAgain m
  | 0, id, s => anew id s
  | rows + 1, id, s => do
    let c ← l.step (Pull.ofExcept (p.collection? id))
    c.loadSplit l (fun id s => p.loadAgainWith anew rows id s) s

/-- Loads a collection inside its own elements, with so many readers still to be opened at most. -/
def loadAgain (p : Program) : (unopened : Nat) → LoadAgain m
  | 0, _, s => return s
  | unopened + 1, id, s => do
    p.loadAgainWith l (fun id s => p.loadAgain unopened id s) ((← l.step get).splitRows + 1) id s

end Program

/-- Fills the slots of a draft from the rows of the query, starting with the current one. Each round uses up a row, so
`fuel` has to exceed the rows that are left. -/
def Node.loadJoined (node : Node) : (fuel : Nat) → Draft → m Draft
  | 0, d => return d
  | fuel + 1, d => do
    let d ← l.shape .query (node.consume l.shaper d (← l.step get).reader)
    if ← l.readRow then
      if ← l.look .query (sameParents (← l.step get).reader (node.parents d) d.slots) then node.loadJoined fuel d
      else
        l.step (modify fun c => { c with ahead := true })
        return d
    else
      l.step (modify fun c => { c with exhausted := true })
      return d

/-- Fills the slots of a draft. -/
def Program.load (p : Program) (d : Draft) : m Draft := do
  if d.slots.isEmpty then return d
  else if p.hasSplit then p.root.loadSplit l (p.loadAgain l (p.collections.length + 1)) d
  else p.root.loadJoined l ((← l.step get).reader.rest.length + 1) d

/-- Moves to the row on which the next value starts, and tells whether there is one. -/
def Loader.nextValue : m Bool := do
  let c ← l.step get
  l.step (set { c with ahead := false, nextSlot := 0 })
  if c.ahead then return true
  if c.exhausted then return false
  l.readRow

/-- Shapes the value that starts on the current row. -/
def Program.shapeValue (p : Program) : m Result := do
  let d ← l.shape .query (p.root.decode l.shaper (← l.step get).reader)
  let d ← p.load l d
  l.step (Pull.modifyWorld fun w => { w with graph := w.graph.attach d })
  return d.result

/-- Shapes the next value, if there is one. -/
def Program.next (p : Program) : m (Option Result) := do
  if ← l.nextValue then return some (← p.shapeValue l) else return none

end Steps

end QueryShaping
