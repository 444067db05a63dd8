import QueryShaping.Entity.Basic
import QueryShaping.Value.Exact

/-!
# Listings

A result written out with all that its entities hold. Entities are numbered in the order in which they first appear, and
each is written out once; where it appears again only its number stands.
-/

namespace QueryShaping

/-- The entities that have a number, in order, and those that have been written out. -/
structure Listing where
  numbered : List EntityId
  written : List EntityId

namespace Listing

def empty : Listing := ⟨[], []⟩

/-- A listing with the same numbers in which nothing has been written. -/
def renew (l : Listing) : Listing := { l with written := [] }

/-- The number of an entity, counted from one. -/
def number (id : EntityId) : StateM Listing Nat := do
  let l ← get
  match l.numbered.idxOf? id with
  | some n => return n + 1
  | none =>
    set { l with numbered := l.numbered ++ [id] }
    return l.numbered.length + 1

/-- The mention of an entity that has been written out. -/
def mention (id : EntityId) : StateM Listing Json := do
  return .variant "same" (.int (← number id))

end Listing

def Value.encodeExactAll (values : List Value) : Json :=
  .array (values.map encodeExact)

def Entity.encodeFields (e : Entity) : Json :=
  .array (e.fields.map fun (name, v) => .array [.string name, v.encodeExact])

mutual

/-- Writes a result out, given how entities are. -/
def Result.listWith (entity : EntityId → StateM Listing Json) : Result → StateM Listing Json
  | .null => return .null
  | .scalar v => return .variant "scalar" v.encodeExact
  | .entity id => entity id
  | .collection items => do return .variant "list" (.array (← Result.listAll entity items))
  | .record members => do
    let members ← Result.listMembers entity members
    return .variant "record" (.array (members.map fun (name, j) => .array [.string name, j]))

def Result.listAll (entity : EntityId → StateM Listing Json) : List Result → StateM Listing (List Json)
  | [] => return []
  | r :: rest => do
    let j ← r.listWith entity
    return j :: (← Result.listAll entity rest)

def Result.listMembers (entity : EntityId → StateM Listing Json) :
    List (String × Result) → StateM Listing (List (String × Json))
  | [] => return []
  | (name, r) :: rest => do
    let j ← r.listWith entity
    return (name, j) :: (← Result.listMembers entity rest)

end

namespace Graph

/-- Writes an entity out with its navigations by name. One that is written out while others are is not written out yet,
so `fuel` only has to exceed the entities of the graph. -/
def listEntity (g : Graph) : (fuel : Nat) → EntityId → StateM Listing Json
  | 0, id => Listing.mention id
  | fuel + 1, id => do
    let number ← Listing.number id
    match g.get? id with
    | none => return .null
    | some e =>
      if (← get).written.contains id then Listing.mention id
      else
        modify fun l => { l with written := id :: l.written }
        let navigations := e.navigations.mergeSort fun a b => a.1 ≤ b.1
        let members ← Result.listMembers (g.listEntity fuel) navigations
        return .object [("entity", .int number), ("type", .string e.entityType), ("key", Value.encodeExactAll e.key),
          ("fields", e.encodeFields), ("navigations", .object members)]

/-- Writes a result out. -/
def list (g : Graph) (r : Result) : StateM Listing Json :=
  r.listWith (g.listEntity (g.size + 1))

end Graph

end QueryShaping
