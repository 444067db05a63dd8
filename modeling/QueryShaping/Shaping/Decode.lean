import QueryShaping.Entity.Identity
import QueryShaping.Program.Basic
import QueryShaping.Shaping.Draft

/-!
# Reading rows into drafts

The first row of a value is decoded into a draft with empty slots. Every row, the first one included, is then consumed
by the slots: a row that carries an element not seen before adds it, and the row is passed on to the slots of its
element.

The program is given for any `Shaper`, so that its steps can keep an account of what they do. `Shaper.plain` keeps none.
-/

namespace QueryShaping

/-- The entities made so far, those of them that are known by their keys, and the number of the next slot. Without
known entities every occurrence is an entity of its own. -/
structure ShapeState where
  graph : Graph
  known : Option IdentityMap
  nextSlot : Nat

/-- A step of shaping. Entities that were made before a fault stay. -/
abbrev Shaping := ExceptT Error (StateM ShapeState)

namespace Shaping

def ofExcept (x : Except Error α) : Shaping α := ExceptT.mk (pure x)

/-- Stops at a draft that has no slot where its node has a collection. -/
def noSlot : Shaping α := ofExcept (.error (.shape .unknownSlot))

/-- Giving a row on without end. -/
def endless : Shaping α := ofExcept (.error (.shape .endless))

/-- The entity of this type and key, made from its properties unless it is known. -/
def resolveEntity (entityType : String) (key : List Value) (properties : List (String × Binding))
    (reader : Reader) : Shaping EntityId := do
  let s ← get
  match s.known.bind fun m => m.find? entityType (Key.ofValues key) with
  | some id => return id
  | none =>
    let fields ← ofExcept (properties.mapM fun (name, b) => do return (name, ← b.read reader))
    let (id, graph) := s.graph.add entityType key fields
    set { s with graph := graph, known := s.known.map fun (m : IdentityMap) => m.add entityType (Key.ofValues key) id }
    return id

def setNavigation (id : EntityId) (name : String) (value : Result) : Shaping Unit :=
  modify fun s => { s with graph := s.graph.setNavigation id name value }

/-- An empty slot for the children of the parent on the current row. -/
def newSlot (parent : List Binding) (owner : Option (EntityId × String)) (reader : Reader) : Shaping Slot := do
  let key ← ofExcept (Binding.readKey parent reader)
  let s ← get
  set { s with nextSlot := s.nextSlot + 1 }
  return ⟨s.nextSlot, owner, key, []⟩

end Shaping

/-- Whether the key of an entity is there. A key that is missing as a whole means no entity, where that is allowed; one
that is missing in part never is. -/
def keyPresent (key : List Binding) (values : List Value) (nullable : Bool) : Except Error Bool :=
  match (key.zip values).find? fun (_, v) => v.isNull with
  | none => .ok true
  | some (b, _) => if nullable && values.all Value.isNull then .ok false else .error (b.fault .nullValue)

/-- The steps that shaping is made of. -/
structure Shaper (m : Type → Type) where
  /-- A step that resolves no identity. -/
  step {α : Type} : Shaping α → m α
  /-- The entity with this key, whose node has been found on the current row. -/
  resolve : EntityNode → List Value → Reader → m EntityId

/-- Shaping as it is. -/
def Shaper.plain : Shaper Shaping where
  step x := x
  resolve node key reader := Shaping.resolveEntity node.entityType key node.properties reader

section Steps

variable {m : Type → Type} [Monad m] (sh : Shaper m)

mutual

/-- Reads a value from the current row. -/
def Node.decode : Node → Reader → m Draft
  | .scalar b, reader => do
    match ← sh.step (Shaping.ofExcept (b.read reader)) with
    | .null => return .null
    | v => return .scalar v
  | .entity e, reader => e.decode reader
  | .collection c, reader => do return .collection (← sh.step (Shaping.newSlot c.parent none reader))
  | .record members, reader => do return .record (← Node.decodeMembers members reader)

def EntityNode.decode : EntityNode → Reader → m Draft
  | ⟨entityType, key, properties, references, collections, nullable⟩, reader => do
    let values ← sh.step (Shaping.ofExcept (Binding.readAll key reader))
    if ← sh.step (Shaping.ofExcept (keyPresent key values nullable)) then
      let id ← sh.resolve ⟨entityType, key, properties, references, collections, nullable⟩ values reader
      let references ← EntityNode.decodeReferences references id reader
      let slots ← sh.step (collections.mapM fun (name, c) => Shaping.newSlot c.parent (some (id, name)) reader)
      return .entity id references slots
    else return .null

def Node.decodeMembers : List (String × Node) → Reader → m (List (String × Draft))
  | [], _ => return []
  | (name, member) :: rest, reader => do
    let d ← member.decode reader
    return (name, d) :: (← Node.decodeMembers rest reader)

def EntityNode.decodeReferences : List (String × EntityNode) → EntityId → Reader → m (List Draft)
  | [], _, _ => return []
  | (name, target) :: rest, id, reader => do
    let d ← target.decode reader
    sh.step (Shaping.setNavigation id name d.reference)
    return d :: (← EntityNode.decodeReferences rest id reader)

end

/-- The element on the current row with its key: the one that is there already, or a new one. A row whose element key is
missing carries none. -/
def Slot.element? (s : Slot) (child : List Binding) (decode : Reader → m Draft) (reader : Reader) :
    m (Option (Key × Draft)) := do
  let key ← sh.step (Shaping.ofExcept (Binding.readKey child reader))
  if key.allNull then return none
  match s.find? key with
  | some d => return some (key, d)
  | none => return some (key, ← decode reader)

mutual

/-- Gives the current row to every slot of a draft. -/
def Node.consume : Node → Draft → Reader → m Draft
  | .scalar _, d, _ => return d
  | .entity e, d, reader => e.consume d reader
  | .collection c, .collection s, reader => do return .collection (← c.consume s reader)
  | .record members, .record ds, reader => do return .record (← Node.consumeMembers members ds reader)
  | _, _, _ => sh.step Shaping.noSlot

def EntityNode.consume : EntityNode → Draft → Reader → m Draft
  | ⟨_, _, _, references, collections, _⟩, .entity id ds slots, reader => do
    let ds ← EntityNode.consumeReferences references ds reader
    let slots ← CollectionPlace.consumeAll collections slots reader
    return .entity id ds slots
  | _, .null, _ => return .null
  | _, _, _ => sh.step Shaping.noSlot

/-- A joined collection inside its own elements finds the element it is part of on the same row again, and again inside
of that. -/
def CollectionPlace.consume : CollectionPlace → Slot → Reader → m Slot
  | .here c, s, reader => c.consume s reader
  | .again .., _, _ => sh.step Shaping.endless

def CollectionNode.consume : CollectionNode → Slot → Reader → m Slot
  | ⟨_, _, _, _, child, element, _⟩, s, reader => do
    match ← s.element? sh child (element.decode sh) reader with
    | none => return s
    | some (key, d) => return s.put key (← element.consume d reader)

def Node.consumeMembers : List (String × Node) → List (String × Draft) → Reader → m (List (String × Draft))
  | (_, member) :: rest, (name, d) :: ds, reader => do
    let d ← member.consume d reader
    return (name, d) :: (← Node.consumeMembers rest ds reader)
  | [], [], _ => return []
  | _, _, _ => sh.step Shaping.noSlot

def EntityNode.consumeReferences : List (String × EntityNode) → List Draft → Reader → m (List Draft)
  | (_, target) :: rest, d :: ds, reader => do
    let d ← target.consume d reader
    return d :: (← EntityNode.consumeReferences rest ds reader)
  | [], [], _ => return []
  | _, _, _ => sh.step Shaping.noSlot

def CollectionPlace.consumeAll : List (String × CollectionPlace) → List Slot → Reader → m (List Slot)
  | (_, c) :: rest, s :: slots, reader => do
    let s ← c.consume s reader
    return s :: (← CollectionPlace.consumeAll rest slots reader)
  | [], [], _ => return []
  | _, _, _ => sh.step Shaping.noSlot

end

end Steps

mutual

/-- The identifiers of the parents of a draft's slots, in the order of the slots. -/
def Node.parents : Node → Draft → List (List Binding)
  | .entity e, d => e.parents d
  | .collection c, .collection _ => [c.parent]
  | .record members, .record ds => Node.memberParents members ds
  | _, _ => []

def EntityNode.parents : EntityNode → Draft → List (List Binding)
  | ⟨_, _, _, references, collections, _⟩, .entity _ ds _ =>
    EntityNode.referenceParents references ds ++ collections.map fun (_, c) => c.parent
  | _, _ => []

def Node.memberParents : List (String × Node) → List (String × Draft) → List (List Binding)
  | (_, member) :: rest, (_, d) :: ds => member.parents d ++ Node.memberParents rest ds
  | _, _ => []

def EntityNode.referenceParents : List (String × EntityNode) → List Draft → List (List Binding)
  | (_, target) :: rest, d :: ds => target.parents d ++ EntityNode.referenceParents rest ds
  | _, _ => []

end

/-- Whether every slot has its parent on the current row. Once one has not, the others are not looked at. -/
def sameParents (reader : Reader) : List (List Binding) → List Slot → Except Error Bool
  | parent :: parents, s :: slots => do
    if (← Binding.readKey parent reader) = s.parentKey then sameParents reader parents slots else return false
  | [], [] => return true
  | _, _ => throw (.shape .unknownSlot)

end QueryShaping
