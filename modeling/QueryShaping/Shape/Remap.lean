import QueryShaping.Error
import QueryShaping.Shape.Basic

/-!
# Moving a shape to other projections

A shape follows its projections when they get new places. Indices that belong to another query, those inside a
collection with a query of its own and those inside a collection that is not joined yet, stay as they are.
-/

namespace QueryShaping

/-- Where an index goes, if it goes anywhere. -/
abbrev IndexMove := Nat → Except Error Nat

/-- The move given by a table of new indices. -/
def IndexMove.ofList (table : List Nat) : IndexMove := fun index =>
  match table[index]? with
  | some new => .ok new
  | none => .error (.indexOutOfRange index)

def PropertyShape.remap (move : IndexMove) (p : PropertyShape) : Except Error PropertyShape := do
  let index ← move p.index
  return { p with index := index }

def PendingCollection.remap (move : IndexMove) (p : PendingCollection) : Except Error PendingCollection := do
  let parent ← p.parentIdentifier.mapM move
  let outerKey ← p.outerKey.mapM move
  return { p with parentIdentifier := parent, outerKey := outerKey }

mutual

def Shape.remap (move : IndexMove) : Shape → Except Error Shape
  | .scalar index nullable => do
    let index ← move index
    return .scalar index nullable
  | .entity e => do
    let e ← e.remap move
    return .entity e
  | .collection c => do
    let c ← c.remap move
    return .collection c
  | .pending p => do
    let p ← p.remap move
    return .pending p
  | .record members => do
    let members ← Member.remapAll move members
    return .record members

def EntityShape.remap (move : IndexMove) : EntityShape → Except Error EntityShape
  | ⟨entityType, key, properties, navigations, nullable⟩ => do
    let key ← key.mapM move
    let properties ← properties.mapM (PropertyShape.remap move)
    let navigations ← Navigation.remapAll move navigations
    return ⟨entityType, key, properties, navigations, nullable⟩

def CollectionShape.remap (move : IndexMove) : CollectionShape → Except Error CollectionShape
  | ⟨id, navigation, elementType, parent, child, element, some split⟩ => do
    let parent ← parent.mapM move
    return ⟨id, navigation, elementType, parent, child, element, some split⟩
  | ⟨id, navigation, elementType, parent, child, element, none⟩ => do
    let parent ← parent.mapM move
    let child ← child.mapM move
    let element ← element.remap move
    return ⟨id, navigation, elementType, parent, child, element, none⟩

def Navigation.remap (move : IndexMove) : Navigation → Except Error Navigation
  | ⟨name, target⟩ => do
    let target ← target.remap move
    return ⟨name, target⟩

def Navigation.remapAll (move : IndexMove) : List Navigation → Except Error (List Navigation)
  | [] => .ok []
  | n :: rest => do
    let n ← n.remap move
    let rest ← Navigation.remapAll move rest
    return n :: rest

def Member.remap (move : IndexMove) : Member → Except Error Member
  | ⟨name, shape⟩ => do
    let shape ← shape.remap move
    return ⟨name, shape⟩

def Member.remapAll (move : IndexMove) : List Member → Except Error (List Member)
  | [] => .ok []
  | m :: rest => do
    let m ← m.remap move
    let rest ← Member.remapAll move rest
    return m :: rest

end

end QueryShaping
