import QueryShaping.Query.Basic

/-!
# Shapes

A shape says how output values are put together from projected rows. Its indices are those of the projections of the
select it stands beside in a `ShapedQuery`. A collection that is loaded by a query of its own has its element indices in
that query instead, and a collection that has not been joined yet brings its element query along.
-/

namespace QueryShaping

/-- A named value of an entity. -/
structure PropertyShape where
  name : String
  index : Nat
  nullable : Bool
deriving DecidableEq

/-- The query that loads a collection by itself, and where it repeats the identifier of the parent. -/
structure SplitQuery where
  query : Select
  parentIdentifier : List Nat

mutual

inductive Shape where
  | scalar (index : Nat) (nullable : Bool)
  | entity (e : EntityShape)
  | collection (c : CollectionShape)
  | pending (p : PendingCollection)
  | record (members : List Member)

/-- An entity with its identity. One that may be missing is so when its whole key is null. -/
structure EntityShape where
  entityType : String
  key : List Nat
  properties : List PropertyShape
  navigations : List Navigation
  nullable : Bool

structure Navigation where
  name : String
  target : Shape

structure Member where
  name : String
  shape : Shape

/-- A collection whose rows are in reach: joined into the enclosing query, or in a query of its own. -/
structure CollectionShape where
  id : Nat
  navigation : Option String
  elementType : String
  parentIdentifier : List Nat
  childIdentifier : List Nat
  element : Shape
  split : Option SplitQuery

/-- A collection that has to be joined yet. The outer key, which are projections of the enclosing query, has to agree
with the inner key over the sources of the element query. -/
structure PendingCollection where
  navigation : Option String
  elementType : String
  parentIdentifier : List Nat
  outerKey : List Nat
  inner : ShapedQuery
  innerKey : List Expr
  innerIdentifier : List Nat

/-- A select with the shape of its rows. -/
structure ShapedQuery where
  query : Select
  shape : Shape

end

instance : Inhabited Shape := ⟨.scalar 0 true⟩

mutual

/-- Whether a collection has still to be joined. -/
def Shape.hasPending : Shape → Bool
  | .scalar .. => false
  | .pending _ => true
  | .entity e => e.hasPending
  | .collection c => c.hasPending
  | .record members => Member.anyPending members

def EntityShape.hasPending : EntityShape → Bool
  | ⟨_, _, _, navigations, _⟩ => Navigation.anyPending navigations

def CollectionShape.hasPending : CollectionShape → Bool
  | ⟨_, _, _, _, _, element, _⟩ => element.hasPending

def Navigation.hasPending : Navigation → Bool
  | ⟨_, target⟩ => target.hasPending

def Navigation.anyPending : List Navigation → Bool
  | [] => false
  | n :: rest => n.hasPending || Navigation.anyPending rest

def Member.hasPending : Member → Bool
  | ⟨_, shape⟩ => shape.hasPending

def Member.anyPending : List Member → Bool
  | [] => false
  | m :: rest => m.hasPending || Member.anyPending rest

end

mutual

/-- The collections of a shape, each before those inside its elements. -/
def Shape.collections : Shape → List CollectionShape
  | .scalar .. => []
  | .pending _ => []
  | .entity e => e.collections
  | .collection c => c :: c.inner
  | .record members => Member.collections members

def EntityShape.collections : EntityShape → List CollectionShape
  | ⟨_, _, _, navigations, _⟩ => Navigation.collections navigations

/-- The collections inside the elements of a collection. -/
def CollectionShape.inner : CollectionShape → List CollectionShape
  | ⟨_, _, _, _, _, element, _⟩ => element.collections

def Navigation.targetCollections : Navigation → List CollectionShape
  | ⟨_, target⟩ => target.collections

def Navigation.collections : List Navigation → List CollectionShape
  | [] => []
  | n :: rest => n.targetCollections ++ Navigation.collections rest

def Member.shapeCollections : Member → List CollectionShape
  | ⟨_, shape⟩ => shape.collections

def Member.collections : List Member → List CollectionShape
  | [] => []
  | m :: rest => m.shapeCollections ++ Member.collections rest

end

mutual

/-- Changes every query that loads a collection by itself. -/
def Shape.mapSplitQueries (f : Select → Select) : Shape → Shape
  | .scalar index nullable => .scalar index nullable
  | .pending p => .pending p
  | .entity e => .entity (e.mapSplitQueries f)
  | .collection c => .collection (c.mapSplitQueries f)
  | .record members => .record (Member.mapSplitQueriesList f members)

def EntityShape.mapSplitQueries (f : Select → Select) : EntityShape → EntityShape
  | ⟨entityType, key, properties, navigations, nullable⟩ =>
    ⟨entityType, key, properties, Navigation.mapSplitQueriesList f navigations, nullable⟩

def CollectionShape.mapSplitQueries (f : Select → Select) : CollectionShape → CollectionShape
  | ⟨id, navigation, elementType, parent, child, element, split⟩ =>
    ⟨id, navigation, elementType, parent, child, element.mapSplitQueries f,
      split.map fun s => { s with query := f s.query }⟩

def Navigation.mapSplitQueries (f : Select → Select) : Navigation → Navigation
  | ⟨name, target⟩ => ⟨name, target.mapSplitQueries f⟩

def Navigation.mapSplitQueriesList (f : Select → Select) : List Navigation → List Navigation
  | [] => []
  | n :: rest => n.mapSplitQueries f :: Navigation.mapSplitQueriesList f rest

def Member.mapSplitQueries (f : Select → Select) : Member → Member
  | ⟨name, shape⟩ => ⟨name, shape.mapSplitQueries f⟩

def Member.mapSplitQueriesList (f : Select → Select) : List Member → List Member
  | [] => []
  | m :: rest => m.mapSplitQueries f :: Member.mapSplitQueriesList f rest

end

end QueryShaping
