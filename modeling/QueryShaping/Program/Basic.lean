import QueryShaping.Program.Binding

/-!
# Programs

A program is a shape whose indices have become bindings. It is what rows are read with. A collection stands where its
value belongs; only where it is part of its own elements it is named by its id.
-/

namespace QueryShaping

mutual

/-- How a value is read from rows. -/
inductive Node where
  | scalar (b : Binding)
  | entity (e : EntityNode)
  | collection (c : CollectionPlace)
  | record (members : List (String × Node))

structure EntityNode where
  entityType : String
  key : List Binding
  properties : List (String × Binding)
  references : List (String × EntityNode)
  collections : List (String × CollectionPlace)
  nullable : Bool

/-- A collection at its place, or one that encloses the place again, with the identifier of its parent. -/
inductive CollectionPlace where
  | here (c : CollectionNode)
  | again (id : Nat) (parent : List Binding)

/-- A collection: the identifier of its parent in the enclosing row, and that of an element in the rows of elements.
If these rows come from a query of their own, they repeat the identifier of the parent. -/
structure CollectionNode where
  id : Nat
  navigation : Option String
  elementType : String
  parent : List Binding
  child : List Binding
  element : Node
  splitParent : Option (List Binding)

end

instance : Inhabited Node := ⟨.record []⟩

def CollectionNode.isSplit (c : CollectionNode) : Bool :=
  c.splitParent.isSome

namespace CollectionPlace

def id : CollectionPlace → Nat
  | .here c => c.id
  | .again id _ => id

def parent : CollectionPlace → List Binding
  | .here c => c.parent
  | .again _ parent => parent

end CollectionPlace

/-- The program for the rows of a query, with the collections by their ids. -/
structure Program where
  root : Node
  collections : List CollectionNode

namespace Program

/-- The collection with this id. -/
def collection? (p : Program) (id : Nat) : Except Error CollectionNode :=
  match p.collections.find? (·.id = id) with
  | some c => .ok c
  | none => .error (.shape (.unknownCollection id))

/-- Whether a collection is loaded by a query of its own. -/
def hasSplit (p : Program) : Bool :=
  p.collections.any CollectionNode.isSplit

end Program

end QueryShaping
