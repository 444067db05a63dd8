import QueryShaping.Entity.Json
import QueryShaping.Shaping.Decode

/-!
# What rows are shaped into

Loading works row by row and mutates drafts. This file says without any of that what has to come out: the tree that a
program makes of a list of rows. A value is read from the first of its rows. A collection takes some rows, the rows of
its value or those of a query of its own, and has one element for every key among them that is not missing as a whole,
in the order in which the keys appear. An element is again made of the rows that carry its key.

Reading is total here. Where a field cannot be read a null stands for it. `Node.Readable` says that there is no such
field: a value needs the fields of its first row, a collection the element keys of all the rows it takes and the elements
of the first row of each key. The statements about loading ask for it.
-/

namespace QueryShaping

instance Except.decidableExistsOk {ε α : Type} : (x : Except ε α) → Decidable (∃ a, x = .ok a)
  | .ok a => .isTrue ⟨a, rfl⟩
  | .error _ => .isFalse fun h => nomatch h.choose_spec

/-- A reader that stands on a row. -/
def Reader.onRow (row : Row) : Reader :=
  ⟨[], some row, row.length, false, 0, none⟩

namespace Binding

/-- The value of a binding on a row. -/
def cell (b : Binding) (row : Row) : Value :=
  (b.read (.onRow row)).toOption.getD .null

/-- The values of an identifier on a row. -/
def cells (bindings : List Binding) (row : Row) : List Value :=
  bindings.map fun b => b.cell row

/-- The key that an identifier has on a row. -/
def keyOn (bindings : List Binding) (row : Row) : Key :=
  Key.ofValues (cells bindings row)

/-- Whether a binding can be read from a row. -/
def ReadableOn (b : Binding) (row : Row) : Prop :=
  ∃ v, b.read (.onRow row) = .ok v

instance (b : Binding) (row : Row) : Decidable (b.ReadableOn row) :=
  inferInstanceAs (Decidable (∃ v, b.read (.onRow row) = .ok v))

end Binding

mutual

/-- A value with all that belongs to it, where nothing is shared. -/
inductive Tree where
  | null
  | scalar (v : Value)
  | entity (entityType : String) (key : List Value) (fields : List (String × Value))
      (references : List (String × Tree)) (collections : List (String × Branch))
  | record (members : List (String × Tree))
  | collection (b : Branch)

/-- The elements of a collection by their keys, with the key of their parent. -/
structure Branch where
  id : Nat
  parentKey : Key
  elements : List (Key × Tree)

end

/-- The keys among rows that are not missing as a whole, each where it appears first. -/
def presentKeys (child : List Binding) (rows : List Row) : List Key :=
  ((rows.map (Binding.keyOn child)).filter fun key => !key.allNull).eraseDups

/-- The rows that carry a key. -/
def rowsWith (child : List Binding) (key : Key) (rows : List Row) : List Row :=
  rows.filter fun row => Binding.keyOn child row = key

/-- Which rows a collection takes, given the first row of its value and all of them. -/
abbrev RowChoice := CollectionNode → Row → List Row → List Row

/-- A collection that is joined into the query takes the rows of its value. -/
def RowChoice.joined : RowChoice := fun _ _ rows => rows

/-- A collection with a query of its own takes the rows there that repeat the key of its parent. -/
def RowChoice.split (results : Nat → List Row) : RowChoice := fun c first _ =>
  rowsWith (c.splitParent.getD []) (Binding.keyOn c.parent first) (results c.id)

/-- Whether the key of an entity is there. -/
def keyOnRow (key : List Binding) (row : Row) : Bool :=
  (Binding.cells key row).all fun v => !v.isNull

mutual

/-- The tree of a value, given its first row and all of its rows. -/
def Node.tree (choice : RowChoice) : Node → (first : Row) → (rows : List Row) → Tree
  | .scalar b, first, _ =>
    match b.cell first with
    | .null => .null
    | v => .scalar v
  | .entity e, first, rows => e.tree choice first rows
  | .collection c, first, rows => .collection (c.branch choice first rows)
  | .record members, first, rows => .record (Node.memberTrees choice members first rows)

def EntityNode.tree (choice : RowChoice) : EntityNode → (first : Row) → (rows : List Row) → Tree
  | ⟨entityType, key, properties, references, collections, _⟩, first, rows =>
    if keyOnRow key first then
      .entity entityType (Binding.cells key first) (properties.map fun (name, b) => (name, b.cell first))
        (EntityNode.referenceTrees choice references first rows)
        (CollectionPlace.branches choice collections first rows)
    else .null

/-- The branch of a collection inside its own elements is its slot before any row. It takes part in no result: there
all collections are `CollectionNode.Acyclic`. -/
def CollectionPlace.branch (choice : RowChoice) : CollectionPlace → (first : Row) → (rows : List Row) → Branch
  | .here c, first, rows => c.branch choice first rows
  | .again id parent, first, _ => ⟨id, Binding.keyOn parent first, []⟩

def CollectionNode.branch (choice : RowChoice) : CollectionNode → (first : Row) → (rows : List Row) → Branch
  | ⟨id, navigation, elementType, parent, child, element, splitParent⟩, first, rows =>
    let mine := choice ⟨id, navigation, elementType, parent, child, element, splitParent⟩ first rows
    ⟨id, Binding.keyOn parent first, (presentKeys child mine).map fun key =>
      let own := rowsWith child key mine
      (key, element.tree choice (own.headD []) own)⟩

def Node.memberTrees (choice : RowChoice) :
    List (String × Node) → (first : Row) → (rows : List Row) → List (String × Tree)
  | [], _, _ => []
  | (name, member) :: rest, first, rows =>
    (name, member.tree choice first rows) :: Node.memberTrees choice rest first rows

def EntityNode.referenceTrees (choice : RowChoice) :
    List (String × EntityNode) → (first : Row) → (rows : List Row) → List (String × Tree)
  | [], _, _ => []
  | (name, target) :: rest, first, rows =>
    (name, target.tree choice first rows) :: EntityNode.referenceTrees choice rest first rows

def CollectionPlace.branches (choice : RowChoice) :
    List (String × CollectionPlace) → (first : Row) → (rows : List Row) → List (String × Branch)
  | [], _, _ => []
  | (name, c) :: rest, first, rows =>
    (name, c.branch choice first rows) :: CollectionPlace.branches choice rest first rows

end

mutual

/-- Whether the tree of these rows can be read. -/
def Node.Readable (choice : RowChoice) : Node → (first : Row) → (rows : List Row) → Prop
  | .scalar b, first, _ => b.ReadableOn first
  | .entity e, first, rows => e.Readable choice first rows
  | .collection c, first, rows => c.Readable choice first rows
  | .record members, first, rows => Node.ReadableMembers choice members first rows

/-- Besides its fields, the key of an entity has to be there or missing in the way that is allowed. -/
def EntityNode.Readable (choice : RowChoice) : EntityNode → (first : Row) → (rows : List Row) → Prop
  | ⟨_, key, properties, references, collections, nullable⟩, first, rows =>
    (∀ b ∈ key, b.ReadableOn first) ∧ (∃ present, keyPresent key (Binding.cells key first) nullable = .ok present) ∧
      (keyOnRow key first = true → (∀ p ∈ properties, p.2.ReadableOn first) ∧
        EntityNode.ReadableReferences choice references first rows ∧
        CollectionPlace.ReadableAll choice collections first rows)

def CollectionPlace.Readable (choice : RowChoice) : CollectionPlace → (first : Row) → (rows : List Row) → Prop
  | .here c, first, rows => c.Readable choice first rows
  | .again _ parent, first, _ => ∀ b ∈ parent, b.ReadableOn first

def CollectionNode.Readable (choice : RowChoice) : CollectionNode → (first : Row) → (rows : List Row) → Prop
  | ⟨id, navigation, elementType, parent, child, element, splitParent⟩, first, rows =>
    let mine := choice ⟨id, navigation, elementType, parent, child, element, splitParent⟩ first rows
    (∀ b ∈ parent, b.ReadableOn first) ∧ (∀ row ∈ mine, ∀ b ∈ child, b.ReadableOn row) ∧
      ∀ key ∈ presentKeys child mine,
        element.Readable choice ((rowsWith child key mine).headD []) (rowsWith child key mine)

def Node.ReadableMembers (choice : RowChoice) : List (String × Node) → (first : Row) → (rows : List Row) → Prop
  | [], _, _ => True
  | (_, member) :: rest, first, rows =>
    member.Readable choice first rows ∧ Node.ReadableMembers choice rest first rows

def EntityNode.ReadableReferences (choice : RowChoice) :
    List (String × EntityNode) → (first : Row) → (rows : List Row) → Prop
  | [], _, _ => True
  | (_, target) :: rest, first, rows =>
    target.Readable choice first rows ∧ EntityNode.ReadableReferences choice rest first rows

def CollectionPlace.ReadableAll (choice : RowChoice) :
    List (String × CollectionPlace) → (first : Row) → (rows : List Row) → Prop
  | [], _, _ => True
  | (_, c) :: rest, first, rows => c.Readable choice first rows ∧ CollectionPlace.ReadableAll choice rest first rows

end

/-! ## The collections of a node -/

mutual

/-- The ids of the collections of a node, those inside of elements included. -/
def Node.collectionIds : Node → List Nat
  | .scalar _ => []
  | .entity e => e.collectionIds
  | .collection c => c.collectionIds
  | .record members => Node.memberCollectionIds members

def EntityNode.collectionIds : EntityNode → List Nat
  | ⟨_, _, _, references, collections, _⟩ =>
    EntityNode.referenceCollectionIds references ++ CollectionPlace.allCollectionIds collections

def CollectionPlace.collectionIds : CollectionPlace → List Nat
  | .here c => c.collectionIds
  | .again id _ => [id]

def CollectionNode.collectionIds : CollectionNode → List Nat
  | ⟨id, _, _, _, _, element, _⟩ => id :: element.collectionIds

def Node.memberCollectionIds : List (String × Node) → List Nat
  | [] => []
  | (_, member) :: rest => member.collectionIds ++ Node.memberCollectionIds rest

def EntityNode.referenceCollectionIds : List (String × EntityNode) → List Nat
  | [] => []
  | (_, target) :: rest => target.collectionIds ++ EntityNode.referenceCollectionIds rest

def CollectionPlace.allCollectionIds : List (String × CollectionPlace) → List Nat
  | [] => []
  | (_, c) :: rest => c.collectionIds ++ CollectionPlace.allCollectionIds rest

end

/-- Whether the id of a collection is not used inside of its own elements. -/
def CollectionNode.Acyclic (c : CollectionNode) : Prop :=
  c.id ∉ c.element.collectionIds

mutual

/-- Whether all collections of a node have a property, those inside of elements included, and none is part of its own
elements. -/
def Node.Each (P : CollectionNode → Prop) : Node → Prop
  | .scalar _ => True
  | .entity e => e.Each P
  | .collection c => c.Each P
  | .record members => Node.EachMember P members

def EntityNode.Each (P : CollectionNode → Prop) : EntityNode → Prop
  | ⟨_, _, _, references, collections, _⟩ =>
    EntityNode.EachReference P references ∧ CollectionPlace.EachOf P collections

def CollectionPlace.Each (P : CollectionNode → Prop) : CollectionPlace → Prop
  | .here c => c.Each P
  | .again .. => False

def CollectionNode.Each (P : CollectionNode → Prop) : CollectionNode → Prop
  | ⟨id, navigation, elementType, parent, child, element, splitParent⟩ =>
    P ⟨id, navigation, elementType, parent, child, element, splitParent⟩ ∧ element.Each P

def Node.EachMember (P : CollectionNode → Prop) : List (String × Node) → Prop
  | [] => True
  | (_, member) :: rest => member.Each P ∧ Node.EachMember P rest

def EntityNode.EachReference (P : CollectionNode → Prop) : List (String × EntityNode) → Prop
  | [] => True
  | (_, target) :: rest => target.Each P ∧ EntityNode.EachReference P rest

def CollectionPlace.EachOf (P : CollectionNode → Prop) : List (String × CollectionPlace) → Prop
  | [] => True
  | (_, c) :: rest => c.Each P ∧ CollectionPlace.EachOf P rest

end

end QueryShaping
