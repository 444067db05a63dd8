import QueryShaping.Program.Basic
import QueryShaping.Shape.Basic

/-!
# From shapes to programs

Every index of a shape is looked up in the select it belongs to: the enclosing one, or the query of its own that a
collection's elements come from. The collections that are complete are kept by their ids, and none may take the id of
one of them. Only inside the elements of a collection, which is not complete yet, its id can be used once more; it
stands for the enclosing collection then.
-/

namespace QueryShaping

/-- A step that can fail and knows the collections that are complete. -/
abbrev Compiling := StateT (List CollectionNode) (Except Error)

/-- The collections around a place: their ids with the identifiers of their parents. -/
abbrev Enclosing := List (Nat × List Binding)

namespace Enclosing

/-- Adds a collection, unless it is one of those around it. -/
def enter (around : Enclosing) (id : Nat) (parent : List Binding) : Enclosing :=
  if (around.lookup id).isSome then around else (id, parent) :: around

/-- A collection at a place with these around it. -/
def place (around : Enclosing) (c : CollectionNode) : CollectionPlace :=
  match around.lookup c.id with
  | some parent => .again c.id parent
  | none => .here c

end Enclosing

/-- Keeps a collection, in place of one with its id. -/
def Compiling.keep (c : CollectionNode) : Compiling Unit :=
  modify fun complete => c :: complete.filter (·.id ≠ c.id)

/-- What the navigations of an entity lead to. -/
structure Targets where
  references : List (String × EntityNode)
  collections : List (String × CollectionPlace)

namespace Targets

def none : Targets := ⟨[], []⟩

def addReference (name : String) (e : EntityNode) (t : Targets) : Targets :=
  { t with references := (name, e) :: t.references }

def addCollection (name : String) (c : CollectionPlace) (t : Targets) : Targets :=
  { t with collections := (name, c) :: t.collections }

end Targets

def PropertyShape.compile (select : Select) (p : PropertyShape) : Except Error (String × Binding) := do
  return (p.name, ← Binding.resolve select p.index p.nullable)

mutual

def Shape.compile : Shape → Enclosing → Select → Compiling Node
  | .scalar index nullable, _, select => do return .scalar (← Binding.resolve select index nullable)
  | .entity e, around, select => do return .entity (← e.compile around select)
  | .collection c, around, select => do return .collection (← c.compile around select)
  | .record members, around, select => do return .record (← Member.compileAll members around select)
  | .pending p, _, _ => throw (.shape (.unjoinedCollection p.elementType))

def EntityShape.compile : EntityShape → Enclosing → Select → Compiling EntityNode
  | ⟨entityType, key, properties, navigations, nullable⟩, around, select => do
    if key.isEmpty then throw (.shape (.entityWithoutKey entityType))
    let key ← Binding.resolveIdentifier select key
    let properties ← properties.mapM (m := Except Error) fun p => p.compile select
    let targets ← Navigation.compileAll navigations around select
    return ⟨entityType, key, properties, targets.references, targets.collections, nullable⟩

def CollectionShape.compile : CollectionShape → Enclosing → Select → Compiling CollectionPlace
  | ⟨id, navigation, elementType, parent, child, element, split⟩, around, select => do
    if (← get).any (·.id = id) then throw (.shape (.duplicateCollection id))
    let parent ← Binding.resolveIdentifier select parent
    let splitParent ← split.mapM (m := Except Error) fun s => Binding.resolveIdentifier s.query s.parentIdentifier
    let elements := split.elim select (·.query)
    let child ← Binding.resolveIdentifier elements child
    let element ← element.compile (around.enter id parent) elements
    let c : CollectionNode := ⟨id, navigation, elementType, parent, child, element, splitParent⟩
    Compiling.keep c
    return around.place c

/-- Adds the target of a navigation to those of the navigations after it. -/
def Navigation.compile : Navigation → Enclosing → Select → Compiling (Targets → Targets)
  | ⟨name, .entity e⟩, around, select => do return Targets.addReference name (← e.compile around select)
  | ⟨name, .collection c⟩, around, select => do return Targets.addCollection name (← c.compile around select)
  | ⟨name, .pending _⟩, _, _ => throw (.shape (.unjoinedNavigation name))
  | ⟨name, .scalar ..⟩, _, _ => throw (.shape (.navigationToNoEntity name))
  | ⟨name, .record _⟩, _, _ => throw (.shape (.navigationToNoEntity name))

def Navigation.compileAll : List Navigation → Enclosing → Select → Compiling Targets
  | [], _, _ => return Targets.none
  | n :: rest, around, select => do
    let add ← n.compile around select
    return add (← Navigation.compileAll rest around select)

def Member.compile : Member → Enclosing → Select → Compiling (String × Node)
  | ⟨name, shape⟩, around, select => do return (name, ← shape.compile around select)

def Member.compileAll : List Member → Enclosing → Select → Compiling (List (String × Node))
  | [], _, _ => return []
  | m :: rest, around, select => do
    let node ← m.compile around select
    return node :: (← Member.compileAll rest around select)

end

/-- The program of a query without pending collections. -/
def ShapedQuery.compile (shaped : ShapedQuery) : Except Error Program := do
  let (root, collections) ← (shaped.shape.compile [] shaped.query).run []
  return ⟨root, collections⟩

end QueryShaping
