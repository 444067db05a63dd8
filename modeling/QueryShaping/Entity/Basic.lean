import QueryShaping.Value.Key

/-!
# Entities and results

Results are values over a graph of entities. An entity is known by its place in the graph, so that two results can share
it, and its navigations may lead back to it.
-/

namespace QueryShaping

/-- The place of an entity in its graph. -/
abbrev EntityId := Nat

/-- A value that a row was shaped into. -/
inductive Result where
  | null
  | scalar (v : Value)
  | entity (id : EntityId)
  | collection (items : List Result)
  | record (members : List (String × Result))
deriving Inhabited

namespace Result

def isNull : Result → Bool
  | .null => true
  | _ => false

def scalar? : Result → Option Value
  | .scalar v => some v
  | _ => none

def entity? : Result → Option EntityId
  | .entity id => some id
  | _ => none

def items? : Result → Option (List Result)
  | .collection items => some items
  | _ => none

/-- The first member of a record with this name. -/
def member? : Result → String → Option Result
  | .record members, name => members.lookup name
  | _, _ => none

end Result

structure Entity where
  entityType : String
  key : List Value
  fields : List (String × Value)
  navigations : List (String × Result)

namespace Entity

def identity (e : Entity) : Key := Key.ofValues e.key

def field? (e : Entity) (name : String) : Option Value := e.fields.lookup name

def navigation? (e : Entity) (name : String) : Option Result := e.navigations.lookup name

/-- A list of navigations with one of them added or replaced. -/
def putNavigation (name : String) (value : Result) : List (String × Result) → List (String × Result)
  | [] => [(name, value)]
  | (other, old) :: rest =>
    if other = name then (other, value) :: rest else (other, old) :: putNavigation name value rest

def setNavigation (e : Entity) (name : String) (value : Result) : Entity :=
  { e with navigations := putNavigation name value e.navigations }

/-- Whether type, key and fields agree. Navigations do not count. -/
def agrees (a b : Entity) : Bool :=
  a.entityType = b.entityType && a.key == b.key && a.fields == b.fields

end Entity

/-- All entities that have been made, in order. -/
structure Graph where
  entities : Array Entity

namespace Graph

def empty : Graph := ⟨#[]⟩

def size (g : Graph) : Nat := g.entities.size

def get? (g : Graph) (id : EntityId) : Option Entity := g.entities[id]?

/-- Adds an entity without navigations. -/
def add (g : Graph) (entityType : String) (key : List Value) (fields : List (String × Value)) : EntityId × Graph :=
  (g.size, ⟨g.entities.push ⟨entityType, key, fields, []⟩⟩)

def setNavigation (g : Graph) (id : EntityId) (name : String) (value : Result) : Graph :=
  ⟨g.entities.modify id (·.setNavigation name value)⟩

/-- Whether two places hold entities that agree; every entity agrees with itself. -/
def agree (g : Graph) (a b : EntityId) : Bool :=
  a = b ||
    match g.get? a, g.get? b with
    | some x, some y => x.agrees y
    | _, _ => false

end Graph

mutual

/-- Whether two results are the same but for the navigations of their entities. -/
def Result.agree (g : Graph) : Result → Result → Bool
  | .null, .null => true
  | .scalar v, .scalar w => v == w
  | .entity a, .entity b => g.agree a b
  | .collection as, .collection bs => Result.agreeAll g as bs
  | .record as, .record bs => Result.agreeMembers g as bs
  | _, _ => false

def Result.agreeAll (g : Graph) : List Result → List Result → Bool
  | [], [] => true
  | a :: as, b :: bs => a.agree g b && Result.agreeAll g as bs
  | _, _ => false

def Result.agreeMembers (g : Graph) : List (String × Result) → List (String × Result) → Bool
  | [], [] => true
  | (x, a) :: as, (y, b) :: bs => x = y && a.agree g b && Result.agreeMembers g as bs
  | _, _ => false

end

end QueryShaping
