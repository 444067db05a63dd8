import QueryShaping.Entity.Basic

/-!
# Results as plain JSON

An entity is the object of its fields and navigations; a navigation stands in the place of a field of the same name. An
entity that is being written already is written with its fields only, which cuts every cycle.
-/

namespace QueryShaping

def Entity.fieldMembers (e : Entity) : List (String × Json) :=
  e.fields.map fun (name, v) => (name, v.toJson)

mutual

/-- Writes a result, given how entities are written. -/
def Result.renderWith (entity : EntityId → Json) : Result → Json
  | .null => .null
  | .scalar v => v.toJson
  | .entity id => entity id
  | .collection items => .array (Result.renderAll entity items)
  | .record members => .objectOf (Result.renderMembers entity members)

def Result.renderAll (entity : EntityId → Json) : List Result → List Json
  | [] => []
  | r :: rest => r.renderWith entity :: Result.renderAll entity rest

def Result.renderMembers (entity : EntityId → Json) : List (String × Result) → List (String × Json)
  | [] => []
  | (name, r) :: rest => (name, r.renderWith entity) :: Result.renderMembers entity rest

end

namespace Graph

/-- Writes an entity that is reached through those on the path, which are told apart. The path cannot become longer than
the graph, so `fuel` only has to cover the entities that are not on it. -/
def renderEntity (g : Graph) : (fuel : Nat) → (path : List EntityId) → EntityId → Json
  | 0, _, id => .objectOf ((g.get? id).elim [] Entity.fieldMembers)
  | fuel + 1, path, id =>
    match g.get? id with
    | none => .objectOf []
    | some e =>
      if path.contains id then .objectOf e.fieldMembers
      else
        .objectOf (e.fieldMembers ++ Result.renderMembers (g.renderEntity fuel (id :: path)) e.navigations)

/-- Writes an entity. -/
def entityJson (g : Graph) (id : EntityId) : Json :=
  g.renderEntity g.size [] id

/-- Writes a result. -/
def json (g : Graph) (r : Result) : Json :=
  r.renderWith g.entityJson

end Graph

end QueryShaping
