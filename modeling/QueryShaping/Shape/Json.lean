import QueryShaping.Query.Json
import QueryShaping.Shape.Basic

/-!
# Shapes as JSON
-/

namespace QueryShaping

def Json.ofIndices (indices : List Nat) : Json :=
  .array (indices.map .ofNat)

def Json.indices? (j : Json) : Option (List Nat) :=
  j.listWith? nat?

def PropertyShape.encode (p : PropertyShape) : Json :=
  .object [("name", .string p.name), ("index", .ofNat p.index), ("nullable", .bool p.nullable)]

def PropertyShape.decode? (j : Json) : Option PropertyShape := do
  let f ← j.fields? ["name", "index", "nullable"]
  let name ← (← f.value? "name").string?
  let index ← (← f.value? "index").nat?
  let nullable ← (← f.value? "nullable").bool?
  return ⟨name, index, nullable⟩

def SplitQuery.encode (s : SplitQuery) : Json :=
  .object [("query", s.query.encode), ("parent_identifier", .ofIndices s.parentIdentifier)]

def SplitQuery.decode? (j : Json) : Option SplitQuery := do
  let f ← j.fields? ["query", "parent_identifier"]
  let query ← Select.decode? (← f.value? "query")
  let parent ← (← f.value? "parent_identifier").indices?
  return ⟨query, parent⟩

mutual

def Shape.encode : Shape → Json
  | .scalar index nullable =>
    .variant "Scalar" (.object [("index", .ofNat index), ("nullable", .bool nullable)])
  | .entity e => .variant "Entity" e.encode
  | .collection c => .variant "Collection" c.encode
  | .pending p => .variant "PendingCollection" p.encode
  | .record members => .variant "Record" (.object [("members", .array (Member.encodeList members))])

def EntityShape.encode : EntityShape → Json
  | ⟨entityType, key, properties, navigations, nullable⟩ =>
    .object [("entity_type", .string entityType), ("key", .ofIndices key),
      ("properties", .array (properties.map PropertyShape.encode)),
      ("navigations", .array (Navigation.encodeList navigations)), ("nullable", .bool nullable)]

def CollectionShape.encode : CollectionShape → Json
  | ⟨id, navigation, elementType, parent, child, element, split⟩ =>
    .object [("collection_id", .ofNat id), ("navigation", .ofString? navigation),
      ("element_type", .string elementType), ("parent_identifier", .ofIndices parent),
      ("child_identifier", .ofIndices child), ("element", element.encode),
      ("split", .ofOption SplitQuery.encode split)]

def PendingCollection.encode : PendingCollection → Json
  | ⟨navigation, elementType, parent, outerKey, inner, innerKey, innerIdentifier⟩ =>
    .object [("navigation", .ofString? navigation), ("element_type", .string elementType),
      ("parent_identifier", .ofIndices parent), ("outer_key", .ofIndices outerKey), ("inner", inner.encode),
      ("inner_key", .array (innerKey.map Expr.encode)), ("inner_identifier", .ofIndices innerIdentifier)]

def ShapedQuery.encode : ShapedQuery → Json
  | ⟨query, shape⟩ => .object [("query", query.encode), ("shaper", shape.encode)]

def Navigation.encode : Navigation → Json
  | ⟨name, target⟩ => .object [("name", .string name), ("target", target.encode)]

def Navigation.encodeList : List Navigation → List Json
  | [] => []
  | n :: rest => n.encode :: Navigation.encodeList rest

def Member.encode : Member → Json
  | ⟨name, shape⟩ => .object [("name", .string name), ("shaper", shape.encode)]

def Member.encodeList : List Member → List Json
  | [] => []
  | m :: rest => m.encode :: Member.encodeList rest

end

mutual

def Shape.decode? (j : Json) : Option Shape := do
  let (tag, p) ← j.tagged?
  match tag with
  | "Scalar" =>
    let f ← p.fields? ["index", "nullable"]
    let index ← (← f.value? "index").nat?
    let nullable ← (← f.value? "nullable").bool?
    return .scalar index nullable
  | "Entity" => return .entity (← EntityShape.decode? p.value)
  | "Collection" => return .collection (← CollectionShape.decode? p.value)
  | "PendingCollection" => return .pending (← PendingCollection.decode? p.value)
  | "Record" =>
    let f ← p.fields? ["members"]
    let members ← (← f.items? "members").mapM fun m => Member.decode? m.value
    return .record members
  | _ => none
termination_by sizeOf j
decreasing_by all_goals exact Json.Part.smaller _

def EntityShape.decode? (j : Json) : Option EntityShape := do
  let f ← j.fields? ["entity_type", "key", "properties", "navigations", "nullable"]
  let entityType ← (← f.value? "entity_type").string?
  let key ← (← f.value? "key").indices?
  let properties ← (← f.value? "properties").listWith? PropertyShape.decode?
  let navigations ← (← f.items? "navigations").mapM fun n => Navigation.decode? n.value
  let nullable ← (← f.value? "nullable").bool?
  return ⟨entityType, key, properties, navigations, nullable⟩
termination_by sizeOf j
decreasing_by all_goals exact Json.Part.smaller _

def CollectionShape.decode? (j : Json) : Option CollectionShape := do
  let f ← j.fields? ["collection_id", "navigation", "element_type", "parent_identifier", "child_identifier", "element",
    "split"]
  let id ← (← f.value? "collection_id").nat?
  let navigation ← f.option? Json.string? "navigation"
  let elementType ← (← f.value? "element_type").string?
  let parent ← (← f.value? "parent_identifier").indices?
  let child ← (← f.value? "child_identifier").indices?
  let element ← f.get? "element"
  let split ← f.option? SplitQuery.decode? "split"
  return ⟨id, navigation, elementType, parent, child, ← Shape.decode? element.value, split⟩
termination_by sizeOf j
decreasing_by all_goals exact Json.Part.smaller _

def PendingCollection.decode? (j : Json) : Option PendingCollection := do
  let f ← j.fields? ["navigation", "element_type", "parent_identifier", "outer_key", "inner", "inner_key",
    "inner_identifier"]
  let navigation ← f.option? Json.string? "navigation"
  let elementType ← (← f.value? "element_type").string?
  let parent ← (← f.value? "parent_identifier").indices?
  let outerKey ← (← f.value? "outer_key").indices?
  let inner ← f.get? "inner"
  let innerKey ← (← f.value? "inner_key").listWith? Expr.decode?
  let innerIdentifier ← (← f.value? "inner_identifier").indices?
  return ⟨navigation, elementType, parent, outerKey, ← ShapedQuery.decode? inner.value, innerKey, innerIdentifier⟩
termination_by sizeOf j
decreasing_by all_goals exact Json.Part.smaller _

def ShapedQuery.decode? (j : Json) : Option ShapedQuery := do
  let f ← j.fields? ["query", "shaper"]
  let query ← Select.decode? (← f.value? "query")
  let shape ← f.get? "shaper"
  return ⟨query, ← Shape.decode? shape.value⟩
termination_by sizeOf j
decreasing_by all_goals exact Json.Part.smaller _

def Navigation.decode? (j : Json) : Option Navigation := do
  let f ← j.fields? ["name", "target"]
  let name ← (← f.value? "name").string?
  let target ← f.get? "target"
  return ⟨name, ← Shape.decode? target.value⟩
termination_by sizeOf j
decreasing_by all_goals exact Json.Part.smaller _

def Member.decode? (j : Json) : Option Member := do
  let f ← j.fields? ["name", "shaper"]
  let name ← (← f.value? "name").string?
  let shape ← f.get? "shaper"
  return ⟨name, ← Shape.decode? shape.value⟩
termination_by sizeOf j
decreasing_by all_goals exact Json.Part.smaller _

end

end QueryShaping
