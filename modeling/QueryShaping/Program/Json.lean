import QueryShaping.Mapping.Json
import QueryShaping.Program.Basic

/-!
# The JSON form of programs

A collection stands as its id where it is part of a value, and is written out by itself.
-/

namespace QueryShaping

def Binding.encode (b : Binding) : Json :=
  .object [("ordinal", .int b.ordinal), ("column", .string b.column),
    ("domain_type", .ofOption DomainType.encode b.domainType),
    ("converter", .ofOption Converter.encode b.converter), ("nullable", .bool b.nullable)]

def Binding.encodeAll (bindings : List Binding) : Json :=
  .array (bindings.map encode)

mutual

def Node.encode : Node → Json
  | .scalar b => .variant "scalar" b.encode
  | .entity e => .variant "entity" e.encode
  | .collection c => .variant "collection" (.int c.id)
  | .record members => .variant "record" (.array (Node.encodeMembers members))

def EntityNode.encode : EntityNode → Json
  | ⟨entityType, key, properties, references, collections, nullable⟩ =>
    .object [("type", .string entityType), ("key", Binding.encodeAll key),
      ("properties", .array (properties.map fun (name, b) => .array [.string name, b.encode])),
      ("references", .array (EntityNode.encodeReferences references)),
      ("collections", .array (collections.map fun (name, c) => .array [.string name, .int c.id])),
      ("nullable", .bool nullable)]

def Node.encodeMembers : List (String × Node) → List Json
  | [] => []
  | (name, member) :: rest => .array [.string name, member.encode] :: Node.encodeMembers rest

def EntityNode.encodeReferences : List (String × EntityNode) → List Json
  | [] => []
  | (name, target) :: rest => .array [.string name, target.encode] :: EntityNode.encodeReferences rest

end

def CollectionNode.encode (c : CollectionNode) : Json :=
  .object [("id", .int c.id), ("navigation", .ofOption .string c.navigation), ("element_type", .string c.elementType),
    ("parent", Binding.encodeAll c.parent), ("child", Binding.encodeAll c.child), ("element", c.element.encode),
    ("split", .bool c.isSplit), ("split_parent", .ofOption Binding.encodeAll c.splitParent)]

end QueryShaping
