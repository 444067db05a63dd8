import QueryShaping.Mapping.Json
import QueryShaping.Query.Basic

/-!
# Query trees as JSON

Every variant is an object whose one member names it, and every node is an object of its fields. An optional field
is written as `null` when it is absent and may be left out in what is read; members that mean nothing are ignored.
A node can also be read from the array of all its fields in order.
-/

namespace QueryShaping

namespace Json

def ofString? : Option String → Json :=
  ofOption .string

def ofNat (n : Nat) : Json := .int n

end Json

def BinaryOp.decode? (j : Json) : Option BinaryOp := j.unit?.bind BinaryOp.ofName?

def UnaryOp.decode? (j : Json) : Option UnaryOp := j.unit?.bind UnaryOp.ofName?

def SetOperator.decode? (j : Json) : Option SetOperator := j.unit?.bind SetOperator.ofName?

def ColumnRef.encode (c : ColumnRef) : Json :=
  .object [("table", .ofNat c.table), ("table_alias", .ofString? c.qualifier), ("name", .string c.name),
    ("type_mapping", .ofOption TypeMapping.encode c.mapping), ("nullable", .bool c.nullable)]

def KeyRef.encode (k : KeyRef) : Json :=
  .object [("table", .ofNat k.table), ("table_alias", .ofString? k.qualifier), ("key", .string k.key),
    ("type_mapping", .ofOption TypeMapping.encode k.mapping), ("nullable", .bool k.nullable)]

mutual

def Expr.encode : Expr → Json
  | .column c => .variant "Column" c.encode
  | .keyAccess k => .variant "KeyAccess" k.encode
  | .constant value mapping =>
    .variant "Constant" (.object [("value", value.encode), ("type_mapping", .ofOption TypeMapping.encode mapping)])
  | .parameter name mapping =>
    .variant "Parameter" (.object [("name", .string name), ("type_mapping", .ofOption TypeMapping.encode mapping)])
  | .binary op left right =>
    .variant "Binary" (.object [("op", .string op.name), ("left", left.encode), ("right", right.encode)])
  | .unary op operand =>
    .variant "Unary" (.object [("op", .string op.name), ("operand", operand.encode)])
  | .conditional test ifTrue ifFalse =>
    .variant "Conditional"
      (.object [("test", test.encode), ("if_true", ifTrue.encode), ("if_false", ifFalse.encode)])
  | .call name niladic receiver arguments mapping =>
    .variant "Function"
      (.object [("name", .string name), ("niladic", .bool niladic), ("instance", Expr.encodeOption receiver),
        ("arguments", .array (Expr.encodeList arguments)),
        ("type_mapping", .ofOption TypeMapping.encode mapping)])
  | .inValues item values negated =>
    .variant "In"
      (.object [("item", item.encode), ("source", .variant "Values" (.array (Expr.encodeList values))),
        ("negated", .bool negated)])
  | .inSubquery item subquery negated =>
    .variant "In"
      (.object [("item", item.encode), ("source", .variant "Subquery" subquery.encode),
        ("negated", .bool negated)])
  | .exists subquery negated =>
    .variant "Exists" (.object [("subquery", subquery.encode), ("negated", .bool negated)])
  | .like subject pattern escape =>
    .variant "Like"
      (.object [("match_expr", subject.encode), ("pattern", pattern.encode), ("escape", Expr.encodeOption escape)])
  | .scalarSubquery subquery => .variant "ScalarSubquery" (.object [("subquery", subquery.encode)])
  | .rowNumber partitions orderings =>
    .variant "RowNumber"
      (.object [("partitions", .array (Expr.encodeList partitions)),
        ("orderings", .array (SortTerm.encodeList orderings))])

def Expr.encodeOption : Option Expr → Json
  | none => .null
  | some e => e.encode

def Expr.encodeList : List Expr → List Json
  | [] => []
  | e :: rest => e.encode :: Expr.encodeList rest

def SortTerm.encode : SortTerm → Json
  | ⟨expr, ascending⟩ => .object [("expr", expr.encode), ("ascending", .bool ascending)]

def SortTerm.encodeList : List SortTerm → List Json
  | [] => []
  | t :: rest => t.encode :: SortTerm.encodeList rest

def Projection.encode : Projection → Json
  | ⟨aliasName, expr⟩ => .object [("alias", .string aliasName), ("expr", expr.encode)]

def Projection.encodeList : List Projection → List Json
  | [] => []
  | p :: rest => p.encode :: Projection.encodeList rest

def Select.encode : Select → Json
  | ⟨projections, sources, predicate, groupBy, having, orderings, limit, offset, distinct⟩ =>
    .object [("projections", .array (Projection.encodeList projections)),
      ("tables", .array (Source.encodeList sources)), ("predicate", Expr.encodeOption predicate),
      ("group_by", .array (Expr.encodeList groupBy)), ("having", Expr.encodeOption having),
      ("orderings", .array (SortTerm.encodeList orderings)), ("limit", Expr.encodeOption limit),
      ("offset", Expr.encodeOption offset), ("distinct", .bool distinct)]

def Source.encode : Source → Json
  | .table id aliasName name schema =>
    .variant "Table" (.object [("id", .ofNat id), ("alias", .ofString? aliasName), ("name", .string name),
      ("schema", .ofString? schema)])
  | .derived id aliasName select =>
    .variant "Derived" (.object [("id", .ofNat id), ("alias", .ofString? aliasName), ("select", select.encode)])
  | .setOperation id aliasName op distinct left right =>
    .variant "SetOperation" (.object [("id", .ofNat id), ("alias", .ofString? aliasName), ("kind", .string op.name),
      ("distinct", .bool distinct), ("left", left.encode), ("right", right.encode)])
  | .joined kind source => .variant "Join" (.variant kind.name (.object [("table", source.encode)]))
  | .joinedOn kind source predicate =>
    .variant "Join"
      (.variant kind.name (.object [("table", source.encode), ("predicate", predicate.encode)]))

def Source.encodeList : List Source → List Json
  | [] => []
  | s :: rest => s.encode :: Source.encodeList rest

end

namespace Json

/-- Reads the fields of a column or a key, whose name stands under `label`. -/
def reference? (label : String) (j : Json) : Option ColumnRef := do
  let f ← j.fields? ["table", "table_alias", label, "type_mapping", "nullable"]
  let table ← (← f.value? "table").nat?
  let qualifier ← f.option? string? "table_alias"
  let name ← (← f.value? label).string?
  let mapping ← f.option? TypeMapping.decode? "type_mapping"
  let nullable ← (← f.value? "nullable").bool?
  return ⟨table, qualifier, name, mapping, nullable⟩

end Json

def ColumnRef.decode? (j : Json) : Option ColumnRef := j.reference? "name"

def KeyRef.decode? (j : Json) : Option KeyRef :=
  (j.reference? "key").map fun c => ⟨c.table, c.qualifier, c.name, c.mapping, c.nullable⟩

mutual

def Expr.decode? (j : Json) : Option Expr := do
  let (tag, p) ← j.tagged?
  match tag with
  | "Column" => return .column (← ColumnRef.decode? p.value)
  | "KeyAccess" => return .keyAccess (← KeyRef.decode? p.value)
  | "Constant" =>
    let f ← p.fields? ["value", "type_mapping"]
    let value ← Value.decode? (← f.value? "value")
    return .constant value (← f.option? TypeMapping.decode? "type_mapping")
  | "Parameter" =>
    let f ← p.fields? ["name", "type_mapping"]
    let name ← (← f.value? "name").string?
    return .parameter name (← f.option? TypeMapping.decode? "type_mapping")
  | "Binary" =>
    let f ← p.fields? ["op", "left", "right"]
    let op ← BinaryOp.decode? (← f.value? "op")
    let left ← f.get? "left"
    let right ← f.get? "right"
    return .binary op (← Expr.decode? left.value) (← Expr.decode? right.value)
  | "Unary" =>
    let f ← p.fields? ["op", "operand"]
    let op ← UnaryOp.decode? (← f.value? "op")
    let operand ← f.get? "operand"
    return .unary op (← Expr.decode? operand.value)
  | "Conditional" =>
    let f ← p.fields? ["test", "if_true", "if_false"]
    let test ← f.get? "test"
    let ifTrue ← f.get? "if_true"
    let ifFalse ← f.get? "if_false"
    return .conditional (← Expr.decode? test.value) (← Expr.decode? ifTrue.value) (← Expr.decode? ifFalse.value)
  | "Function" =>
    let f ← p.fields? ["name", "niladic", "instance", "arguments", "type_mapping"]
    let name ← (← f.value? "name").string?
    let niladic ← (← f.value? "niladic").bool?
    let receiver ← (f.optional? "instance").mapM fun e => Expr.decode? e.value
    let arguments ← (← f.items? "arguments").mapM fun a => Expr.decode? a.value
    return .call name niladic receiver arguments (← f.option? TypeMapping.decode? "type_mapping")
  | "In" =>
    let f ← p.fields? ["item", "source", "negated"]
    let item ← f.get? "item"
    let item ← Expr.decode? item.value
    let (kind, source) ← (← f.get? "source").tagged?
    let negated ← (← f.value? "negated").bool?
    match kind with
    | "Values" =>
      let values ← (← source.parts?).mapM fun v => Expr.decode? v.value
      return .inValues item values negated
    | "Subquery" => return .inSubquery item (← Select.decode? source.value) negated
    | _ => none
  | "Exists" =>
    let f ← p.fields? ["subquery", "negated"]
    let subquery ← f.get? "subquery"
    let negated ← (← f.value? "negated").bool?
    return .exists (← Select.decode? subquery.value) negated
  | "Like" =>
    let f ← p.fields? ["match_expr", "pattern", "escape"]
    let subject ← f.get? "match_expr"
    let pattern ← f.get? "pattern"
    let escape ← (f.optional? "escape").mapM fun e => Expr.decode? e.value
    return .like (← Expr.decode? subject.value) (← Expr.decode? pattern.value) escape
  | "ScalarSubquery" =>
    let f ← p.fields? ["subquery"]
    let subquery ← f.get? "subquery"
    return .scalarSubquery (← Select.decode? subquery.value)
  | "RowNumber" =>
    let f ← p.fields? ["partitions", "orderings"]
    let partitions ← (← f.items? "partitions").mapM fun e => Expr.decode? e.value
    let orderings ← (← f.items? "orderings").mapM fun t => SortTerm.decode? t.value
    return .rowNumber partitions orderings
  | _ => none
termination_by sizeOf j
decreasing_by all_goals exact Json.Part.smaller _

def SortTerm.decode? (j : Json) : Option SortTerm := do
  let f ← j.fields? ["expr", "ascending"]
  let expr ← f.get? "expr"
  let ascending ← (← f.value? "ascending").bool?
  return ⟨← Expr.decode? expr.value, ascending⟩
termination_by sizeOf j
decreasing_by all_goals exact Json.Part.smaller _

def Projection.decode? (j : Json) : Option Projection := do
  let f ← j.fields? ["alias", "expr"]
  let aliasName ← (← f.value? "alias").string?
  let expr ← f.get? "expr"
  return ⟨aliasName, ← Expr.decode? expr.value⟩
termination_by sizeOf j
decreasing_by all_goals exact Json.Part.smaller _

def Select.decode? (j : Json) : Option Select := do
  let f ← j.fields? ["projections", "tables", "predicate", "group_by", "having", "orderings", "limit", "offset",
    "distinct"]
  let projections ← (← f.items? "projections").mapM fun p => Projection.decode? p.value
  let sources ← (← f.items? "tables").mapM fun s => Source.decode? s.value
  let groupBy ← (← f.items? "group_by").mapM fun e => Expr.decode? e.value
  let orderings ← (← f.items? "orderings").mapM fun t => SortTerm.decode? t.value
  let predicate ← (f.optional? "predicate").mapM fun e => Expr.decode? e.value
  let having ← (f.optional? "having").mapM fun e => Expr.decode? e.value
  let limit ← (f.optional? "limit").mapM fun e => Expr.decode? e.value
  let offset ← (f.optional? "offset").mapM fun e => Expr.decode? e.value
  let distinct ← (← f.value? "distinct").bool?
  return ⟨projections, sources, predicate, groupBy, having, orderings, limit, offset, distinct⟩
termination_by sizeOf j
decreasing_by all_goals exact Json.Part.smaller _

def Source.decode? (j : Json) : Option Source := do
  let (tag, p) ← j.tagged?
  match tag with
  | "Table" =>
    let f ← p.fields? ["id", "alias", "name", "schema"]
    let id ← (← f.value? "id").nat?
    let aliasName ← f.option? Json.string? "alias"
    let name ← (← f.value? "name").string?
    return .table id aliasName name (← f.option? Json.string? "schema")
  | "Derived" =>
    let f ← p.fields? ["id", "alias", "select"]
    let id ← (← f.value? "id").nat?
    let aliasName ← f.option? Json.string? "alias"
    let select ← f.get? "select"
    return .derived id aliasName (← Select.decode? select.value)
  | "SetOperation" =>
    let f ← p.fields? ["id", "alias", "kind", "distinct", "left", "right"]
    let id ← (← f.value? "id").nat?
    let aliasName ← f.option? Json.string? "alias"
    let op ← SetOperator.decode? (← f.value? "kind")
    let distinct ← (← f.value? "distinct").bool?
    let left ← f.get? "left"
    let right ← f.get? "right"
    return .setOperation id aliasName op distinct (← Select.decode? left.value) (← Select.decode? right.value)
  | "Join" => Source.decodeJoin? p.value
  | _ => none
termination_by sizeOf j
decreasing_by all_goals exact Json.Part.smaller _

/-- Reads the kind of a join with its fields, which are always given by name. -/
def Source.decodeJoin? (j : Json) : Option Source := do
  let (kind, p) ← j.tagged?
  let f ← p.members?
  let source ← f.get? "table"
  let source ← Source.decode? source.value
  match kind with
  | "Cross" => return .joined .cross source
  | "CrossApply" => return .joined .crossApply source
  | "OuterApply" => return .joined .outerApply source
  | "Inner" =>
    let predicate ← f.get? "predicate"
    return .joinedOn .inner source (← Expr.decode? predicate.value)
  | "Left" =>
    let predicate ← f.get? "predicate"
    return .joinedOn .left source (← Expr.decode? predicate.value)
  | _ => none
termination_by sizeOf j
decreasing_by all_goals exact Json.Part.smaller _

end

end QueryShaping
