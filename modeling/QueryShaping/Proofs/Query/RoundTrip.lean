import QueryShaping.Proofs.Json.Form
import QueryShaping.Query.Json

/-!
# Query trees are read back

Every node of a query tree is read back from all forms of its code if the nodes inside it are, and so the whole tree is.
Only a floating-point number is not among the leaves of which this holds.
-/

namespace QueryShaping

open Json (ReadsBack bind_of_some)

/-! ## Leaves -/

namespace Json

theorem readsBack_nat (n : Nat) : ReadsBack ofNat nat? n :=
  ⟨nofun, fun h => by rw [h.eq_int]; simp [nat?]⟩

end Json

theorem BinaryOp.readsBack (op : BinaryOp) : ReadsBack (fun op : BinaryOp => .string op.name) BinaryOp.decode? op :=
  ⟨nofun, fun h => by rw [h.eq_string]; cases op <;> rfl⟩

theorem UnaryOp.readsBack (op : UnaryOp) : ReadsBack (fun op : UnaryOp => .string op.name) UnaryOp.decode? op :=
  ⟨nofun, fun h => by rw [h.eq_string]; cases op <;> rfl⟩

theorem SetOperator.readsBack (op : SetOperator) :
    ReadsBack (fun op : SetOperator => .string op.name) SetOperator.decode? op :=
  ⟨nofun, fun h => by rw [h.eq_string]; cases op <;> rfl⟩

theorem DomainType.readsBack (t : DomainType) : ReadsBack DomainType.encode DomainType.decode? t :=
  ⟨nofun, fun h => by rw [h.eq_string]; cases t <;> rfl⟩

namespace Json

theorem intBetween?_int {low high n : Int} (hlow : low ≤ n) (hhigh : n ≤ high) :
    intBetween? low high (.int n) = some n := by
  simp [intBetween?, int?, hlow, hhigh]

theorem readsBack_int32 (n : Int32) : ReadsBack (fun n : Int32 => .int n.toInt) int32? n := by
  refine ⟨nofun, fun h => ?_⟩
  have hlow : Int32.minValue.toInt ≤ n.toInt := n.le_toInt
  have hhigh : n.toInt ≤ Int32.maxValue.toInt := Int.le_of_lt_add_one n.toInt_lt
  rw [h.eq_int, int32?, intBetween?_int hlow hhigh, Option.map_some, Int32.ofInt_toInt]

theorem readsBack_int64 (n : Int64) : ReadsBack (fun n : Int64 => .int n.toInt) int64? n := by
  refine ⟨nofun, fun h => ?_⟩
  have hlow : Int64.minValue.toInt ≤ n.toInt := n.le_toInt
  have hhigh : n.toInt ≤ Int64.maxValue.toInt := Int.le_of_lt_add_one n.toInt_lt
  rw [h.eq_int, int64?, intBetween?_int hlow hhigh, Option.map_some, Int64.ofInt_toInt]

theorem readsBack_byte (b : UInt8) : ReadsBack (fun b : UInt8 => .int b.toNat) byte? b := by
  refine ⟨nofun, fun h => ?_⟩
  have hhigh : (b.toNat : Int) ≤ 255 := by have := b.toNat_lt; omega
  rw [h.eq_int, byte?, intBetween?_int (Int.natCast_nonneg _) hhigh]
  simp

theorem readsBack_bytes (data : List UInt8) : ReadsBack ofBytes bytes? data :=
  readsBack_list fun b _ => readsBack_byte b

theorem readsBack_uuid (u : Uuid) : ReadsBack (fun u : Uuid => ofBytes u.bytes) uuid? u := by
  refine ⟨nofun, fun h => ?_⟩
  have hbytes := (readsBack_bytes u.bytes).decode_form h
  simp [uuid?, hbytes, u.size]

end Json

namespace Value

/-- A variant is read back if its payload is read back under its tag. -/
theorem readsBack_of_tagged {α : Type} {encode : α → Json} {decode : Json → Option α} {a : α} {tag : String} {v : Value}
    (ha : ReadsBack encode decode a) (hcode : v.encode = .variant tag (encode a))
    (htag : ∀ {payload}, decode payload = some a → ofTagged? tag payload = some v) :
    ReadsBack Value.encode Value.decode? v := by
  refine ⟨hcode ▸ nofun, fun {j} hj => ?_⟩
  obtain ⟨payload, rfl, hform⟩ := Json.Form.of_variant (hcode ▸ hj) ha.ne_null
  exact htag (ha.decode_form hform)

/-- A value that is not a floating-point number is read back. -/
theorem readsBack {v : Value} (h : v.isFloat = false) : ReadsBack Value.encode Value.decode? v := by
  cases v with
  | null => exact ⟨nofun, fun hj => by rw [hj.eq_string]; rfl⟩
  | bool b => exact readsBack_of_tagged (Json.readsBack_bool b) rfl (congrArg (Option.map Value.bool))
  | int32 n => exact readsBack_of_tagged (Json.readsBack_int32 n) rfl (congrArg (Option.map Value.int32))
  | int64 n => exact readsBack_of_tagged (Json.readsBack_int64 n) rfl (congrArg (Option.map Value.int64))
  | string s => exact readsBack_of_tagged (Json.readsBack_string s) rfl (congrArg (Option.map Value.string))
  | bytes data => exact readsBack_of_tagged (Json.readsBack_bytes data) rfl (congrArg (Option.map Value.bytes))
  | timestamp micros => exact readsBack_of_tagged (Json.readsBack_int64 micros) rfl (congrArg (Option.map Value.timestamp))
  | uuid u => exact readsBack_of_tagged (Json.readsBack_uuid u) rfl (congrArg (Option.map Value.uuid))
  | float32 | float64 => cases h

end Value

/-! ## Type mappings -/

theorem Converter.readsBack (c : Converter) : ReadsBack Converter.encode Converter.decode? c := by
  refine ⟨by cases c <;> exact nofun, fun {j} hj => ?_⟩
  cases c with
  | boolToString falseText trueText =>
    obtain ⟨payload, rfl, hform⟩ := hj.of_variant nofun
    obtain ⟨f, hf, hhold⟩ := Json.members?_of_form ["false_value", "true_value"] hform rfl (by decide)
    have hfield (name : String) : payload.field? name = f.value? name := by rw [Json.field?, hf]; rfl
    rw [Json.variant, decode?, hfield, hfield]
    exact hhold.bind_value? "false_value" (Json.readsBack_string falseText) rfl <|
      hhold.bind_value? "true_value" (Json.readsBack_string trueText) rfl rfl
  | boolToZeroOne | numberToString | uuidToString =>
    rw [hj.eq_string]
    rfl

theorem TypeMapping.readsBack (m : TypeMapping) : ReadsBack TypeMapping.encode TypeMapping.decode? m :=
  .of_fields ["store_type", "domain_type", "converter"] rfl rfl (by decide) fun hf hhold =>
    bind_of_some hf <| hhold.bind_value? "store_type" (Json.readsBack_string m.storeType) rfl <|
      hhold.bind_value? "domain_type" (DomainType.readsBack m.domainType) rfl <|
      bind_of_some (hhold.option? "converter" (fun c _ => c.readsBack) rfl) rfl

/-! ## References -/

/-- A reference is read from its five fields, wherever its name stands. -/
theorem Json.reference?_of_hold {label : String} {members : List (String × Json)} {c : ColumnRef} {j : Json}
    {f : Fields j} (hf : j.fields? ["table", "table_alias", label, "type_mapping", "nullable"] = some f)
    (h : f.Hold members) (htable : members.lookup "table" = some (ofNat c.table))
    (hqualifier : members.lookup "table_alias" = some (ofString? c.qualifier))
    (hname : members.lookup label = some (.string c.name))
    (hmapping : members.lookup "type_mapping" = some (ofOption TypeMapping.encode c.mapping))
    (hnullable : members.lookup "nullable" = some (.bool c.nullable)) : j.reference? label = some c :=
  bind_of_some hf <| h.bind_value? "table" (readsBack_nat c.table) htable <|
    bind_of_some (h.option? "table_alias" (fun s _ => readsBack_string s) hqualifier) <|
    h.bind_value? label (readsBack_string c.name) hname <|
    bind_of_some (h.option? "type_mapping" (fun m _ => m.readsBack) hmapping) <|
    h.bind_value? "nullable" (readsBack_bool c.nullable) hnullable rfl

theorem ColumnRef.readsBack (c : ColumnRef) : ReadsBack ColumnRef.encode ColumnRef.decode? c :=
  .of_fields ["table", "table_alias", "name", "type_mapping", "nullable"] rfl rfl (by decide) fun hf hhold =>
    Json.reference?_of_hold hf hhold rfl rfl rfl rfl rfl

theorem KeyRef.readsBack (k : KeyRef) : ReadsBack KeyRef.encode KeyRef.decode? k := by
  refine .of_fields ["table", "table_alias", "key", "type_mapping", "nullable"] rfl rfl (by decide) fun hf hhold => ?_
  have hread := Json.reference?_of_hold (c := ⟨k.table, k.qualifier, k.key, k.mapping, k.nullable⟩) hf hhold
    rfl rfl rfl rfl rfl
  rw [decode?, hread]
  rfl

/-! ## Trees without floating-point constants -/

mutual

/-- No constant of the expression is a floating-point number. -/
def Expr.FloatFree : Expr → Prop
  | .column _ => True
  | .keyAccess _ => True
  | .constant value _ => value.isFloat = false
  | .parameter _ _ => True
  | .binary _ left right => left.FloatFree ∧ right.FloatFree
  | .unary _ operand => operand.FloatFree
  | .conditional test ifTrue ifFalse => test.FloatFree ∧ ifTrue.FloatFree ∧ ifFalse.FloatFree
  | .call _ _ receiver arguments _ => Expr.FloatFreeOption receiver ∧ Expr.FloatFreeList arguments
  | .inValues item values _ => item.FloatFree ∧ Expr.FloatFreeList values
  | .inSubquery item subquery _ => item.FloatFree ∧ subquery.FloatFree
  | .exists subquery _ => subquery.FloatFree
  | .like subject pattern escape => subject.FloatFree ∧ pattern.FloatFree ∧ Expr.FloatFreeOption escape
  | .scalarSubquery subquery => subquery.FloatFree
  | .rowNumber partitions orderings => Expr.FloatFreeList partitions ∧ SortTerm.FloatFreeList orderings

def Expr.FloatFreeOption : Option Expr → Prop
  | none => True
  | some e => e.FloatFree

def Expr.FloatFreeList : List Expr → Prop
  | [] => True
  | e :: rest => e.FloatFree ∧ Expr.FloatFreeList rest

def SortTerm.FloatFree : SortTerm → Prop
  | ⟨expr, _⟩ => expr.FloatFree

def SortTerm.FloatFreeList : List SortTerm → Prop
  | [] => True
  | t :: rest => t.FloatFree ∧ SortTerm.FloatFreeList rest

def Projection.FloatFree : Projection → Prop
  | ⟨_, expr⟩ => expr.FloatFree

def Projection.FloatFreeList : List Projection → Prop
  | [] => True
  | p :: rest => p.FloatFree ∧ Projection.FloatFreeList rest

def Select.FloatFree : Select → Prop
  | ⟨projections, sources, predicate, groupBy, having, orderings, limit, offset, _⟩ =>
    Projection.FloatFreeList projections ∧ Source.FloatFreeList sources ∧ Expr.FloatFreeOption predicate ∧
      Expr.FloatFreeList groupBy ∧ Expr.FloatFreeOption having ∧ SortTerm.FloatFreeList orderings ∧
      Expr.FloatFreeOption limit ∧ Expr.FloatFreeOption offset

def Source.FloatFree : Source → Prop
  | .table .. => True
  | .derived _ _ select => select.FloatFree
  | .setOperation _ _ _ _ left right => left.FloatFree ∧ right.FloatFree
  | .joined _ source => source.FloatFree
  | .joinedOn _ source predicate => source.FloatFree ∧ predicate.FloatFree

def Source.FloatFreeList : List Source → Prop
  | [] => True
  | s :: rest => s.FloatFree ∧ Source.FloatFreeList rest

end

/-! ## Nodes -/

theorem Expr.encodeList_eq (es : List Expr) : Expr.encodeList es = es.map Expr.encode := by
  induction es with
  | nil => rfl
  | cons e rest ih => exact congrArg (e.encode :: ·) ih

theorem Expr.encodeOption_eq (o : Option Expr) : Expr.encodeOption o = .ofOption Expr.encode o := by
  cases o <;> rfl

theorem SortTerm.encodeList_eq (ts : List SortTerm) : SortTerm.encodeList ts = ts.map SortTerm.encode := by
  induction ts with
  | nil => rfl
  | cons t rest ih => exact congrArg (t.encode :: ·) ih

theorem Projection.encodeList_eq (ps : List Projection) : Projection.encodeList ps = ps.map Projection.encode := by
  induction ps with
  | nil => rfl
  | cons p rest ih => exact congrArg (p.encode :: ·) ih

theorem Source.encodeList_eq (ss : List Source) : Source.encodeList ss = ss.map Source.encode := by
  induction ss with
  | nil => rfl
  | cons s rest ih => exact congrArg (s.encode :: ·) ih

/-! What a node says of those inside it: each is read back from all forms of its own code. -/

abbrev Expr.IsReadBack (e : Expr) : Prop := ReadsBack Expr.encode Expr.decode? e

abbrev SortTerm.IsReadBack (t : SortTerm) : Prop := ReadsBack SortTerm.encode SortTerm.decode? t

abbrev Projection.IsReadBack (p : Projection) : Prop := ReadsBack Projection.encode Projection.decode? p

abbrev Select.IsReadBack (s : Select) : Prop := ReadsBack Select.encode Select.decode? s

abbrev Source.IsReadBack (s : Source) : Prop := ReadsBack Source.encode Source.decode? s

namespace Expr

theorem readsBack_column (c : ColumnRef) : (column c).IsReadBack := by
  refine .of_payload c.readsBack rfl fun htag hc => ?_
  rw [decode?]
  exact bind_of_some htag <| bind_of_some hc rfl

theorem readsBack_keyAccess (k : KeyRef) : (keyAccess k).IsReadBack := by
  refine .of_payload k.readsBack rfl fun htag hk => ?_
  rw [decode?]
  exact bind_of_some htag <| bind_of_some hk rfl

theorem readsBack_constant {value : Value} (h : value.isFloat = false) (mapping : Option TypeMapping) :
    (constant value mapping).IsReadBack := by
  refine .of_variant ["value", "type_mapping"] rfl rfl (by decide) fun htag hf hhold => ?_
  have hmapping := hhold.option? "type_mapping" (fun m _ => m.readsBack) rfl
  rw [decode?]
  exact bind_of_some htag <| bind_of_some hf <| hhold.bind_value? "value" (Value.readsBack h) rfl <|
    bind_of_some hmapping rfl

theorem readsBack_parameter (name : String) (mapping : Option TypeMapping) : (parameter name mapping).IsReadBack := by
  refine .of_variant ["name", "type_mapping"] rfl rfl (by decide) fun htag hf hhold => ?_
  have hmapping := hhold.option? "type_mapping" (fun m _ => m.readsBack) rfl
  rw [decode?]
  exact bind_of_some htag <| bind_of_some hf <| hhold.bind_value? "name" (Json.readsBack_string name) rfl <|
    bind_of_some hmapping rfl

theorem readsBack_binary (op : BinaryOp) {left right : Expr} (hleft : left.IsReadBack) (hright : right.IsReadBack) :
    (binary op left right).IsReadBack := by
  refine .of_variant ["op", "left", "right"] rfl rfl (by decide) fun htag hf hhold => ?_
  obtain ⟨p₁, hp₁, hleft⟩ := hhold.get? "left" hleft rfl
  obtain ⟨p₂, hp₂, hright⟩ := hhold.get? "right" hright rfl
  rw [decode?]
  exact bind_of_some htag <| bind_of_some hf <| hhold.bind_value? "op" op.readsBack rfl <| bind_of_some hp₁ <|
    bind_of_some hp₂ <| bind_of_some hleft <| bind_of_some hright rfl

theorem readsBack_unary (op : UnaryOp) {operand : Expr} (hoperand : operand.IsReadBack) :
    (unary op operand).IsReadBack := by
  refine .of_variant ["op", "operand"] rfl rfl (by decide) fun htag hf hhold => ?_
  obtain ⟨p, hp, hoperand⟩ := hhold.get? "operand" hoperand rfl
  rw [decode?]
  exact bind_of_some htag <| bind_of_some hf <| hhold.bind_value? "op" op.readsBack rfl <| bind_of_some hp <|
    bind_of_some hoperand rfl

theorem readsBack_conditional {test ifTrue ifFalse : Expr} (htest : test.IsReadBack) (htrue : ifTrue.IsReadBack)
    (hfalse : ifFalse.IsReadBack) : (conditional test ifTrue ifFalse).IsReadBack := by
  refine .of_variant ["test", "if_true", "if_false"] rfl rfl (by decide) fun htag hf hhold => ?_
  obtain ⟨p₁, hp₁, htest⟩ := hhold.get? "test" htest rfl
  obtain ⟨p₂, hp₂, htrue⟩ := hhold.get? "if_true" htrue rfl
  obtain ⟨p₃, hp₃, hfalse⟩ := hhold.get? "if_false" hfalse rfl
  rw [decode?]
  exact bind_of_some htag <| bind_of_some hf <| bind_of_some hp₁ <| bind_of_some hp₂ <| bind_of_some hp₃ <|
    bind_of_some htest <| bind_of_some htrue <| bind_of_some hfalse rfl

theorem readsBack_call (name : String) (niladic : Bool) {receiver : Option Expr} {arguments : List Expr}
    (mapping : Option TypeMapping) (hreceiver : ∀ e ∈ receiver, e.IsReadBack)
    (harguments : ∀ e ∈ arguments, e.IsReadBack) : (call name niladic receiver arguments mapping).IsReadBack := by
  refine .of_variant ["name", "niladic", "instance", "arguments", "type_mapping"] rfl rfl (by decide) fun htag hf hhold => ?_
  have hreceiver := hhold.optional? "instance" hreceiver (encodeOption_eq receiver) rfl
  have hmapping := hhold.option? "type_mapping" (fun m _ => m.readsBack) rfl
  rw [decode?]
  exact bind_of_some htag <| bind_of_some hf <| hhold.bind_value? "name" (Json.readsBack_string name) rfl <|
    hhold.bind_value? "niladic" (Json.readsBack_bool niladic) rfl <| bind_of_some hreceiver <|
    hhold.bind_items? "arguments" harguments (encodeList_eq arguments) rfl <| bind_of_some hmapping rfl

theorem readsBack_inValues {item : Expr} {values : List Expr} (negated : Bool) (hitem : item.IsReadBack)
    (hvalues : ∀ e ∈ values, e.IsReadBack) : (inValues item values negated).IsReadBack := by
  refine .of_variant ["item", "source", "negated"] rfl rfl (by decide) fun htag hf hhold => ?_
  obtain ⟨p₁, hp₁, hitem⟩ := hhold.get? "item" hitem rfl
  obtain ⟨p₂, hp₂, hsource⟩ := @hhold.value "source" _ rfl nofun
  rw [encodeList_eq] at hsource
  obtain ⟨p₃, hkind, hp₃⟩ := Json.Part.tagged?_of_form hsource nofun
  obtain ⟨parts, hparts, hforms⟩ := Json.parts?_of_form hp₃
  rw [decode?]
  exact bind_of_some htag <| bind_of_some hf <| bind_of_some hp₁ <| bind_of_some hitem <| bind_of_some hp₂ <|
    bind_of_some hkind <| hhold.bind_value? "negated" (Json.readsBack_bool negated) rfl <| bind_of_some hparts <|
    bind_of_some (Json.mapM_of_form hforms hvalues) rfl

theorem readsBack_inSubquery {item : Expr} {subquery : Select} (negated : Bool) (hitem : item.IsReadBack)
    (hsubquery : subquery.IsReadBack) : (inSubquery item subquery negated).IsReadBack := by
  refine .of_variant ["item", "source", "negated"] rfl rfl (by decide) fun htag hf hhold => ?_
  obtain ⟨p₁, hp₁, hitem⟩ := hhold.get? "item" hitem rfl
  obtain ⟨p₂, hp₂, hsource⟩ := @hhold.value "source" _ rfl nofun
  obtain ⟨p₃, hkind, hp₃⟩ := Json.Part.tagged?_of_form hsource hsubquery.ne_null
  rw [decode?]
  exact bind_of_some htag <| bind_of_some hf <| bind_of_some hp₁ <| bind_of_some hitem <| bind_of_some hp₂ <|
    bind_of_some hkind <| hhold.bind_value? "negated" (Json.readsBack_bool negated) rfl <|
    bind_of_some (hsubquery.decode_form hp₃) rfl

theorem readsBack_exists {subquery : Select} (negated : Bool) (hsubquery : subquery.IsReadBack) :
    (Expr.exists subquery negated).IsReadBack := by
  refine .of_variant ["subquery", "negated"] rfl rfl (by decide) fun htag hf hhold => ?_
  obtain ⟨p, hp, hsubquery⟩ := hhold.get? "subquery" hsubquery rfl
  rw [decode?]
  exact bind_of_some htag <| bind_of_some hf <| bind_of_some hp <|
    hhold.bind_value? "negated" (Json.readsBack_bool negated) rfl <| bind_of_some hsubquery rfl

theorem readsBack_like {subject pattern : Expr} {escape : Option Expr} (hsubject : subject.IsReadBack)
    (hpattern : pattern.IsReadBack) (hescape : ∀ e ∈ escape, e.IsReadBack) :
    (like subject pattern escape).IsReadBack := by
  refine .of_variant ["match_expr", "pattern", "escape"] rfl rfl (by decide) fun htag hf hhold => ?_
  obtain ⟨p₁, hp₁, hsubject⟩ := hhold.get? "match_expr" hsubject rfl
  obtain ⟨p₂, hp₂, hpattern⟩ := hhold.get? "pattern" hpattern rfl
  have hescape := hhold.optional? "escape" hescape (encodeOption_eq escape) rfl
  rw [decode?]
  exact bind_of_some htag <| bind_of_some hf <| bind_of_some hp₁ <| bind_of_some hp₂ <| bind_of_some hescape <|
    bind_of_some hsubject <| bind_of_some hpattern rfl

theorem readsBack_scalarSubquery {subquery : Select} (hsubquery : subquery.IsReadBack) :
    (scalarSubquery subquery).IsReadBack := by
  refine .of_variant ["subquery"] rfl rfl (by decide) fun htag hf hhold => ?_
  obtain ⟨p, hp, hsubquery⟩ := hhold.get? "subquery" hsubquery rfl
  rw [decode?]
  exact bind_of_some htag <| bind_of_some hf <| bind_of_some hp <| bind_of_some hsubquery rfl

theorem readsBack_rowNumber {partitions : List Expr} {orderings : List SortTerm}
    (hpartitions : ∀ e ∈ partitions, e.IsReadBack) (horderings : ∀ t ∈ orderings, t.IsReadBack) :
    (rowNumber partitions orderings).IsReadBack := by
  refine .of_variant ["partitions", "orderings"] rfl rfl (by decide) fun htag hf hhold => ?_
  rw [decode?]
  exact bind_of_some htag <| bind_of_some hf <|
    hhold.bind_items? "partitions" hpartitions (encodeList_eq partitions) rfl <|
    hhold.bind_items? "orderings" horderings (SortTerm.encodeList_eq orderings) rfl rfl

end Expr

theorem SortTerm.readsBack_mk {expr : Expr} (ascending : Bool) (hexpr : expr.IsReadBack) :
    (SortTerm.mk expr ascending).IsReadBack := by
  refine .of_fields ["expr", "ascending"] rfl rfl (by decide) fun hf hhold => ?_
  obtain ⟨p, hp, hexpr⟩ := hhold.get? "expr" hexpr rfl
  rw [decode?]
  exact bind_of_some hf <| bind_of_some hp <| hhold.bind_value? "ascending" (Json.readsBack_bool ascending) rfl <|
    bind_of_some hexpr rfl

theorem Projection.readsBack_mk (aliasName : String) {expr : Expr} (hexpr : expr.IsReadBack) :
    (Projection.mk aliasName expr).IsReadBack := by
  refine .of_fields ["alias", "expr"] rfl rfl (by decide) fun hf hhold => ?_
  obtain ⟨p, hp, hexpr⟩ := hhold.get? "expr" hexpr rfl
  rw [decode?]
  exact bind_of_some hf <| hhold.bind_value? "alias" (Json.readsBack_string aliasName) rfl <| bind_of_some hp <|
    bind_of_some hexpr rfl

theorem Select.readsBack_mk {projections : List Projection} {sources : List Source}
    {predicate having limit offset : Option Expr} {groupBy : List Expr} {orderings : List SortTerm} (distinct : Bool)
    (hprojections : ∀ p ∈ projections, p.IsReadBack) (hsources : ∀ s ∈ sources, s.IsReadBack)
    (hpredicate : ∀ e ∈ predicate, e.IsReadBack) (hgroupBy : ∀ e ∈ groupBy, e.IsReadBack)
    (hhaving : ∀ e ∈ having, e.IsReadBack) (horderings : ∀ t ∈ orderings, t.IsReadBack)
    (hlimit : ∀ e ∈ limit, e.IsReadBack) (hoffset : ∀ e ∈ offset, e.IsReadBack) :
    (Select.mk projections sources predicate groupBy having orderings limit offset distinct).IsReadBack := by
  refine .of_fields ["projections", "tables", "predicate", "group_by", "having", "orderings", "limit", "offset",
    "distinct"] rfl rfl (by decide) fun hf hhold => ?_
  have hpredicate := hhold.optional? "predicate" hpredicate (Expr.encodeOption_eq predicate) rfl
  have hhaving := hhold.optional? "having" hhaving (Expr.encodeOption_eq having) rfl
  have hlimit := hhold.optional? "limit" hlimit (Expr.encodeOption_eq limit) rfl
  have hoffset := hhold.optional? "offset" hoffset (Expr.encodeOption_eq offset) rfl
  rw [decode?]
  exact bind_of_some hf <|
    hhold.bind_items? "projections" hprojections (Projection.encodeList_eq projections) rfl <|
    hhold.bind_items? "tables" hsources (Source.encodeList_eq sources) rfl <|
    hhold.bind_items? "group_by" hgroupBy (Expr.encodeList_eq groupBy) rfl <|
    hhold.bind_items? "orderings" horderings (SortTerm.encodeList_eq orderings) rfl <|
    bind_of_some hpredicate <| bind_of_some hhaving <| bind_of_some hlimit <| bind_of_some hoffset <|
    hhold.bind_value? "distinct" (Json.readsBack_bool distinct) rfl rfl

namespace Source

theorem readsBack_table (id : TableId) (aliasName : Option String) (name : String) (schema : Option String) :
    (table id aliasName name schema).IsReadBack := by
  refine .of_variant ["id", "alias", "name", "schema"] rfl rfl (by decide) fun htag hf hhold => ?_
  have halias := hhold.option? "alias" (fun s _ => Json.readsBack_string s) rfl
  have hschema := hhold.option? "schema" (fun s _ => Json.readsBack_string s) rfl
  rw [decode?]
  exact bind_of_some htag <| bind_of_some hf <| hhold.bind_value? "id" (Json.readsBack_nat id) rfl <|
    bind_of_some halias <| hhold.bind_value? "name" (Json.readsBack_string name) rfl <| bind_of_some hschema rfl

theorem readsBack_derived (id : TableId) (aliasName : Option String) {select : Select} (hselect : select.IsReadBack) :
    (derived id aliasName select).IsReadBack := by
  refine .of_variant ["id", "alias", "select"] rfl rfl (by decide) fun htag hf hhold => ?_
  have halias := hhold.option? "alias" (fun s _ => Json.readsBack_string s) rfl
  obtain ⟨p, hp, hselect⟩ := hhold.get? "select" hselect rfl
  rw [decode?]
  exact bind_of_some htag <| bind_of_some hf <| hhold.bind_value? "id" (Json.readsBack_nat id) rfl <|
    bind_of_some halias <| bind_of_some hp <| bind_of_some hselect rfl

theorem readsBack_setOperation (id : TableId) (aliasName : Option String) (op : SetOperator) (distinct : Bool)
    {left right : Select} (hleft : left.IsReadBack) (hright : right.IsReadBack) :
    (setOperation id aliasName op distinct left right).IsReadBack := by
  refine .of_variant ["id", "alias", "kind", "distinct", "left", "right"] rfl rfl (by decide) fun htag hf hhold => ?_
  have halias := hhold.option? "alias" (fun s _ => Json.readsBack_string s) rfl
  obtain ⟨p₁, hp₁, hleft⟩ := hhold.get? "left" hleft rfl
  obtain ⟨p₂, hp₂, hright⟩ := hhold.get? "right" hright rfl
  rw [decode?]
  exact bind_of_some htag <| bind_of_some hf <| hhold.bind_value? "id" (Json.readsBack_nat id) rfl <|
    bind_of_some halias <| hhold.bind_value? "kind" op.readsBack rfl <|
    hhold.bind_value? "distinct" (Json.readsBack_bool distinct) rfl <| bind_of_some hp₁ <| bind_of_some hp₂ <|
    bind_of_some hleft <| bind_of_some hright rfl

/-- A join is read through the tag of joins, and then as its kind says. -/
theorem readsBack_of_kind {s : Source} {kind : String} {members : List (String × Json)} (names : List String)
    (hcode : s.encode = .variant "Join" (.variant kind (.object members)))
    (hnames : members.map Prod.fst = names) (hdistinct : names.Nodup)
    (hread : ∀ {j} {p : Json.Part j} {f : Json.Fields j}, j.tagged? = some (kind, p) → p.members? = some f →
      f.Hold members → decodeJoin? j = some s) : s.IsReadBack := by
  refine ⟨hcode ▸ nofun, fun {j} hj => ?_⟩
  rw [hcode] at hj
  obtain ⟨p, htag, hp⟩ := Json.tagged?_of_form hj nofun
  obtain ⟨p₁, hkind, hp₁⟩ := Json.tagged?_of_form hp nofun
  obtain ⟨f, hf, hhold⟩ := Json.Part.members?_of_form names hp₁ hnames hdistinct
  rw [decode?]
  exact bind_of_some htag (hread hkind hf hhold)

theorem readsBack_joined (kind : JoinKind) {source : Source} (hsource : source.IsReadBack) :
    (joined kind source).IsReadBack := by
  refine readsBack_of_kind ["table"] rfl rfl (by decide) fun hkind hf hhold => ?_
  obtain ⟨p, hp, hsource⟩ := hhold.get? "table" hsource rfl
  rw [decodeJoin?]
  cases kind <;> exact bind_of_some hkind <| bind_of_some hf <| bind_of_some hp <| bind_of_some hsource rfl

theorem readsBack_joinedOn (kind : ConditionalJoinKind) {source : Source} {predicate : Expr}
    (hsource : source.IsReadBack) (hpredicate : predicate.IsReadBack) :
    (joinedOn kind source predicate).IsReadBack := by
  refine readsBack_of_kind ["table", "predicate"] rfl rfl (by decide) fun hkind hf hhold => ?_
  obtain ⟨p₁, hp₁, hsource⟩ := hhold.get? "table" hsource rfl
  obtain ⟨p₂, hp₂, hpredicate⟩ := hhold.get? "predicate" hpredicate rfl
  rw [decodeJoin?]
  cases kind <;>
    exact bind_of_some hkind <| bind_of_some hf <| bind_of_some hp₁ <| bind_of_some hsource <| bind_of_some hp₂ <|
      bind_of_some hpredicate rfl

end Source

/-! ## Trees -/

mutual

/-- The induction follows the tree; the lemma of each node says what it needs of the nodes inside. -/
theorem Expr.readsBack : ∀ {e : Expr}, e.FloatFree → e.IsReadBack
  | .column c, _ => Expr.readsBack_column c
  | .keyAccess k, _ => Expr.readsBack_keyAccess k
  | .constant _ mapping, h => Expr.readsBack_constant h mapping
  | .parameter name mapping, _ => Expr.readsBack_parameter name mapping
  | .binary op _ _, h => Expr.readsBack_binary op (Expr.readsBack h.1) (Expr.readsBack h.2)
  | .unary op _, h => Expr.readsBack_unary op (Expr.readsBack h)
  | .conditional _ _ _, h =>
    Expr.readsBack_conditional (Expr.readsBack h.1) (Expr.readsBack h.2.1) (Expr.readsBack h.2.2)
  | .call name niladic _ _ mapping, h =>
    Expr.readsBack_call name niladic mapping (Expr.readsBack_option h.1) (Expr.readsBack_list h.2)
  | .inValues _ _ negated, h => Expr.readsBack_inValues negated (Expr.readsBack h.1) (Expr.readsBack_list h.2)
  | .inSubquery _ _ negated, h => Expr.readsBack_inSubquery negated (Expr.readsBack h.1) (Select.readsBack h.2)
  | .exists _ negated, h => Expr.readsBack_exists negated (Select.readsBack h)
  | .like _ _ _, h =>
    Expr.readsBack_like (Expr.readsBack h.1) (Expr.readsBack h.2.1) (Expr.readsBack_option h.2.2)
  | .scalarSubquery _, h => Expr.readsBack_scalarSubquery (Select.readsBack h)
  | .rowNumber _ _, h => Expr.readsBack_rowNumber (Expr.readsBack_list h.1) (SortTerm.readsBack_list h.2)

theorem Expr.readsBack_option : ∀ {o : Option Expr}, Expr.FloatFreeOption o →
    ∀ e ∈ o, e.IsReadBack
  | none, _ => nofun
  | some _, h => fun _ he => Option.some.inj he ▸ Expr.readsBack h

theorem Expr.readsBack_list : ∀ {es : List Expr}, Expr.FloatFreeList es →
    ∀ e ∈ es, e.IsReadBack
  | [], _ => nofun
  | _ :: _, h => List.forall_mem_cons.2 ⟨Expr.readsBack h.1, Expr.readsBack_list h.2⟩

theorem SortTerm.readsBack : ∀ {t : SortTerm}, t.FloatFree → t.IsReadBack
  | ⟨_, ascending⟩, h => SortTerm.readsBack_mk ascending (Expr.readsBack h)

theorem SortTerm.readsBack_list : ∀ {ts : List SortTerm}, SortTerm.FloatFreeList ts →
    ∀ t ∈ ts, t.IsReadBack
  | [], _ => nofun
  | _ :: _, h => List.forall_mem_cons.2 ⟨SortTerm.readsBack h.1, SortTerm.readsBack_list h.2⟩

theorem Projection.readsBack : ∀ {p : Projection}, p.FloatFree → p.IsReadBack
  | ⟨aliasName, _⟩, h => Projection.readsBack_mk aliasName (Expr.readsBack h)

theorem Projection.readsBack_list : ∀ {ps : List Projection}, Projection.FloatFreeList ps →
    ∀ p ∈ ps, p.IsReadBack
  | [], _ => nofun
  | _ :: _, h => List.forall_mem_cons.2 ⟨Projection.readsBack h.1, Projection.readsBack_list h.2⟩

theorem Select.readsBack : ∀ {s : Select}, s.FloatFree → s.IsReadBack
  | ⟨_, _, _, _, _, _, _, _, distinct⟩, ⟨hprojections, hsources, hpredicate, hgroupBy, hhaving, horderings, hlimit, hoffset⟩ =>
    Select.readsBack_mk distinct (Projection.readsBack_list hprojections) (Source.readsBack_list hsources)
      (Expr.readsBack_option hpredicate) (Expr.readsBack_list hgroupBy) (Expr.readsBack_option hhaving)
      (SortTerm.readsBack_list horderings) (Expr.readsBack_option hlimit) (Expr.readsBack_option hoffset)

theorem Source.readsBack : ∀ {s : Source}, s.FloatFree → s.IsReadBack
  | .table id aliasName name schema, _ => Source.readsBack_table id aliasName name schema
  | .derived id aliasName _, h => Source.readsBack_derived id aliasName (Select.readsBack h)
  | .setOperation id aliasName op distinct _ _, h =>
    Source.readsBack_setOperation id aliasName op distinct (Select.readsBack h.1) (Select.readsBack h.2)
  | .joined kind _, h => Source.readsBack_joined kind (Source.readsBack h)
  | .joinedOn kind _ _, h => Source.readsBack_joinedOn kind (Source.readsBack h.1) (Expr.readsBack h.2)

theorem Source.readsBack_list : ∀ {ss : List Source}, Source.FloatFreeList ss →
    ∀ s ∈ ss, s.IsReadBack
  | [], _ => nofun
  | _ :: _, h => List.forall_mem_cons.2 ⟨Source.readsBack h.1, Source.readsBack_list h.2⟩

end

end QueryShaping
