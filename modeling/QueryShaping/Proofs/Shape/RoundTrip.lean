import QueryShaping.Proofs.Query.RoundTrip
import QueryShaping.Shape.Json

/-!
# Shaped queries are read back

A shape has queries inside it: those of collections with a query of their own, and the element queries of collections
that are still to be joined. With those being read back, the shape is, and so is the query that it stands beside.
-/

namespace QueryShaping

open List

open Json (ReadsBack bind_of_some)

/-! ## Leaves -/

theorem Json.readsBack_indices (indices : List Nat) : ReadsBack ofIndices indices? indices :=
  readsBack_list fun n _ => readsBack_nat n

theorem PropertyShape.readsBack (p : PropertyShape) : ReadsBack PropertyShape.encode PropertyShape.decode? p :=
  .of_fields ["name", "index", "nullable"] rfl rfl (by decide) fun hf hhold =>
    bind_of_some hf <| hhold.bind_value? "name" (Json.readsBack_string p.name) rfl <|
      hhold.bind_value? "index" (Json.readsBack_nat p.index) rfl <|
      hhold.bind_value? "nullable" (Json.readsBack_bool p.nullable) rfl rfl

theorem SplitQuery.readsBack {s : SplitQuery} (h : s.query.FloatFree) :
    ReadsBack SplitQuery.encode SplitQuery.decode? s :=
  .of_fields ["query", "parent_identifier"] rfl rfl (by decide) fun hf hhold =>
    bind_of_some hf <| hhold.bind_value? "query" (Select.readsBack h) rfl <|
      hhold.bind_value? "parent_identifier" (Json.readsBack_indices s.parentIdentifier) rfl rfl

/-! ## Shapes without floating-point constants -/

mutual

/-- No query inside the shape has a constant that is a floating-point number. -/
def Shape.FloatFree : Shape → Prop
  | .scalar _ _ => True
  | .entity e => e.FloatFree
  | .collection c => c.FloatFree
  | .pending p => p.FloatFree
  | .record members => Member.FloatFreeList members

def EntityShape.FloatFree : EntityShape → Prop
  | ⟨_, _, _, navigations, _⟩ => Navigation.FloatFreeList navigations

def CollectionShape.FloatFree : CollectionShape → Prop
  | ⟨_, _, _, _, _, element, split⟩ => element.FloatFree ∧ ∀ s ∈ split, s.query.FloatFree

def PendingCollection.FloatFree : PendingCollection → Prop
  | ⟨_, _, _, _, inner, innerKey, _⟩ => inner.FloatFree ∧ Expr.FloatFreeList innerKey

def ShapedQuery.FloatFree : ShapedQuery → Prop
  | ⟨query, shape⟩ => query.FloatFree ∧ shape.FloatFree

def Navigation.FloatFree : Navigation → Prop
  | ⟨_, target⟩ => target.FloatFree

def Navigation.FloatFreeList : List Navigation → Prop
  | [] => True
  | n :: rest => n.FloatFree ∧ Navigation.FloatFreeList rest

def Member.FloatFree : Member → Prop
  | ⟨_, shape⟩ => shape.FloatFree

def Member.FloatFreeList : List Member → Prop
  | [] => True
  | m :: rest => m.FloatFree ∧ Member.FloatFreeList rest

end

/-! ## Nodes -/

theorem Navigation.encodeList_eq (ns : List Navigation) : Navigation.encodeList ns = ns.map Navigation.encode := by
  induction ns with
  | nil => rfl
  | cons n rest ih => exact congrArg (n.encode :: ·) ih

theorem Member.encodeList_eq (ms : List Member) : Member.encodeList ms = ms.map Member.encode := by
  induction ms with
  | nil => rfl
  | cons m rest ih => exact congrArg (m.encode :: ·) ih

abbrev Shape.IsReadBack (s : Shape) : Prop := ReadsBack Shape.encode Shape.decode? s

abbrev EntityShape.IsReadBack (e : EntityShape) : Prop := ReadsBack EntityShape.encode EntityShape.decode? e

abbrev CollectionShape.IsReadBack (c : CollectionShape) : Prop :=
  ReadsBack CollectionShape.encode CollectionShape.decode? c

abbrev PendingCollection.IsReadBack (p : PendingCollection) : Prop :=
  ReadsBack PendingCollection.encode PendingCollection.decode? p

abbrev ShapedQuery.IsReadBack (q : ShapedQuery) : Prop := ReadsBack ShapedQuery.encode ShapedQuery.decode? q

abbrev Navigation.IsReadBack (n : Navigation) : Prop := ReadsBack Navigation.encode Navigation.decode? n

abbrev Member.IsReadBack (m : Member) : Prop := ReadsBack Member.encode Member.decode? m

namespace Shape

theorem readsBack_scalar (index : Nat) (nullable : Bool) : (scalar index nullable).IsReadBack := by
  refine .of_variant ["index", "nullable"] rfl rfl (by decide) fun htag hf hhold => ?_
  rw [decode?]
  exact bind_of_some htag <| bind_of_some hf <| hhold.bind_value? "index" (Json.readsBack_nat index) rfl <|
    hhold.bind_value? "nullable" (Json.readsBack_bool nullable) rfl rfl

theorem readsBack_entity {e : EntityShape} (he : e.IsReadBack) : (entity e).IsReadBack := by
  refine .of_payload he rfl fun htag he => ?_
  rw [decode?]
  exact bind_of_some htag <| bind_of_some he rfl

theorem readsBack_collection {c : CollectionShape} (hc : c.IsReadBack) : (collection c).IsReadBack := by
  refine .of_payload hc rfl fun htag hc => ?_
  rw [decode?]
  exact bind_of_some htag <| bind_of_some hc rfl

theorem readsBack_pending {c : PendingCollection} (hc : c.IsReadBack) : (pending c).IsReadBack := by
  refine .of_payload hc rfl fun htag hc => ?_
  rw [decode?]
  exact bind_of_some htag <| bind_of_some hc rfl

theorem readsBack_record {members : List Member} (hmembers : ∀ m ∈ members, m.IsReadBack) :
    (record members).IsReadBack := by
  refine .of_variant ["members"] rfl rfl (by decide) fun htag hf hhold => ?_
  rw [decode?]
  exact bind_of_some htag <| bind_of_some hf <|
    hhold.bind_items? "members" hmembers (Member.encodeList_eq members) rfl rfl

end Shape

theorem EntityShape.readsBack_mk (entityType : String) (key : List Nat) (properties : List PropertyShape)
    {navigations : List Navigation} (nullable : Bool) (hnavigations : ∀ n ∈ navigations, n.IsReadBack) :
    (EntityShape.mk entityType key properties navigations nullable).IsReadBack := by
  refine .of_fields ["entity_type", "key", "properties", "navigations", "nullable"] rfl rfl (by decide) fun hf hhold => ?_
  have hproperties := Json.readsBack_list fun p (_ : p ∈ properties) => p.readsBack
  rw [decode?]
  exact bind_of_some hf <| hhold.bind_value? "entity_type" (Json.readsBack_string entityType) rfl <|
    hhold.bind_value? "key" (Json.readsBack_indices key) rfl <| hhold.bind_value? "properties" hproperties rfl <|
    hhold.bind_items? "navigations" hnavigations (Navigation.encodeList_eq navigations) rfl <|
    hhold.bind_value? "nullable" (Json.readsBack_bool nullable) rfl rfl

theorem CollectionShape.readsBack_mk (id : Nat) (navigation : Option String) (elementType : String)
    (parent child : List Nat) {element : Shape} {split : Option SplitQuery} (helement : element.IsReadBack)
    (hsplit : ∀ s ∈ split, ReadsBack SplitQuery.encode SplitQuery.decode? s) :
    (CollectionShape.mk id navigation elementType parent child element split).IsReadBack := by
  refine .of_fields ["collection_id", "navigation", "element_type", "parent_identifier", "child_identifier", "element",
    "split"] rfl rfl (by decide) fun hf hhold => ?_
  have hnavigation := hhold.option? "navigation" (fun s _ => Json.readsBack_string s) rfl
  obtain ⟨p, hp, helement⟩ := hhold.get? "element" helement rfl
  have hsplit := hhold.option? "split" hsplit rfl
  rw [decode?]
  exact bind_of_some hf <| hhold.bind_value? "collection_id" (Json.readsBack_nat id) rfl <|
    bind_of_some hnavigation <| hhold.bind_value? "element_type" (Json.readsBack_string elementType) rfl <|
    hhold.bind_value? "parent_identifier" (Json.readsBack_indices parent) rfl <|
    hhold.bind_value? "child_identifier" (Json.readsBack_indices child) rfl <| bind_of_some hp <|
    bind_of_some hsplit <| bind_of_some helement rfl

theorem PendingCollection.readsBack_mk (navigation : Option String) (elementType : String) (parent outerKey : List Nat)
    {inner : ShapedQuery} {innerKey : List Expr} (innerIdentifier : List Nat) (hinner : inner.IsReadBack)
    (hinnerKey : ∀ e ∈ innerKey, e.IsReadBack) :
    (PendingCollection.mk navigation elementType parent outerKey inner innerKey innerIdentifier).IsReadBack := by
  refine .of_fields ["navigation", "element_type", "parent_identifier", "outer_key", "inner", "inner_key",
    "inner_identifier"] rfl rfl (by decide) fun hf hhold => ?_
  have hnavigation := hhold.option? "navigation" (fun s _ => Json.readsBack_string s) rfl
  obtain ⟨p, hp, hinner⟩ := hhold.get? "inner" hinner rfl
  rw [decode?]
  exact bind_of_some hf <| bind_of_some hnavigation <|
    hhold.bind_value? "element_type" (Json.readsBack_string elementType) rfl <|
    hhold.bind_value? "parent_identifier" (Json.readsBack_indices parent) rfl <|
    hhold.bind_value? "outer_key" (Json.readsBack_indices outerKey) rfl <| bind_of_some hp <|
    hhold.bind_value? "inner_key" (Json.readsBack_list hinnerKey) rfl <|
    hhold.bind_value? "inner_identifier" (Json.readsBack_indices innerIdentifier) rfl <| bind_of_some hinner rfl

theorem ShapedQuery.readsBack_mk {query : Select} {shape : Shape} (hquery : query.IsReadBack)
    (hshape : shape.IsReadBack) : (ShapedQuery.mk query shape).IsReadBack := by
  refine .of_fields ["query", "shaper"] rfl rfl (by decide) fun hf hhold => ?_
  obtain ⟨p, hp, hshape⟩ := hhold.get? "shaper" hshape rfl
  rw [decode?]
  exact bind_of_some hf <| hhold.bind_value? "query" hquery rfl <| bind_of_some hp <| bind_of_some hshape rfl

theorem Navigation.readsBack_mk (name : String) {target : Shape} (htarget : target.IsReadBack) :
    (Navigation.mk name target).IsReadBack := by
  refine .of_fields ["name", "target"] rfl rfl (by decide) fun hf hhold => ?_
  obtain ⟨p, hp, htarget⟩ := hhold.get? "target" htarget rfl
  rw [decode?]
  exact bind_of_some hf <| hhold.bind_value? "name" (Json.readsBack_string name) rfl <| bind_of_some hp <|
    bind_of_some htarget rfl

theorem Member.readsBack_mk (name : String) {shape : Shape} (hshape : shape.IsReadBack) :
    (Member.mk name shape).IsReadBack := by
  refine .of_fields ["name", "shaper"] rfl rfl (by decide) fun hf hhold => ?_
  obtain ⟨p, hp, hshape⟩ := hhold.get? "shaper" hshape rfl
  rw [decode?]
  exact bind_of_some hf <| hhold.bind_value? "name" (Json.readsBack_string name) rfl <| bind_of_some hp <|
    bind_of_some hshape rfl

/-! ## Trees -/

mutual

theorem Shape.readsBack : ∀ {s : Shape}, s.FloatFree → s.IsReadBack
  | .scalar index nullable, _ => Shape.readsBack_scalar index nullable
  | .entity _, h => Shape.readsBack_entity (EntityShape.readsBack h)
  | .collection _, h => Shape.readsBack_collection (CollectionShape.readsBack h)
  | .pending _, h => Shape.readsBack_pending (PendingCollection.readsBack h)
  | .record _, h => Shape.readsBack_record (Member.readsBack_list h)

theorem EntityShape.readsBack : ∀ {e : EntityShape}, e.FloatFree → e.IsReadBack
  | ⟨entityType, key, properties, _, nullable⟩, h =>
    EntityShape.readsBack_mk entityType key properties nullable (Navigation.readsBack_list h)

theorem CollectionShape.readsBack : ∀ {c : CollectionShape}, c.FloatFree → c.IsReadBack
  | ⟨id, navigation, elementType, parent, child, _, _⟩, h =>
    CollectionShape.readsBack_mk id navigation elementType parent child (Shape.readsBack h.1)
      fun s hs => SplitQuery.readsBack (h.2 s hs)

theorem PendingCollection.readsBack : ∀ {p : PendingCollection}, p.FloatFree → p.IsReadBack
  | ⟨navigation, elementType, parent, outerKey, _, _, innerIdentifier⟩, h =>
    PendingCollection.readsBack_mk navigation elementType parent outerKey innerIdentifier (ShapedQuery.readsBack h.1)
      (Expr.readsBack_list h.2)

theorem ShapedQuery.readsBack : ∀ {q : ShapedQuery}, q.FloatFree → q.IsReadBack
  | ⟨_, _⟩, h => ShapedQuery.readsBack_mk (Select.readsBack h.1) (Shape.readsBack h.2)

theorem Navigation.readsBack : ∀ {n : Navigation}, n.FloatFree → n.IsReadBack
  | ⟨name, _⟩, h => Navigation.readsBack_mk name (Shape.readsBack h)

theorem Navigation.readsBack_list : ∀ {ns : List Navigation}, Navigation.FloatFreeList ns →
    ∀ n ∈ ns, n.IsReadBack
  | [], _ => nofun
  | _ :: _, h => forall_mem_cons.2 ⟨Navigation.readsBack h.1, Navigation.readsBack_list h.2⟩

theorem Member.readsBack : ∀ {m : Member}, m.FloatFree → m.IsReadBack
  | ⟨name, _⟩, h => Member.readsBack_mk name (Shape.readsBack h)

theorem Member.readsBack_list : ∀ {ms : List Member}, Member.FloatFreeList ms →
    ∀ m ∈ ms, m.IsReadBack
  | [], _ => nofun
  | _ :: _, h => forall_mem_cons.2 ⟨Member.readsBack h.1, Member.readsBack_list h.2⟩

end

/-- A tree without floating-point constants is read back from its code, in whatever order the members stand and whether
an optional one that is absent has been written as `null` or left out. -/
theorem decode?_of_form_encode :
    (∀ q : ShapedQuery, q.FloatFree → ∀ j, q.encode.Form j → ShapedQuery.decode? j = some q) ∧
      (∀ s : Select, s.FloatFree → ∀ j, s.encode.Form j → Select.decode? j = some s) ∧
      (∀ e : Expr, e.FloatFree → ∀ j, e.encode.Form j → Expr.decode? j = some e) ∧
      (∀ s : Shape, s.FloatFree → ∀ j, s.encode.Form j → Shape.decode? j = some s) ∧
      (∀ m : TypeMapping, ∀ j, m.encode.Form j → TypeMapping.decode? j = some m) ∧
      ∀ v : Value, v.isFloat = false → ∀ j, v.encode.Form j → Value.decode? j = some v :=
  ⟨fun _ h _ => (ShapedQuery.readsBack h).decode_form, fun _ h _ => (Select.readsBack h).decode_form,
    fun _ h _ => (Expr.readsBack h).decode_form, fun _ h _ => (Shape.readsBack h).decode_form,
    fun m _ => m.readsBack.decode_form, fun _ h _ => (Value.readsBack h).decode_form⟩

/-- Rows of a table for which a subquery finds something, each with a collection that is still to be joined. -/
def existingOwners : ShapedQuery :=
  let flag : TypeMapping := ⟨"char(1)", .bool, some (.boolToString "N" "Y")⟩
  let items : Select := { Select.empty with
    projections := [⟨"Id", .column ⟨2, some "i", "Id", none, false⟩⟩]
    sources := [.table 2 (some "i") "Items" none]
    predicate := some (.binary .equal (.column ⟨2, some "i", "Done", some flag, true⟩) (.constant (.bool true) none)) }
  ⟨{ Select.empty with
      projections := [⟨"Id", .column ⟨1, none, "Id", none, false⟩⟩]
      sources := [.table 1 none "Owners" (some "dbo")]
      predicate := some (.exists items true) },
    .pending ⟨none, "Item", [0], [0], ⟨items, .scalar 0 false⟩, [.column ⟨2, some "i", "Owner", none, true⟩], [0]⟩⟩

/-- A column whose members stand in another order, without those that are absent. -/
def sparseColumn : Json :=
  .variant "Column" (.object [("nullable", .bool false), ("name", .string "Id"), ("table", .int 1)])

theorem decode?_existingOwners :
    existingOwners.FloatFree ∧ ShapedQuery.decode? existingOwners.encode = some existingOwners ∧
      (Expr.column ⟨1, none, "Id", none, false⟩).encode.Form sparseColumn ∧
      Expr.decode? sparseColumn = some (.column ⟨1, none, "Id", none, false⟩) := by
  have hfree : existingOwners.FloatFree := by
    simp [existingOwners, ShapedQuery.FloatFree, Select.FloatFree, Select.empty, Projection.FloatFreeList,
      Projection.FloatFree, Source.FloatFreeList, Source.FloatFree, Expr.FloatFreeOption, Expr.FloatFreeList, Expr.FloatFree,
      SortTerm.FloatFreeList, Shape.FloatFree, PendingCollection.FloatFree, Value.isFloat]
  have hform : (Expr.column ⟨1, none, "Id", none, false⟩).encode.Form sparseColumn := by
    have hfields : (ColumnRef.mk 1 none "Id" none false).encode.Form
        (.object [("nullable", .bool false), ("name", .string "Id"), ("table", .int 1)]) := by
      refine .object (by decide) (by decide) ?_ ?_
      · simp only [mem_cons, Prod.mk.injEq, map_cons, Json.ofString?, Json.ofOption]
        grind
      · intro name v v' hv hv'
        simp only [mem_cons, Prod.mk.injEq, not_mem_nil, or_false] at hv hv'
        rcases hv' with ⟨rfl, rfl⟩ | ⟨rfl, rfl⟩ | ⟨rfl, rfl⟩
        all_goals
          simp at hv
          subst hv
          exact .refl _
    refine .object (by decide) (by decide) ?_ ?_
    · simp
    · intro name v v' hv hv'
      simp only [mem_singleton, Prod.mk.injEq] at hv hv'
      rw [hv.2, hv'.2]
      exact hfields
  exact ⟨hfree, decode?_of_form_encode.1 existingOwners hfree _ (.refl _), hform,
    decode?_of_form_encode.2.2.1 (.column _) trivial _ hform⟩

end QueryShaping
