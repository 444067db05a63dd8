import QueryShaping.Proofs.Query.Occurrences
import QueryShaping.Revision.Alias

/-!
# Maps of trees

A tree with other references and other aliases in it, everything else as it was. What takes the place of a reference
may depend on how the reference is used; what is put in is not looked at again.
-/

namespace QueryShaping

/-- What stands for the references and the aliases of a tree. -/
structure NodeMap where
  column : ColumnRef → Usage → Expr := fun c _ => .column c
  key : KeyRef → Usage → Expr := fun k _ => .keyAccess k
  /-- The alias of a source that is no join. -/
  aliasName : Source → Option String := Source.aliasName

variable (f : NodeMap)

mutual

def Expr.mapNodes : Expr → Usage → Expr
  | .column c, usage => f.column c usage
  | .keyAccess k, usage => f.key k usage
  | .constant value mapping, _ => .constant value mapping
  | .parameter name mapping, _ => .parameter name mapping
  | .binary op left right, usage =>
    .binary op (left.mapNodes (usage.operand op)) (right.mapNodes (usage.operand op))
  | .unary op operand, usage => .unary op (operand.mapNodes (usage.unaryOperand op))
  | .conditional test ifTrue ifFalse, _ =>
    .conditional (test.mapNodes .condition) (ifTrue.mapNodes .value) (ifFalse.mapNodes .value)
  | .call name niladic receiver arguments mapping, _ =>
    .call name niladic (Expr.mapOption receiver .value) (Expr.mapList arguments) mapping
  | .inValues item values negated, _ => .inValues (item.mapNodes .value) (Expr.mapList values) negated
  | .inSubquery item subquery negated, _ => .inSubquery (item.mapNodes .value) subquery.mapNodes negated
  | .exists subquery negated, _ => .exists subquery.mapNodes negated
  | .like subject pattern escape, _ =>
    .like (subject.mapNodes .value) (pattern.mapNodes .value) (Expr.mapOption escape .value)
  | .scalarSubquery subquery, _ => .scalarSubquery subquery.mapNodes
  | .rowNumber partitions orderings, _ => .rowNumber (Expr.mapList partitions) (SortTerm.mapList orderings)

def Expr.mapOption : Option Expr → Usage → Option Expr
  | none, _ => none
  | some e, usage => some (e.mapNodes usage)

def Expr.mapList : List Expr → List Expr
  | [] => []
  | e :: rest => e.mapNodes .value :: Expr.mapList rest

def SortTerm.mapNodes : SortTerm → SortTerm
  | ⟨expr, ascending⟩ => ⟨expr.mapNodes .value, ascending⟩

def SortTerm.mapList : List SortTerm → List SortTerm
  | [] => []
  | t :: rest => t.mapNodes :: SortTerm.mapList rest

def Projection.mapNodes : Projection → Projection
  | ⟨aliasName, expr⟩ => ⟨aliasName, expr.mapNodes .value⟩

def Projection.mapList : List Projection → List Projection
  | [] => []
  | p :: rest => p.mapNodes :: Projection.mapList rest

def Select.mapNodes : Select → Select
  | ⟨projections, sources, predicate, groupBy, having, orderings, limit, offset, distinct⟩ =>
    ⟨Projection.mapList projections, Source.mapList sources, Expr.mapOption predicate .condition, Expr.mapList groupBy,
      Expr.mapOption having .condition, SortTerm.mapList orderings, Expr.mapOption limit .value,
      Expr.mapOption offset .value, distinct⟩

def Source.mapNodes : Source → Source
  | .table id aliasName name schema => .table id (f.aliasName (.table id aliasName name schema)) name schema
  | .derived id aliasName select => .derived id (f.aliasName (.derived id aliasName select)) select.mapNodes
  | .setOperation id aliasName op distinct left right =>
    .setOperation id (f.aliasName (.setOperation id aliasName op distinct left right)) op distinct left.mapNodes
      right.mapNodes
  | .joined kind source => .joined kind source.mapNodes
  | .joinedOn kind source predicate => .joinedOn kind source.mapNodes (predicate.mapNodes .condition)

def Source.mapList : List Source → List Source
  | [] => []
  | s :: rest => s.mapNodes :: Source.mapList rest

end

/-! ## Structure -/

theorem Expr.mapOption_eq_map (e : Option Expr) (u : Usage) : Expr.mapOption f e u = e.map (·.mapNodes f u) := by
  cases e <;> rfl

theorem Expr.mapList_eq_map (es : List Expr) : Expr.mapList f es = es.map (·.mapNodes f .value) := by
  induction es with
  | nil => rfl
  | cons e es ih => rw [Expr.mapList, ih, List.map_cons]

theorem SortTerm.mapList_eq_map (ts : List SortTerm) :
    SortTerm.mapList f ts = ts.map fun t => ⟨t.expr.mapNodes f .value, t.ascending⟩ := by
  induction ts with
  | nil => rfl
  | cons t ts ih =>
    cases t
    rw [SortTerm.mapList, ih, SortTerm.mapNodes, List.map_cons]

theorem Projection.mapList_eq_map (ps : List Projection) :
    Projection.mapList f ps = ps.map fun p => ⟨p.aliasName, p.expr.mapNodes f .value⟩ := by
  induction ps with
  | nil => rfl
  | cons p ps ih =>
    cases p
    rw [Projection.mapList, ih, Projection.mapNodes, List.map_cons]

theorem Select.length_projections_mapNodes (s : Select) : (s.mapNodes f).projections.length = s.projections.length := by
  cases s
  rw [Select.mapNodes, Projection.mapList_eq_map, List.length_map]

theorem Source.id_mapNodes : ∀ s : Source, (s.mapNodes f).id = s.id
  | .table .. | .derived .. | .setOperation .. => rfl
  | .joined _ source | .joinedOn _ source _ => Source.id_mapNodes source

/-! ## Positions -/

/-- A usage that marks what the position knows: it is inside a condition where the position is, and no operand of an
equality where a truth value is asked for. -/
structure Usage.Marks (u : Usage) (p : Position) : Prop where
  asTruth : u.asTruth = p.inCondition
  inEquality : p.decides → u.inEquality = false

namespace Usage.Marks

theorem value : Usage.value.Marks .value :=
  ⟨rfl, fun h => nomatch h⟩

theorem condition : Usage.condition.Marks .condition :=
  ⟨rfl, fun _ => rfl⟩

variable {u : Usage} {p : Position} (h : u.Marks p)

include h

theorem operand (op : BinaryOp) : (u.operand op).Marks (p.operand op) := by
  refine ⟨h.asTruth, fun hlogical => ?_⟩
  cases op <;> first | rfl | exact nomatch hlogical

theorem unaryOperand (op : UnaryOp) : (u.unaryOperand op).Marks (p.unaryOperand op) := by
  cases op with
  | not => exact ⟨h.asTruth, fun _ => rfl⟩
  | _ => exact value

end Usage.Marks

/-- How what stands in a position is used. -/
def Position.usage (p : Position) : Usage := ⟨p.inCondition, p.inEquality⟩

theorem Position.usage_unaryOperand (p : Position) (op : UnaryOp) :
    (p.unaryOperand op).usage = p.usage.unaryOperand op := by
  cases op <;> rfl

/-! ## What a mapped tree holds -/

/-- Whether an expression refers to a column or to a key of a source. -/
def Expr.isReference : Expr → Bool
  | .column _ | .keyAccess _ => true
  | _ => false

section Mapped

variable {β : Type} (φ ψ : Occurrence → List β)

theorem flatMap_filter_singleton (q : Occurrence → Bool) (os : List Occurrence) :
    os.flatMap (fun o => [o].filter q) = os.filter q := by
  rw [← List.filter_flatMap, List.flatMap_singleton']

/-- Whether expressions and sources are those of a mapped tree: `φ` finds in them what `ψ` finds in the tree, and the
sources are the mapped ones. -/
structure NodeMap.Carries (inside inside' : List Occurrence) (sources sources' : List Source) : Prop where
  inside : inside'.flatMap φ = inside.flatMap ψ
  sources : sources' = sources.map (·.mapNodes f)

/-- What `φ` finds in the place of a reference is what `ψ` finds in the reference, no source is put in, and neither looks
at anything else. -/
structure NodeMap.Turns : Prop where
  column : ∀ c {u : Usage} {p : Position}, u.Marks p → p.usage = u →
    f.Carries φ ψ [⟨.column c, p⟩] ((f.column c u).occurrences p) [] (f.column c u).tableSources
  key : ∀ k {u : Usage} {p : Position}, u.Marks p → p.usage = u →
    f.Carries φ ψ [⟨.keyAccess k, p⟩] ((f.key k u).occurrences p) [] (f.key k u).tableSources
  other : ∀ {e : Expr} (p : Position), e.isReference = false → φ ⟨e, p⟩ = [] ∧ ψ ⟨e, p⟩ = []

variable {f φ ψ} {inside inside' inside₂ inside₂' : List Occurrence} {sources sources' sources₂ sources₂' : List Source}

theorem NodeMap.carries_nil : f.Carries φ ψ [] [] [] [] :=
  ⟨rfl, rfl⟩

theorem NodeMap.Carries.append (h : f.Carries φ ψ inside inside' sources sources')
    (h₂ : f.Carries φ ψ inside₂ inside₂' sources₂ sources₂') :
    f.Carries φ ψ (inside ++ inside₂) (inside' ++ inside₂') (sources ++ sources₂) (sources' ++ sources₂') where
  inside := by rw [List.flatMap_append, List.flatMap_append, h.inside, h₂.inside]
  sources := by rw [List.map_append, h.sources, h₂.sources]

/-- Nothing is looked for in an expression that is no reference. -/
theorem NodeMap.Turns.node (hf : f.Turns φ ψ) {e e' : Expr} {p : Position}
    (h : f.Carries φ ψ inside inside' sources sources') (he : e.isReference = false := by rfl)
    (he' : e'.isReference = false := by rfl) :
    f.Carries φ ψ (⟨e, p⟩ :: inside) (⟨e', p⟩ :: inside') sources sources' where
  inside := by rw [List.flatMap_cons, List.flatMap_cons, (hf.other p he).2, (hf.other p he').1, h.inside]
  sources := h.sources

theorem NodeMap.Carries.source (h : f.Carries φ ψ inside inside' sources sources') (s : Source) :
    f.Carries φ ψ inside inside' (s :: sources) (s.mapNodes f :: sources') where
  inside := h.inside
  sources := by rw [List.map_cons, h.sources]

mutual

/-- What a mapped tree holds, by what it holds in the place of references. -/
theorem Expr.mapNodes_carries (hf : f.Turns φ ψ) : ∀ (e : Expr) {u : Usage} {p : Position}, u.Marks p → p.usage = u →
    f.Carries φ ψ (e.occurrences p) ((e.mapNodes f u).occurrences p) e.tableSources (e.mapNodes f u).tableSources
  | .column c, _, _, hm, hu => hf.column c hm hu
  | .keyAccess k, _, _, hm, hu => hf.key k hm hu
  | .constant _ _, _, _, _, _ => hf.node NodeMap.carries_nil
  | .parameter _ _, _, _, _, _ => hf.node NodeMap.carries_nil
  | .binary op left right, _, _, hm, rfl =>
    hf.node ((left.mapNodes_carries hf (hm.operand op) rfl).append (right.mapNodes_carries hf (hm.operand op) rfl))
  | .unary op operand, _, p, hm, rfl =>
    hf.node (operand.mapNodes_carries hf (hm.unaryOperand op) (p.usage_unaryOperand op))
  | .conditional test ifTrue ifFalse, _, _, _, _ =>
    hf.node (((test.mapNodes_carries hf .condition rfl).append (ifTrue.mapNodes_carries hf .value rfl)).append
      (ifFalse.mapNodes_carries hf .value rfl))
  | .call _ _ receiver arguments _, _, _, _, _ =>
    hf.node ((Expr.mapOption_carries hf receiver .value rfl).append (Expr.mapList_carries hf arguments))
  | .inValues item values _, _, _, _, _ =>
    hf.node ((item.mapNodes_carries hf .value rfl).append (Expr.mapList_carries hf values))
  | .inSubquery item subquery _, _, _, _, _ =>
    hf.node ((item.mapNodes_carries hf .value rfl).append (subquery.mapNodes_carries hf))
  | .exists subquery _, _, _, _, _ => hf.node (subquery.mapNodes_carries hf)
  | .like subject pattern escape, _, _, _, _ =>
    hf.node (((subject.mapNodes_carries hf .value rfl).append (pattern.mapNodes_carries hf .value rfl)).append
      (Expr.mapOption_carries hf escape .value rfl))
  | .scalarSubquery subquery, _, _, _, _ => hf.node (subquery.mapNodes_carries hf)
  | .rowNumber partitions orderings, _, _, _, _ =>
    hf.node ((Expr.mapList_carries hf partitions).append (SortTerm.mapList_carries hf orderings))

theorem Expr.mapOption_carries (hf : f.Turns φ ψ) : ∀ (e : Option Expr) {u : Usage} {p : Position}, u.Marks p →
    p.usage = u → f.Carries φ ψ (Expr.occurrencesOption e p) (Expr.occurrencesOption (Expr.mapOption f e u) p)
      (Expr.tableSourcesOption e) (Expr.tableSourcesOption (Expr.mapOption f e u))
  | none, _, _, _, _ => NodeMap.carries_nil
  | some e, _, _, hm, hu => e.mapNodes_carries hf hm hu

theorem Expr.mapList_carries (hf : f.Turns φ ψ) : ∀ es : List Expr,
    f.Carries φ ψ (Expr.occurrencesList es) (Expr.occurrencesList (Expr.mapList f es)) (Expr.tableSourcesList es)
      (Expr.tableSourcesList (Expr.mapList f es))
  | [] => NodeMap.carries_nil
  | e :: rest => (e.mapNodes_carries hf .value rfl).append (Expr.mapList_carries hf rest)

theorem SortTerm.mapNodes_carries (hf : f.Turns φ ψ) : ∀ t : SortTerm,
    f.Carries φ ψ t.occurrences (t.mapNodes f).occurrences t.tableSources (t.mapNodes f).tableSources
  | ⟨expr, _⟩ => expr.mapNodes_carries hf .value rfl

theorem SortTerm.mapList_carries (hf : f.Turns φ ψ) : ∀ ts : List SortTerm,
    f.Carries φ ψ (SortTerm.occurrencesList ts) (SortTerm.occurrencesList (SortTerm.mapList f ts))
      (SortTerm.tableSourcesList ts) (SortTerm.tableSourcesList (SortTerm.mapList f ts))
  | [] => NodeMap.carries_nil
  | t :: rest => (t.mapNodes_carries hf).append (SortTerm.mapList_carries hf rest)

theorem Projection.mapNodes_carries (hf : f.Turns φ ψ) : ∀ p : Projection,
    f.Carries φ ψ p.occurrences (p.mapNodes f).occurrences p.tableSources (p.mapNodes f).tableSources
  | ⟨_, expr⟩ => expr.mapNodes_carries hf .value rfl

theorem Projection.mapList_carries (hf : f.Turns φ ψ) : ∀ ps : List Projection,
    f.Carries φ ψ (Projection.occurrencesList ps) (Projection.occurrencesList (Projection.mapList f ps))
      (Projection.tableSourcesList ps) (Projection.tableSourcesList (Projection.mapList f ps))
  | [] => NodeMap.carries_nil
  | p :: rest => (p.mapNodes_carries hf).append (Projection.mapList_carries hf rest)

theorem Select.mapNodes_carries (hf : f.Turns φ ψ) : ∀ s : Select,
    f.Carries φ ψ s.occurrences (s.mapNodes f).occurrences s.tableSources (s.mapNodes f).tableSources
  | ⟨projections, sources, predicate, groupBy, having, orderings, limit, offset, _⟩ =>
    (((((((Projection.mapList_carries hf projections).append (Source.mapList_carries hf sources)).append
      (Expr.mapOption_carries hf predicate .condition rfl)).append (Expr.mapList_carries hf groupBy)).append
      (Expr.mapOption_carries hf having .condition rfl)).append (SortTerm.mapList_carries hf orderings)).append
      (Expr.mapOption_carries hf limit .value rfl)).append (Expr.mapOption_carries hf offset .value rfl)

theorem Source.mapNodes_carries (hf : f.Turns φ ψ) : ∀ s : Source,
    f.Carries φ ψ s.occurrences (s.mapNodes f).occurrences s.tableSources (s.mapNodes f).tableSources
  | .table id aliasName name schema => NodeMap.carries_nil.source (.table id aliasName name schema)
  | .derived id aliasName select => (select.mapNodes_carries hf).source (.derived id aliasName select)
  | .setOperation id aliasName op distinct left right =>
    ((left.mapNodes_carries hf).append (right.mapNodes_carries hf)).source
      (.setOperation id aliasName op distinct left right)
  | .joined _ source => source.mapNodes_carries hf
  | .joinedOn _ source predicate => (source.mapNodes_carries hf).append (predicate.mapNodes_carries hf .condition rfl)

theorem Source.mapList_carries (hf : f.Turns φ ψ) : ∀ ss : List Source,
    f.Carries φ ψ (Source.occurrencesList ss) (Source.occurrencesList (Source.mapList f ss))
      (Source.tableSourcesList ss) (Source.tableSourcesList (Source.mapList f ss))
  | [] => NodeMap.carries_nil
  | s :: rest => (s.mapNodes_carries hf).append (Source.mapList_carries hf rest)

end

end Mapped

end QueryShaping
