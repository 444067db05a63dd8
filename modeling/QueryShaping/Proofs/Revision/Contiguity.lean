import QueryShaping.Proofs.Evaluation.KeyOrder
import QueryShaping.Proofs.Revision.ParentRows

/-!
# The rows of one parent are next to each other

Collections that are joined in a single query are read from blocks of rows, one block for each parent. The first
collection appends what identifies its parents to the orderings of the query, and whatever orderings follow only sort the
rows inside a block. So the blocks of all collections are in the order of the query itself and of the first parent
identifier, and that is the order of the parents without any join.

For this, values that compare as equal have to have one key, which they do if they are of one type and no numbers with a
floating point.
-/

namespace QueryShaping

open List

/-! ## Runs and classes -/

section Classes

variable {α β κ : Type} [DecidableEq κ] {key : α → κ}

theorem exists_destutter_eq_cons (key : α → κ) (a : α) (l : List α) :
    ∃ rest, l.destutter' (fun a b => key a ≠ key b) a = a :: rest := by
  induction l generalizing a with
  | nil => exact ⟨[], rfl⟩
  | cons b l ih =>
    rw [destutter'_cons]
    split
    · exact ⟨_, rfl⟩
    · exact ih a

/-- Where no two runs have one key, a list is what there is of each key, in the order of the runs. -/
theorem eq_flatMap_destutter (a : α) (l : List α)
    (hnodup : ((l.destutter' (fun a b => key a ≠ key b) a).map key).Nodup) :
    a :: l = (l.destutter' (fun a b => key a ≠ key b) a).flatMap fun h => (a :: l).filter fun x => key x = key h := by
  induction l generalizing a with
  | nil => simp
  | cons b l ih =>
    rw [destutter'_cons] at hnodup ⊢
    by_cases hab : key a = key b
    · -- The run goes on: its second item joins the first one, and no other class changes.
      rw [if_neg (not_not.2 hab)] at hnodup ⊢
      have hrest := ih a hnodup
      obtain ⟨rest, heq⟩ := exists_destutter_eq_cons key a l
      rw [heq, map_cons, nodup_cons] at hnodup
      have hothers : rest.flatMap (fun h => (a :: b :: l).filter fun x => key x = key h) =
          rest.flatMap fun h => (a :: l).filter fun x => key x = key h := by
        refine flatMap_congr fun h hh => ?_
        have hne : key a ≠ key h := fun heq => hnodup.1 (heq ▸ mem_map_of_mem hh)
        simp [hne, hab ▸ hne]
      rw [heq, flatMap_cons] at hrest ⊢
      rw [hothers]
      simp only [filter_cons, hab, decide_true, if_true, cons_append, List.cons.injEq, true_and] at hrest ⊢
      exact hrest
    · -- A new run begins, and nothing of it has the key of the run before.
      rw [if_pos hab] at hnodup ⊢
      rw [map_cons, nodup_cons] at hnodup
      have hrest := ih b hnodup.2
      have hkeys : ∀ x ∈ b :: l, key x ∈ (l.destutter' (fun a b => key a ≠ key b) b).map key := by
        intro x hx
        rw [hrest] at hx
        obtain ⟨h, hh, hx⟩ := mem_flatMap.1 hx
        exact of_decide_eq_true (mem_filter.1 hx).2 ▸ mem_map_of_mem hh
      have hnone : (b :: l).filter (fun x => key x = key a) = [] :=
        filter_eq_nil_iff.2 fun x hx heq => hnodup.1 (of_decide_eq_true heq ▸ hkeys x hx)
      have hothers : (l.destutter' (fun a b => key a ≠ key b) b).flatMap
          (fun h => (a :: b :: l).filter fun x => key x = key h) =
          (l.destutter' (fun a b => key a ≠ key b) b).flatMap fun h => (b :: l).filter fun x => key x = key h := by
        refine flatMap_congr fun h hh => ?_
        have hne : key a ≠ key h := fun heq => hnodup.1 (heq ▸ mem_map_of_mem hh)
        rw [filter_cons_of_neg (by simpa using hne)]
      have hown : (a :: b :: l).filter (fun x => key x = key a) = [a] := by
        rw [filter_cons_of_pos (by simp), hnone]
      rw [flatMap_cons, hown, hothers, ← hrest]
      rfl

/-- Where the first items of the runs have different keys, each run has all items of its key. -/
theorem eq_flatMap_of_firstOfRuns (f : β → α) {l : List β} {heads : List α} (h : firstOfRuns key (l.map f) = heads)
    (hnodup : (heads.map key).Nodup) : l = heads.flatMap fun a => l.filter fun b => key (f b) = key a := by
  rw [firstOfRuns_map] at h
  subst h
  rw [map_map] at hnodup
  rw [flatMap_map]
  cases l with
  | nil => rfl
  | cons b l => exact eq_flatMap_destutter b l hnodup

end Classes

namespace Value

/-- Whether values are of one type, which is not one of floating-point numbers. Nulls may be among them. -/
def OneType (vs : List Value) : Prop :=
  ∃ type : DomainType, type ≠ .float32 ∧ type ≠ .float64 ∧ ∀ v ∈ vs, ∀ t ∈ DomainType.ofValue? v, t = type

/-- Values of one type compare. -/
theorem OneType.comparable {vs : List Value} (h : OneType vs) : Comparable {v | v ∈ vs} := by
  obtain ⟨type, hsingle, hdouble, htype⟩ := h
  have hfloat : ∀ v ∈ vs, v.isFloat = false := by
    intro v hv
    cases v with
    | float32 x => exact absurd (htype _ hv _ rfl).symm hsingle
    | float64 x => exact absurd (htype _ hv _ rfl).symm hdouble
    | _ => rfl
  refine ⟨hfloat, fun v hv w hw hv' hw' => ?_⟩
  have hv'' := hfloat v hv
  have hsame : ∀ s ∈ DomainType.ofValue? v, ∀ t ∈ DomainType.ofValue? w, s = t := fun s hs t ht =>
    (htype v hv s hs).trans (htype w hw t ht).symm
  cases v <;> cases w
  all_goals first
    | rfl
    | exact Bool.noConfusion hv'
    | exact Bool.noConfusion hw'
    | exact Bool.noConfusion hv''
    | exact DomainType.noConfusion (hsame _ rfl _ rfl)

end Value

theorem Joining.Steps.unique {α : Type} {x : Joining α} {fresh mid mid' : Fresh} {a a' : α} (h : Steps x fresh a mid)
    (h' : Steps x fresh a' mid') : a = a' ∧ mid = mid' := by
  have heq : (Except.ok a, mid) = (Except.ok a', mid') := h.symm.trans h'
  exact ⟨Except.ok.inj (congrArg Prod.fst heq), congrArg Prod.snd heq⟩

namespace Select

variable {new : TableId → Prop} {env : Environment} {s joined : Select} {outer : List Frame} {f w : Frame}

/-! ## Identifiers -/

/-- Whether places below a width identify rows, by values of one type at each of them. -/
structure Identifies (width : Nat) (places : List Nat) (rows : List Row) : Prop where
  within : Below width places
  unique : (rows.map (identifierAt places)).Nodup
  oneType : ∀ i ∈ places, Value.OneType (rows.map (·[i]?.getD .null))

theorem Identifies.perm {width : Nat} {places : List Nat} {rows rows' : List Row} (h : Identifies width places rows)
    (hperm : rows'.Perm rows) : Identifies width places rows' where
  within := h.within
  unique := (hperm.map _).nodup_iff.2 h.unique
  oneType i hi := by
    obtain ⟨type, hsingle, hdouble, htype⟩ := h.oneType i hi
    exact ⟨type, hsingle, hdouble, fun v hv => htype v ((hperm.map _).mem_iff.1 hv)⟩

/-- Rows with different identifiers differ when they are sorted. -/
theorem Identifies.differAt {width : Nat} {places : List Nat} {rows : List Row} (h : Identifies width places rows) :
    rows.Pairwise (DifferAt places) := by
  refine (pairwise_map.1 h.unique).imp_of_mem fun {a b} ha hb hne => ?_
  by_contra hsame
  rw [identifierAt, identifierAt, Key.ofValues, Key.ofValues, map_map, map_map] at hne
  refine hne (map_congr_left fun i hi => ?_)
  have hsame : (a[i]?.getD .null).sortOrder (b[i]?.getD .null) = .eq := by
    by_contra hdiffer
    exact hsame ⟨i, hi, hdiffer⟩
  exact ((h.oneType i hi).comparable.sortOrder_eq_eq (mem_map_of_mem ha) (mem_map_of_mem hb)).1 hsame

/-! ## What runs under left joins -/

/-- A frame has a row and its sort keys if an extension of it has them, under left joins. -/
theorem LeftJoins.gives (h : LeftJoins new s joined) (hknown : s.RefersTo fun id => ¬new id) (hfw : f.Extends new w)
    (hw : joined.Gives env outer w) : s.Gives env outer f := by
  refine ⟨h.take_rowOf hknown hfw hw ▸ h.evalAll_eq hknown hfw hw, fun t ht => ?_⟩
  have hplace := h.placeOf (hknown.orderings t ht)
  obtain ⟨joins, columns, terms, rfl, -, -⟩ := h
  have hkey := hw.key t (mem_append_left _ ht)
  rw [hplace] at hkey
  rw [Select.keyOf]
  cases hp : s.placeOf t.expr with
  | some i => rfl
  | none =>
    rw [hp] at hkey
    have heval := Expr.eval_alike (fun id => ¬new id) env t.expr (hknown.orderings t ht) _ _
      (Scope.alike_ofRow (hfw.bindAlike outer))
    simp only [Expr.sortKey] at hkey ⊢
    rw [heval, hkey]
    rfl

/-- What runs under left joins ran before them. -/
theorem LeftJoins.exists_gives (h : LeftJoins new s joined) (hs : s.RowWise) (hknown : s.RefersTo fun id => ¬new id)
    {wide : Relation} (hwide : joined.run env outer = .ok wide) :
    ∃ kept, s.keptFrames env outer = .ok kept ∧ ∀ f ∈ kept, s.Gives env outer f := by
  obtain ⟨wider, hwider, hgives, -, -⟩ := (h.rowWise hs).run_eq_ok hwide
  obtain ⟨kept, hkept, copies, rfl, hcopies⟩ := h.exists_keptFrames hknown hwider
  refine ⟨kept, hkept, fun f hf => ?_⟩
  obtain ⟨w, hw⟩ := exists_mem_of_ne_nil _ (hcopies f hf).1
  exact h.gives hknown ((hcopies f hf).2 w hw) (hgives w (mem_flatMap.2 ⟨f, hf, hw⟩))

theorem Gives.keyedRow (h : s.Gives env outer f) : s.keyedRow env [] (.ofRow f outer) =
    .ok (s.rowOf env outer f, s.orderings.map fun t => s.keyOf env outer t.expr f) := by
  have hkeys : s.orderings.mapM (fun t => t.expr.sortKey env (s.placeOf t.expr) (s.rowOf env outer f) (.ofRow f outer)) =
      .ok (s.orderings.map fun t => s.keyOf env outer t.expr f) := by
    rw [Except.mapM_eq_ok_iff, map_map]
    exact map_congr_left h.key
  exact Except.bind_eq_ok_iff.2 ⟨_, h.row, Except.bind_eq_ok_iff.2 ⟨_, hkeys, rfl⟩⟩

theorem RowWise.run_of_gives (h : s.RowWise) {kept : List Frame} (hkept : s.keptFrames env outer = .ok kept)
    (hgives : ∀ f ∈ kept, s.Gives env outer f) :
    ∃ r, s.run env outer = .ok r := by
  have hkeyed : s.keyedRows env kept outer =
      .ok (kept.map fun f => (s.rowOf env outer f, s.orderings.map fun t => s.keyOf env outer t.expr f)) := by
    rw [h.keyedRows, Except.mapM_eq_ok_iff, map_map]
    exact map_congr_left fun f hf => (hgives f hf).keyedRow
  have hcut (rows : List Row) : s.cut env rows outer = .ok rows := by
    rw [cut, h.offset, h.limit]
    rfl
  rw [run_eq]
  exact ⟨_, Except.bind_eq_ok_iff.2 ⟨_, hkept, Except.bind_eq_ok_iff.2 ⟨_, hkeyed, Except.bind_eq_ok_iff.2
    ⟨_, hcut _, rfl⟩⟩⟩⟩

/-- A frame with a row has the sort keys under its columns, too. -/
theorem Gives.orderedBy (h : s.Gives env outer f) (places : List Nat) : (s.orderedBy places).Gives env outer f := by
  refine ⟨h.row, fun t ht => ?_⟩
  rcases mem_append.1 ht with ht | ht
  · exact h.key t ht
  · obtain ⟨i, -, p, hp, rfl⟩ := mem_termsAt.1 ht
    show p.expr.sortKey env (s.placeOf p.expr) (s.rowOf env outer f) (.ofRow f outer) = .ok (s.keyOf env outer p.expr f)
    rw [Select.keyOf]
    cases hplace : s.placeOf p.expr with
    | some j => rfl
    | none =>
      obtain ⟨v, -, hcell⟩ := (Projection.evalAll_eq_ok_iff.1 h.row).2 i p hp
      rw [getElem?_nil] at hcell
      have heval : p.expr.eval env (.ofRow f outer) = .ok v := hcell
      simp only [Expr.sortKey, heval]
      rfl

/-- Identifiers are found in a row of which only these columns are there. -/
theorem identifierAt_take {width : Nat} {places : List Nat} (h : Below width places) (row : Row) :
    identifierAt places (row.take width) = identifierAt places row := by
  refine congrArg Key.ofValues (map_congr_left fun i hi => ?_)
  rw [getElem?_take_of_lt (h i hi)]

/-! ## The query that is joined to -/

/-- A select that is pushed down if it has to be has a row for each frame, unless it aggregates or numbers rows. -/
theorem rowWise_of_pushDownWhen {fresh mid : Fresh} {base : Select}
    (h : Joining.Steps (s.pushDownWhen s.requiresPushdown) fresh base mid) (hhaving : base.having = none)
    (hplain : ∀ p ∈ base.projections, p.expr.containsAggregate = false ∧ p.expr.isRowNumber = false) : base.RowWise := by
  cases hpush : s.requiresPushdown with
  | true =>
    rw [hpush] at h
    obtain ⟨rfl, -⟩ := steps_pushDownFresh.1 h
    obtain ⟨hidden, hhidden⟩ := exposeOrderings_eq { s with orderings := [] } s.orderings
    rw [pushDown_eq _ _ (Prod.ext hhidden rfl)]
    exact rowWise_overDerived
  | false =>
    rw [hpush] at h
    obtain ⟨rfl, -⟩ := Joining.steps_pure.1 h
    simp only [requiresPushdown, Bool.or_eq_false_iff] at hpush
    obtain ⟨⟨⟨hdistinct, hlimit⟩, hoffset⟩, hgroupBy⟩ := hpush
    have hany : s.projections.any (·.expr.containsAggregate) = false :=
      any_eq_false.2 fun p hp => by rw [(hplain p hp).1]; exact Bool.false_ne_true
    refine ⟨?_, fun p hp => (hplain p hp).2, hdistinct, Option.not_isSome_iff_eq_none.1 (by rw [hlimit]; decide),
      Option.not_isSome_iff_eq_none.1 (by rw [hoffset]; decide)⟩
    rw [grouped, isGrouped, hgroupBy, hhaving, hany]
    rfl

/-- Whether rows come in blocks, one for each head in turn. The rows with the identifier of the head are in its block,
one or more, and no two heads have one identifier. -/
structure InBlocks (identifier : List Nat) (heads rows : List Row) : Prop where
  nodup : (heads.map (identifierAt identifier)).Nodup
  begins : ∀ head ∈ heads, ∃ row ∈ rows, head <+: row ∧ identifierAt identifier row = identifierAt identifier head
  blocks : rows = heads.flatMap fun head =>
    rows.filter fun row => identifierAt identifier row = identifierAt identifier head

theorem inBlocks_of_firstOfRuns {width : Nat} {identifier : List Nat} {heads rows : List Row}
    (hwithin : Below width identifier) (hnodup : (heads.map (identifierAt identifier)).Nodup)
    (h : firstOfRuns (identifierAt identifier) (rows.map (·.take width)) = heads) : InBlocks identifier heads rows where
  nodup := hnodup
  begins head hhead := by
    rw [← h] at hhead
    obtain ⟨row, hrow, rfl⟩ := mem_map.1 ((destutter_sublist _ _).subset hhead)
    exact ⟨row, hrow, take_prefix _ _, (identifierAt_take hwithin row).symm⟩
  blocks := by
    have hblocks := eq_flatMap_of_firstOfRuns _ h hnodup
    simp only [identifierAt_take hwithin] at hblocks
    exact hblocks

end Select

/-- In a single query the rows with one parent identifier are next to each other, for every collection of the rows
themselves, and their blocks are in the order of the query and of the first parent identifier. -/
theorem ShapedQuery.inBlocks_joinCollections {shaped joined : ShapedQuery} {fresh mid fresh' : Fresh} {base : Select}
    (hjoin : Joining.Steps (shaped.joinCollections false) fresh joined fresh')
    (hbase : Joining.Steps (shaped.query.pushDownWhen shaped.query.requiresPushdown) fresh base mid)
    (hhaving : base.having = none)
    (hplain : ∀ p ∈ base.projections, p.expr.containsAggregate = false ∧ p.expr.isRowNumber = false)
    (hknown : base.RefersTo (· < mid.nextTable)) {first : PendingCollection}
    (hfirst : shaped.shape.rootPendings.head? = some first)
    (hrecognized : ∀ i ∈ first.parentIdentifier, ∀ p, base.projections[i]? = some p → base.Recognizes p.expr)
    {env : Environment} {outer : List Frame}
    (hidentifies : ∀ roots, base.run env outer = .ok roots → ∀ p ∈ shaped.shape.rootPendings,
      Select.Identifies base.width p.parentIdentifier roots.rows)
    (hsorts : (base.orderedBy first.parentIdentifier).SortsConsistently env outer)
    {wide : Relation} (hwide : joined.query.run env outer = .ok wide) :
    ∃ r, (base.orderedBy first.parentIdentifier).run env outer = .ok r ∧
      ∀ p ∈ shaped.shape.rootPendings, Select.InBlocks p.parentIdentifier r.rows wide.rows := by
  have hmem : first ∈ shaped.shape.rootPendings := mem_of_mem_head? hfirst
  have hrow := Select.rowWise_of_pushDownWhen hbase hhaving hplain
  have hknown' : base.RefersTo fun id => ¬mid.nextTable ≤ id :=
    ⟨fun p hp id hid => Nat.not_le.2 (hknown.projections p hp id hid),
      fun e he id hid => Nat.not_le.2 (hknown.predicate e he id hid),
      fun t ht id hid => Nat.not_le.2 (hknown.orderings t ht id hid)⟩
  simp only [joinCollections, Shape.hasPending_of_mem_rootPendings hmem, if_true, Joining.steps_bind, Joining.steps_pure]
    at hjoin
  obtain ⟨base', mid', hbase', ⟨shape', query'⟩, _, hshape, rfl, rfl⟩ := hjoin
  obtain ⟨rfl, rfl⟩ := hbase.unique hbase'
  have hgrows := Shape.grows _ _ _ _ _ hshape
  -- The rows of the parents are there whenever the joined query runs.
  obtain ⟨kept, hkept, hgives⟩ := hgrows.leftJoins.exists_gives hrow hknown' hwide
  obtain ⟨roots, hroots⟩ := hrow.run_of_gives hkept hgives
  obtain ⟨r, hr⟩ := (hrow.orderedBy first.parentIdentifier).run_of_gives hkept fun f hf =>
    (hgives f hf).orderedBy first.parentIdentifier
  have hperm := hrow.perm_orderedBy hroots hr
  have hidentifies : ∀ p ∈ shaped.shape.rootPendings, Select.Identifies base.width p.parentIdentifier r.rows :=
    fun p hp => (hidentifies roots hroots p hp).perm hperm
  refine ⟨r, hr, fun p hp => ?_⟩
  refine Select.inBlocks_of_firstOfRuns (hidentifies p hp).within (hidentifies p hp).unique ?_
  -- The first collection orders them, and all that the others do comes after it.
  obtain ⟨-, hgrows⟩ := hgrows
  cases hpendings : shaped.shape.rootPendings with
  | nil => rw [hpendings] at hp; cases hp
  | cons q rest =>
    rw [hpendings] at hgrows hfirst
    obtain rfl : q = first := Option.some.inj hfirst
    obtain ⟨own, ordered, hown, hordered, hjoins⟩ := hgrows
    obtain rfl : q.parentIdentifier = own :=
      List.map_injective_iff.2 (fun _ _ => Except.ok.inj) (Except.mapM_eq_ok_iff.1 hown)
    rw [← append_nil q.parentIdentifier] at hrecognized hr hsorts
    exact hjoins.firstOfRuns_orderedBy hrow hknown' hrecognized hordered hr hsorts (hidentifies q hmem).differAt
      (hidentifies p hp).differAt hwide


/-- Rows with two keys that sort them differently, and parts that belong to rows by either key. -/
def rowsWithTwoKeys : Environment where
  tables := [
    ("Rows", ⟨["A", "B"], [[.int32 2, .int32 1], [.int32 1, .int32 2]]⟩),
    ("Parts", ⟨["Id", "A", "B"], [[.int32 10, .int32 1, .int32 2], [.int32 11, .int32 2, .int32 1],
      [.int32 12, .int32 1, .int32 1]]⟩)]
  parameters := .empty

/-- The parts of a row, by a column of theirs. -/
def partsOf (id : TableId) (column : String) (parentIdentifier outerKey : List Nat) : PendingCollection :=
  ⟨none, "Part", parentIdentifier, outerKey,
    ⟨{ Select.empty with
        projections := [⟨"Id", .column ⟨id, none, "Id", none, true⟩⟩], sources := [.table id none "Parts" none] },
      .scalar 0 true⟩,
    [.column ⟨id, none, column, none, true⟩], [0]⟩

/-- The rows with their parts by each of the keys. -/
def partsByTwoKeys : ShapedQuery :=
  ⟨{ Select.empty with
      projections := [⟨"A", .column ⟨1, some "r", "A", none, true⟩⟩, ⟨"B", .column ⟨1, some "r", "B", none, true⟩⟩]
      sources := [.table 1 (some "r") "Rows" none] },
    .record [⟨"ByA", .pending (partsOf 2 "A" [0] [0])⟩, ⟨"ByB", .pending (partsOf 3 "B" [1] [1])⟩]⟩

/-- Rows that differ by the sign of a zero, and their parts. -/
def rowsWithZero : Environment where
  tables := [
    ("Rows", ⟨["Id", "X"], [[.int32 1, .float64 ⟨0x3FF0000000000000⟩], [.int32 2, .float64 ⟨0x8000000000000000⟩]]⟩),
    ("Parts", ⟨["Id", "Parent"], [[.int32 10, .int32 1], [.int32 20, .int32 2], [.int32 30, .int32 1]]⟩)]
  parameters := .empty

/-- The rows with their parts, where the comparison that identifies a row has the comparison with the other zero before
it. -/
def partsBySignedZero : ShapedQuery :=
  ⟨{ Select.empty with
      projections := [⟨"Twin", differsFrom ⟨0⟩ "r"⟩, ⟨"Key", differsFrom ⟨0x8000000000000000⟩ "r"⟩,
        ⟨"Id", .column ⟨1, some "r", "Id", none, true⟩⟩]
      sources := [.table 1 (some "r") "Rows" none] },
    .record [⟨"Parts", .pending (partsOf 3 "Parent" [1] [2])⟩]⟩

theorem ShapedQuery.inBlocks_joinCollections_partsByTwoKeys :
    partsByTwoKeys.query.RefersTo (· < 4) ∧
      Select.Identifies 2 [0] [[.int32 2, .int32 1], [.int32 1, .int32 2]] ∧
      Select.Identifies 2 [1] [[.int32 2, .int32 1], [.int32 1, .int32 2]] ∧
      (partsByTwoKeys.query.orderedBy [0]).SortsConsistently rowsWithTwoKeys [] ∧
      ∃ joined fresh' wide, Joining.Steps (partsByTwoKeys.joinCollections false) ⟨0, 4⟩ joined fresh' ∧
        joined.query.run rowsWithTwoKeys [] = .ok wide ∧ wide.rows.length = 4 ∧
        Select.InBlocks [0] [[.int32 1, .int32 2], [.int32 2, .int32 1]] wide.rows ∧
        Select.InBlocks [1] [[.int32 1, .int32 2], [.int32 2, .int32 1]] wide.rows := by
  have hknown : partsByTwoKeys.query.RefersTo (· < 4) := ⟨by decide, (fun _ h => by cases h), by decide⟩
  have hone {v w : Int32} : Value.OneType [.int32 v, .int32 w] :=
    ⟨.int32, by decide, by decide, by rintro u (_ | ⟨_, _ | ⟨_, ⟨⟩⟩⟩) t ⟨⟩ <;> rfl⟩
  have hfirst : Select.Identifies 2 [0] [[.int32 2, .int32 1], [.int32 1, .int32 2]] :=
    ⟨by decide, by decide, forall_mem_singleton.2 hone⟩
  have hsecond : Select.Identifies 2 [1] [[.int32 2, .int32 1], [.int32 1, .int32 2]] :=
    ⟨by decide, by decide, forall_mem_singleton.2 hone⟩
  have hsorts : (partsByTwoKeys.query.orderedBy [0]).SortsConsistently rowsWithTwoKeys [] := by
    intro frames rows hframes hrows
    cases hframes
    cbv at hrows
    cases hrows
    exact keysSortTransitively_of_forall_lt 1 (by decide) (by decide)
  have hrecognized : ∀ i ∈ [0], ∀ p, partsByTwoKeys.query.projections[i]? = some p →
      partsByTwoKeys.query.Recognizes p.expr := by
    refine forall_mem_singleton.2 fun p hp => ?_
    cases hp
    refine ⟨?_, forall_mem_nil _⟩
    rintro q (_ | ⟨_, _ | ⟨_, ⟨⟩⟩⟩) heq
    · rfl
    · exact absurd heq (by decide)
  obtain ⟨joined, fresh', hjoin⟩ :
      ∃ joined fresh', Joining.Steps (partsByTwoKeys.joinCollections false) ⟨0, 4⟩ joined fresh' := ⟨_, _, rfl⟩
  obtain ⟨wide, hwide, hlength⟩ : ∃ wide, joined.query.run rowsWithTwoKeys [] = .ok wide ∧ wide.rows.length = 4 := by
    unfold Joining.Steps at hjoin
    cbv at hjoin
    cases hjoin
    exact ⟨_, by cbv, by cbv⟩
  have hroots : partsByTwoKeys.query.run rowsWithTwoKeys [] =
      .ok ⟨["A", "B"], [[.int32 2, .int32 1], [.int32 1, .int32 2]]⟩ := by cbv
  have hpendings : partsByTwoKeys.shape.rootPendings = [partsOf 2 "A" [0] [0], partsOf 3 "B" [1] [1]] := rfl
  have hordered : (partsByTwoKeys.query.orderedBy [0]).run rowsWithTwoKeys [] =
      .ok ⟨["A", "B"], [[.int32 1, .int32 2], [.int32 2, .int32 1]]⟩ := by cbv
  have hbase : Joining.Steps (partsByTwoKeys.query.pushDownWhen partsByTwoKeys.query.requiresPushdown) ⟨0, 4⟩
      partsByTwoKeys.query ⟨0, 4⟩ := rfl
  have hhead : partsByTwoKeys.shape.rootPendings.head? = some (partsOf 2 "A" [0] [0]) := rfl
  obtain ⟨r, hr, hblocks⟩ := inBlocks_joinCollections hjoin hbase rfl (by decide) hknown hhead hrecognized
    (fun roots h => by
      cases hroots.symm.trans h
      rw [hpendings]
      exact forall_mem_cons.2 ⟨hfirst, forall_mem_singleton.2 hsecond⟩) hsorts hwide
  cases hordered.symm.trans hr
  rw [hpendings] at hblocks
  obtain ⟨hA, hB⟩ := forall_mem_cons.1 hblocks
  have hB := forall_mem_singleton.1 hB
  exact ⟨hknown, hfirst, hsecond, hsorts, joined, fresh', wide, hjoin, hwide, hlength, hA, hB⟩

/-- Zeros of either sign are equal literals, so that an ordering by an identifier may stand for another one. And there is
one order of the rows only, when collections have parent identifiers of their own. -/
theorem ShapedQuery.rows_apart_and_out_of_order :
    (Select.Identifies 3 [1] [[.bool true, .bool true, .int32 1], [.bool true, .bool false, .int32 2]] ∧
      (partsBySignedZero.query.orderedBy [1]).SortsConsistently rowsWithZero [] ∧
      partsBySignedZero.query.run rowsWithZero [] =
        .ok ⟨["Twin", "Key", "Id"], [[.bool true, .bool true, .int32 1], [.bool true, .bool false, .int32 2]]⟩ ∧
      ∃ joined fresh' wide, Joining.Steps (partsBySignedZero.joinCollections false) ⟨0, 4⟩ joined fresh' ∧
        joined.query.run rowsWithZero [] = .ok wide ∧
        wide.rows.map (Select.identifierAt [1]) =
          [Key.ofValues [.bool true], Key.ofValues [.bool false], Key.ofValues [.bool true]]) ∧
    ((partsByTwoKeys.query.orderedBy [1]).SortsConsistently rowsWithTwoKeys [] ∧
      (partsByTwoKeys.query.orderedBy [1]).run rowsWithTwoKeys [] =
        .ok ⟨["A", "B"], [[.int32 2, .int32 1], [.int32 1, .int32 2]]⟩ ∧
      ∃ joined fresh' wide, Joining.Steps (partsByTwoKeys.joinCollections false) ⟨0, 4⟩ joined fresh' ∧
        joined.query.run rowsWithTwoKeys [] = .ok wide ∧
        wide.rows.map (Select.identifierAt [1]) =
          [Key.ofValues [.int32 2], Key.ofValues [.int32 2], Key.ofValues [.int32 1], Key.ofValues [.int32 1]]) := by
  have hone : Value.OneType [.bool true, .bool false] :=
    ⟨.bool, by decide, by decide, by rintro u (_ | ⟨_, _ | ⟨_, ⟨⟩⟩⟩) t ⟨⟩ <;> rfl⟩
  refine ⟨⟨⟨by decide, by decide, forall_mem_singleton.2 hone⟩, ?_, by cbv, ?_⟩, ?_, by cbv, ?_⟩
  · intro frames rows hframes hrows
    cases hframes
    cbv at hrows
    cases hrows
    exact keysSortTransitively_of_forall_lt 1 (by decide) (by decide)
  · obtain ⟨joined, fresh', hjoin⟩ :
        ∃ joined fresh', Joining.Steps (partsBySignedZero.joinCollections false) ⟨0, 4⟩ joined fresh' := ⟨_, _, rfl⟩
    have hjoin' := hjoin
    unfold Joining.Steps at hjoin'
    cbv at hjoin'
    cases hjoin'
    exact ⟨_, _, _, hjoin, by cbv, by cbv⟩
  · intro frames rows hframes hrows
    cases hframes
    cbv at hrows
    cases hrows
    exact keysSortTransitively_of_forall_lt 1 (by decide) (by decide)
  · obtain ⟨joined, fresh', hjoin⟩ :
        ∃ joined fresh', Joining.Steps (partsByTwoKeys.joinCollections false) ⟨0, 4⟩ joined fresh' := ⟨_, _, rfl⟩
    have hjoin' := hjoin
    unfold Joining.Steps at hjoin'
    cbv at hjoin'
    cases hjoin'
    exact ⟨_, _, _, hjoin, by cbv, by cbv⟩

end QueryShaping
