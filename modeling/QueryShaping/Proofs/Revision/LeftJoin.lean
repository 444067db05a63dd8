import QueryShaping.Proofs.Evaluation.References
import QueryShaping.Proofs.Query.OrderedBy
import QueryShaping.Proofs.Revision.CollectionJoin

/-!
# Left joins keep the rows they are joined to

A left join gives every frame at least one extension, and nothing that was evaluated in a frame changes in an extension
of it, as long as the identities of the joined tables are new. Under a select with one row for each frame, a row is
therefore repeated but never lost, and the order of the select comes before whatever the joined tables are sorted by.

The copies of a row are next to each other when the order tells the rows apart. Then the first of each run of copies are
the rows of the select without the joins.
-/

namespace QueryShaping

open List

variable {places : List Nat} {ordered : Select}

/-! ## Orders by sort terms -/

section Terms

variable {α : Type} {key : Expr → α → Value} {a b : α}

/-- The order of two items by sort terms, where `key` gives the sort keys. -/
def compareBy (key : Expr → α → Value) (terms : List SortTerm) (a b : α) : Ordering :=
  compareKeys (terms.map (·.ascending)) (terms.map fun t => key t.expr a) (terms.map fun t => key t.expr b)

theorem compareBy_cons (t : SortTerm) (terms : List SortTerm) :
    compareBy key (t :: terms) a b =
      (Value.directed t.ascending (key t.expr a) (key t.expr b)).then (compareBy key terms a b) := rfl

theorem compareBy_append (terms more : List SortTerm) :
    compareBy key (terms ++ more) a b = (compareBy key terms a b).then (compareBy key more a b) := by
  induction terms with
  | nil => rfl
  | cons t rest ih => rw [cons_append, compareBy_cons, compareBy_cons, ih, Ordering.then_assoc]

theorem compareBy_swap (key : Expr → α → Value) (terms : List SortTerm) (a b : α) :
    compareBy key terms b a = (compareBy key terms a b).swap :=
  compareKeys_swap _ _ _

/-- Items compare as equal when all their keys do. -/
theorem compareBy_eq_eq {terms : List SortTerm} :
    compareBy key terms a b = .eq ↔ ∀ t ∈ terms, (key t.expr a).sortOrder (key t.expr b) = .eq := by
  induction terms with
  | nil => simp [compareBy, compareKeys]
  | cons t rest ih => rw [compareBy_cons, Ordering.then_eq_eq, Value.directed_eq_eq, ih, forall_mem_cons]

theorem compareBy_self (terms : List SortTerm) : compareBy key terms a a = .eq :=
  compareBy_eq_eq.2 fun _ _ => Ordering.eq_eq_of_eq_swap (Value.sortOrder_swap _ _)

/-- A term that repeats an expression decides nothing. -/
theorem compareBy_absorb {terms : List SortTerm} {t u : SortTerm} (hu : u ∈ terms) (heq : u.expr = t.expr)
    (rest : List SortTerm) : compareBy key (terms ++ t :: rest) a b = compareBy key (terms ++ rest) a b := by
  rw [compareBy_append, compareBy_append, compareBy_cons]
  cases h : compareBy key terms a b with
  | eq =>
    have ht : Value.directed t.ascending (key t.expr a) (key t.expr b) = .eq :=
      Value.directed_eq_eq.2 (heq ▸ compareBy_eq_eq.1 h u hu)
    rw [ht]
    rfl
  | lt | gt => rfl

end Terms

/-! ## Selects with a row for each frame -/

namespace Select

/-- Whether each frame that is kept gives a row of its own, whatever the other frames are. -/
structure RowWise (s : Select) : Prop where
  grouped : s.grouped = false
  unnumbered : ∀ p ∈ s.projections, p.expr.isRowNumber = false
  distinct : s.distinct = false
  limit : s.limit = none
  offset : s.offset = none

variable {env : Environment} {s : Select} {outer : List Frame}

/-- The row that a frame gives. -/
def rowOf (env : Environment) (s : Select) (outer : List Frame) (frame : Frame) : Row :=
  (Projection.evalAll env s.projections [] (.ofRow frame outer)).toOption.getD []

/-- The sort key that a frame has under an expression. -/
def keyOf (env : Environment) (s : Select) (outer : List Frame) (e : Expr) (frame : Frame) : Value :=
  (e.sortKey env (s.placeOf e) (s.rowOf env outer frame) (.ofRow frame outer)).toOption.getD .null

/-- The order of frames by sort terms. -/
def frameLe (env : Environment) (s : Select) (outer : List Frame) (terms : List SortTerm) (a b : Frame) : Bool :=
  compareBy (s.keyOf env outer) terms a b != .gt

/-- Whether a frame has a row and its sort keys. -/
structure Gives (env : Environment) (s : Select) (outer : List Frame) (frame : Frame) : Prop where
  row : Projection.evalAll env s.projections [] (.ofRow frame outer) = .ok (s.rowOf env outer frame)
  key : ∀ t ∈ s.orderings, t.expr.sortKey env (s.placeOf t.expr) (s.rowOf env outer frame) (.ofRow frame outer) =
    .ok (s.keyOf env outer t.expr frame)

theorem gives_of_keyedRow {frame : Frame} {keyed : Row × List Value}
    (h : s.keyedRow env [] (.ofRow frame outer) = .ok keyed) :
    s.Gives env outer frame ∧
      keyed = (s.rowOf env outer frame, s.orderings.map fun t => s.keyOf env outer t.expr frame) := by
  obtain ⟨row, hrow, h⟩ := Except.bind_eq_ok_iff.1 h
  obtain ⟨keys, hkeys, h⟩ := Except.bind_eq_ok_iff.1 h
  cases h
  have hrowOf : s.rowOf env outer frame = row := by
    rw [rowOf, hrow]
    rfl
  have hkey : ∀ t ∈ s.orderings, t.expr.sortKey env (s.placeOf t.expr) (s.rowOf env outer frame) (.ofRow frame outer) =
      .ok (s.keyOf env outer t.expr frame) := by
    intro t ht
    obtain ⟨v, hv⟩ : ∃ v, t.expr.sortKey env (s.placeOf t.expr) row (.ofRow frame outer) = .ok v := by
      have hmem := mem_map_of_mem
        (f := fun t : SortTerm => t.expr.sortKey env (s.placeOf t.expr) row (.ofRow frame outer)) ht
      rw [Except.mapM_eq_ok_iff.1 hkeys] at hmem
      obtain ⟨v, -, hv⟩ := mem_map.1 hmem
      exact ⟨v, hv.symm⟩
    rw [keyOf, hrowOf, hv]
    rfl
  refine ⟨⟨hrowOf ▸ hrow, hkey⟩, ?_⟩
  have hall := Except.mapM_congr hkey
  rw [hrowOf, hkeys] at hall
  rw [hrowOf, ← Except.ok.inj (hall.trans (Except.mapM_eq_ok_iff.2 (map_map ..).symm))]

theorem RowWise.keyedRows (h : s.RowWise) (frames : List Frame) :
    s.keyedRows env frames outer = frames.mapM fun frame => s.keyedRow env [] (.ofRow frame outer) :=
  keyedRows_of_unnumbered h.grouped h.unnumbered frames outer

/-- The rows of a select with one row for each frame. -/
theorem RowWise.run_eq_ok (h : s.RowWise) {r : Relation} (hrun : s.run env outer = .ok r) :
    ∃ kept, s.keptFrames env outer = .ok kept ∧ (∀ frame ∈ kept, s.Gives env outer frame) ∧
      s.keyedRows env kept outer =
        .ok (kept.map fun frame => (s.rowOf env outer frame, s.orderings.map fun t => s.keyOf env outer t.expr frame)) ∧
      r.rows = (kept.mergeSort (s.frameLe env outer s.orderings)).map (s.rowOf env outer) := by
  rw [run_eq] at hrun
  obtain ⟨kept, hkept, hrun⟩ := Except.bind_eq_ok_iff.1 hrun
  obtain ⟨rows, hrows, hrun⟩ := Except.bind_eq_ok_iff.1 hrun
  rw [cut, h.offset, h.limit] at hrun
  cases hrun
  have hgives : ∀ frame ∈ kept, s.Gives env outer frame ∧ s.keyedRow env [] (.ofRow frame outer) =
      .ok (s.rowOf env outer frame, s.orderings.map fun t => s.keyOf env outer t.expr frame) := by
    intro frame hframe
    rw [h.keyedRows] at hrows
    have hmem := mem_map_of_mem (f := fun frame => s.keyedRow env [] (.ofRow frame outer)) hframe
    rw [Except.mapM_eq_ok_iff.1 hrows] at hmem
    obtain ⟨keyed, -, hkeyed⟩ := mem_map.1 hmem
    obtain ⟨hgives, rfl⟩ := gives_of_keyedRow hkeyed.symm
    exact ⟨hgives, hkeyed.symm⟩
  have hkeyed : s.keyedRows env kept outer =
      .ok (kept.map fun frame => (s.rowOf env outer frame, s.orderings.map fun t => s.keyOf env outer t.expr frame)) := by
    rw [h.keyedRows, Except.mapM_eq_ok_iff, map_map]
    exact map_congr_left fun frame hframe => (hgives frame hframe).2
  refine ⟨kept, hkept, fun frame hframe => (hgives frame hframe).1, hkeyed, ?_⟩
  rw [hkeyed] at hrows
  cases hrows
  rw [arrange, h.distinct, sortByKeys_map]
  rfl

end Select

/-! ## Frames under left joins -/

/-- Whether a frame is another one with sources of new identities behind its own. -/
def Frame.Extends (new : TableId → Prop) (frame wider : Frame) : Prop :=
  ∃ more, wider = frame ++ more ∧ ∀ b ∈ more, new b.id

/-- Whether frames are the extensions of other frames, of which each has one or more. -/
def ExtendsAll (new : TableId → Prop) (frames wider : List Frame) : Prop :=
  ∃ copies : Frame → List Frame, wider = frames.flatMap copies ∧
    ∀ frame ∈ frames, copies frame ≠ [] ∧ ∀ w ∈ copies frame, frame.Extends new w

variable {new : TableId → Prop} {frames wider : List Frame}

theorem Frame.Extends.refl (frame : Frame) : frame.Extends new frame :=
  ⟨[], (append_nil frame).symm, fun _ hb => nomatch hb⟩

theorem Frame.Extends.trans {a b c : Frame} (hab : a.Extends new b) (hbc : b.Extends new c) : a.Extends new c := by
  obtain ⟨more, rfl, hmore⟩ := hab
  obtain ⟨more', rfl, hmore'⟩ := hbc
  exact ⟨more ++ more', append_assoc .., forall_mem_append.2 ⟨hmore, hmore'⟩⟩

/-- What evaluates alike in a frame evaluates alike in its extensions. -/
theorem Frame.Extends.bindAlike {frame wider : Frame} (h : frame.Extends new wider) (outer : List Frame) :
    BindAlike (fun id => ¬new id) (frame :: outer) (wider :: outer) := by
  obtain ⟨more, rfl, hmore⟩ := h
  exact BindAlike.append (fun b hb => not_not.2 (hmore b hb)) outer

theorem ExtendsAll.refl (frames : List Frame) : ExtendsAll new frames frames :=
  ⟨fun frame => [frame], (flatMap_singleton' frames).symm, fun frame _ =>
    ⟨cons_ne_nil _ _, fun w hw => by rw [mem_singleton.1 hw]; exact Frame.Extends.refl frame⟩⟩

theorem ExtendsAll.trans {widest : List Frame} (h : ExtendsAll new frames wider) (h' : ExtendsAll new wider widest) :
    ExtendsAll new frames widest := by
  obtain ⟨copies, rfl, hcopies⟩ := h
  obtain ⟨copies', rfl, hcopies'⟩ := h'
  refine ⟨fun frame => (copies frame).flatMap copies', flatMap_assoc, fun frame hframe => ?_⟩
  obtain ⟨hne, hext⟩ := hcopies frame hframe
  have hmem {w : Frame} (hw : w ∈ copies frame) : w ∈ frames.flatMap copies := mem_flatMap.2 ⟨frame, hframe, hw⟩
  constructor
  · obtain ⟨w, hw⟩ := exists_mem_of_ne_nil _ hne
    obtain ⟨x, hx⟩ := exists_mem_of_ne_nil _ (hcopies' w (hmem hw)).1
    exact ne_nil_of_mem (mem_flatMap.2 ⟨w, hw, hx⟩)
  · intro x hx
    obtain ⟨w, hw, hx⟩ := mem_flatMap.1 hx
    exact (hext w hw).trans ((hcopies' w (hmem hw)).2 x hx)

/-- A condition that holds in a frame if and only if it does in its extensions selects the extensions of what it
selects. -/
theorem ExtendsAll.filter (h : ExtendsAll new frames wider) {p q : Frame → Bool}
    (hpq : ∀ frame ∈ frames, ∀ w, frame.Extends new w → q w = p frame) :
    ExtendsAll new (frames.filter p) (wider.filter q) := by
  obtain ⟨copies, rfl, hcopies⟩ := h
  refine ⟨copies, ?_, fun frame hframe => hcopies frame (mem_of_mem_filter hframe)⟩
  rw [filter_flatMap]
  induction frames with
  | nil => rfl
  | cons frame rest ih =>
    have hframe (w : Frame) (hw : w ∈ copies frame) : q w = p frame :=
      hpq frame mem_cons_self w ((hcopies frame mem_cons_self).2 w hw)
    rw [flatMap_cons, ih (fun f hf => hpq f (mem_cons_of_mem _ hf)) fun f hf => hcopies f (mem_cons_of_mem _ hf)]
    cases hp : p frame with
    | true =>
      rw [filter_cons_of_pos hp, flatMap_cons, List.filter_eq_self.2 fun w hw => (hframe w hw).trans hp]
    | false =>
      have hnil : (copies frame).filter q = [] :=
        filter_eq_nil_iff.2 fun w hw => by rw [hframe w hw, hp]; exact Bool.false_ne_true
      rw [filter_cons_of_neg (by rw [hp]; exact Bool.false_ne_true), hnil, nil_append]

/-- Whether a source is a left join of a derived table with a new identity. -/
def Source.IsLeftJoin (new : TableId → Prop) (source : Source) : Prop :=
  ∃ id aliasName query predicate, source = .joinedOn .left (.derived id aliasName query) predicate ∧ new id

/-- A left join keeps every frame. -/
theorem joinWhere_left {id : TableId} (hid : new id) {r : Relation} {condition : Frame → Except Error Bool} {frame : Frame}
    (h : joinWhere .left id r condition frame = .ok wider) : wider ≠ [] ∧ ∀ w ∈ wider, frame.Extends new w := by
  obtain ⟨matched, hmatched, h⟩ := Except.bind_eq_ok_iff.1 h
  rw [Except.pure_eq_ok_iff] at h
  have hextend (row : Option Row) : frame.Extends new (frame.extend id r.columns row) :=
    ⟨[⟨id, r.columns, row⟩], rfl, fun b hb => by rw [mem_singleton.1 hb]; exact hid⟩
  cases matched with
  | nil =>
    subst h
    exact ⟨cons_ne_nil _ _, fun w hw => mem_singleton.1 hw ▸ hextend none⟩
  | cons first rest =>
    subst h
    refine ⟨cons_ne_nil _ _, fun w (hw : w ∈ first :: rest) => ?_⟩
    rw [(Except.filterM_eq_ok_iff.1 hmatched).2] at hw
    obtain ⟨row, -, rfl⟩ := mem_map.1 (mem_of_mem_filter hw)
    exact hextend (some row)

theorem extendsAll_of_mapM {f : Frame → Except Error (List Frame)} {joined : List (List Frame)}
    (hf : ∀ frame found, f frame = .ok found → found ≠ [] ∧ ∀ w ∈ found, frame.Extends new w)
    (h : frames.mapM f = .ok joined) : ExtendsAll new frames joined.flatten := by
  have hmap := Except.mapM_eq_ok_iff.1 h
  refine ⟨fun frame => (f frame).toOption.getD [], ?_, fun frame hframe => ?_⟩
  · have hjoined := congrArg (List.map fun x : Except Error (List Frame) => x.toOption.getD []) hmap
    rw [map_map, map_map] at hjoined
    rw [flatMap_def]
    exact congrArg List.flatten ((map_id' joined).symm.trans hjoined.symm)
  · have hmem := mem_map_of_mem (f := f) hframe
    rw [hmap] at hmem
    obtain ⟨found, -, hfound⟩ := mem_map.1 hmem
    simp only [← hfound]
    exact hf frame found hfound.symm

theorem Source.joinAll_append (env : Environment) (sources more : List Source) (frames outer : List Frame) :
    Source.joinAll env (sources ++ more) frames outer =
      Source.joinAll env sources frames outer >>= fun frames => Source.joinAll env more frames outer := by
  induction sources generalizing frames with
  | nil => rfl
  | cons source rest ih => simp only [cons_append, joinAll_cons, ih, bind_assoc]

theorem Source.joinAll_extends {env : Environment} {outer : List Frame} {joins : List Source}
    (hjoins : ∀ join ∈ joins, join.IsLeftJoin new) (h : Source.joinAll env joins frames outer = .ok wider) :
    ExtendsAll new frames wider := by
  induction joins generalizing frames with
  | nil =>
    cases h
    exact ExtendsAll.refl _
  | cons join rest ih =>
    obtain ⟨⟨id, aliasName, query, predicate, rfl, hid⟩, hrest⟩ := forall_mem_cons.1 hjoins
    obtain ⟨r, -, h⟩ := Except.bind_eq_ok_iff.1 h
    obtain ⟨joined, hjoined, h⟩ := Except.bind_eq_ok_iff.1 h
    exact (extendsAll_of_mapM (fun _ _ hfound => joinWhere_left hid hfound) hjoined).trans (ih hrest h)

/-! ## Selects under left joins -/

namespace Select

/-- The select with more joins, columns and orderings behind its own. -/
def joinedBy (s : Select) (joins : List Source) (columns : List Projection) (terms : List SortTerm) : Select :=
  { s with
    projections := s.projections ++ columns
    sources := s.sources ++ joins
    orderings := s.orderings ++ terms }

/-- Whether a select is another one under left joins with new identities, with columns of these and any orderings behind
its own. -/
def LeftJoins (new : TableId → Prop) (s joined : Select) : Prop :=
  ∃ joins columns terms, joined = s.joinedBy joins columns terms ∧ (∀ join ∈ joins, join.IsLeftJoin new) ∧
    ∀ p ∈ columns, ∃ c, p.expr = .column c ∧ new c.table

/-- Whether what a select evaluates in a frame refers to known identities only. -/
structure RefersTo (known : TableId → Prop) (s : Select) : Prop where
  projections : ∀ p ∈ s.projections, ∀ id ∈ p.expr.references, known id
  predicate : ∀ e ∈ s.predicate, ∀ id ∈ e.references, known id
  orderings : ∀ t ∈ s.orderings, ∀ id ∈ t.expr.references, known id

variable {env : Environment} {s joined : Select} {outer : List Frame} {f w : Frame}

namespace LeftJoins

theorem rowWise (h : LeftJoins new s joined) (hs : s.RowWise) : joined.RowWise := by
  obtain ⟨joins, columns, terms, rfl, -, hcolumns⟩ := h
  refine { grouped := ?_, unnumbered := ?_, distinct := hs.distinct, limit := hs.limit, offset := hs.offset }
  · have hnone : columns.any (·.expr.containsAggregate) = false := by
      rw [any_eq_false]
      intro p hp
      obtain ⟨c, hc, -⟩ := hcolumns p hp
      rw [hc]
      exact Bool.false_ne_true
    have hgrouped := hs.grouped
    simp only [grouped, isGrouped, joinedBy, any_append, hnone, Bool.or_false] at hgrouped ⊢
    exact hgrouped
  · refine forall_mem_append.2 ⟨hs.unnumbered, fun p hp => ?_⟩
    obtain ⟨c, hc, -⟩ := hcolumns p hp
    rw [hc]
    rfl

/-- What keeps frames under left joins keeps frames without them, and these are extended. -/
theorem exists_keptFrames (h : LeftJoins new s joined) (hknown : s.RefersTo fun id => ¬new id) {wider : List Frame}
    (hwider : joined.keptFrames env outer = .ok wider) :
    ∃ kept, s.keptFrames env outer = .ok kept ∧ ExtendsAll new kept wider := by
  obtain ⟨joins, columns, terms, rfl, hjoins, -⟩ := h
  obtain ⟨all, hall, hkept⟩ := Except.bind_eq_ok_iff.1 hwider
  have happend : Source.joinAll env (s.sources ++ joins) [[]] outer = .ok all := hall
  rw [Source.joinAll_append] at happend
  obtain ⟨frames, hframes, hafter⟩ := Except.bind_eq_ok_iff.1 happend
  have hextends := Source.joinAll_extends hjoins hafter
  obtain ⟨hholds, rfl⟩ := Except.filterM_eq_ok_iff.1 hkept
  have halike {f w : Frame} (hfw : f.Extends new w) := Expr.holdsOption_alike
    (fun e he => Expr.eval_alike _ env e (hknown.predicate e he)) (Scope.alike_ofRow (hfw.bindAlike outer))
  refine ⟨_, Except.bind_eq_ok_iff.2 ⟨frames, hframes, Except.filterM_eq_ok_iff.2 ⟨fun f hf => ?_, rfl⟩⟩,
    hextends.filter fun f _ w hfw => congrArg Except.saysYes (halike hfw).symm⟩
  obtain ⟨copies, rfl, hcopies⟩ := hextends
  obtain ⟨w, hw⟩ := exists_mem_of_ne_nil _ (hcopies f hf).1
  obtain ⟨b, hb⟩ := hholds w (mem_flatMap.2 ⟨f, hf, hw⟩)
  exact ⟨b, (halike ((hcopies f hf).2 w hw)).trans hb⟩

/-- An extended frame has a row that begins with the row of the frame. -/
theorem evalAll_eq (h : LeftJoins new s joined) (hknown : s.RefersTo fun id => ¬new id) (hfw : f.Extends new w)
    (hw : joined.Gives env outer w) : Projection.evalAll env s.projections [] (.ofRow f outer) =
      .ok ((joined.rowOf env outer w).take s.width) := by
  obtain ⟨joins, columns, terms, rfl, -, -⟩ := h
  have hreads : ∀ p ∈ s.projections, p.expr.ReadsAlike (fun id => ¬new id) env := fun p hp =>
    Expr.eval_alike _ env p.expr (hknown.projections p hp)
  rw [Projection.evalAll_alike hreads (Scope.alike_ofRow (hfw.bindAlike outer)) []]
  exact Projection.evalAll_take hw.row

theorem take_rowOf (h : LeftJoins new s joined) (hknown : s.RefersTo fun id => ¬new id) (hfw : f.Extends new w)
    (hw : joined.Gives env outer w) : (joined.rowOf env outer w).take s.width = s.rowOf env outer f := by
  conv_rhs => rw [rowOf, h.evalAll_eq hknown hfw hw]
  rfl

/-- What refers to known identities is not found among the new columns. -/
theorem placeOf (h : LeftJoins new s joined) {e : Expr} (he : ∀ id ∈ e.references, ¬new id) :
    joined.placeOf e = s.placeOf e := by
  obtain ⟨joins, columns, terms, rfl, -, hcolumns⟩ := h
  have hnone : columns.findIdx? (·.expr == e) = none := by
    rw [findIdx?_eq_none_iff]
    intro p hp
    obtain ⟨c, hc, hnew⟩ := hcolumns p hp
    rw [hc, Bool.eq_false_iff]
    intro heq
    cases e with
    | column d =>
      obtain rfl : c = d := of_decide_eq_true heq
      exact he c.table mem_cons_self hnew
    | _ => cases heq
  have happend : (s.joinedBy joins columns terms).placeOf e =
      (s.placeOf e).or ((columns.findIdx? (·.expr == e)).map (· + s.width)) := findIdx?_append
  rw [happend, hnone, Option.map_none, Option.or_none]

theorem keyOf (h : LeftJoins new s joined) (hknown : s.RefersTo fun id => ¬new id) (hfw : f.Extends new w)
    (hw : joined.Gives env outer w) {e : Expr} (he : ∀ id ∈ e.references, ¬new id) :
    joined.keyOf env outer e w = s.keyOf env outer e f := by
  rw [Select.keyOf, Select.keyOf, h.placeOf he]
  cases hplace : s.placeOf e with
  | none =>
    have heval := Expr.eval_alike (fun id => ¬new id) env e he _ _ (Scope.alike_ofRow (hfw.bindAlike outer))
    simp only [Expr.sortKey, heval]
  | some i =>
    rw [Expr.sortKey, Expr.sortKey, ← h.take_rowOf hknown hfw hw, getElem?_take_of_lt (placeOf_lt hplace)]

/-- Left joins come after the order that the select has without them. -/
theorem frameLe (h : LeftJoins new s joined) (hknown : s.RefersTo fun id => ¬new id) {f' w' : Frame}
    (hfw : f.Extends new w) (hfw' : f'.Extends new w') (hw : joined.Gives env outer w) (hw' : joined.Gives env outer w')
    (hle : joined.frameLe env outer joined.orderings w w') : s.frameLe env outer s.orderings f f' := by
  have hkeys : compareBy (joined.keyOf env outer) s.orderings w w' = compareBy (s.keyOf env outer) s.orderings f f' := by
    rw [compareBy, compareBy,
      map_congr_left fun t ht => h.keyOf hknown hfw hw (hknown.orderings t ht),
      map_congr_left fun t ht => h.keyOf hknown hfw' hw' (hknown.orderings t ht)]
  obtain ⟨joins, columns, terms, rfl, -, -⟩ := h
  simp only [Select.frameLe, joinedBy, compareBy_append, bne_iff_ne] at hle ⊢
  intro hgt
  rw [joinedBy] at hkeys
  rw [hkeys, hgt] at hle
  exact hle rfl

/-- The first of each run of copies are the rows in the order of the select, by whatever terms that order is given. -/
theorem firstOfRuns_rows (h : LeftJoins new s joined) (hs : s.RowWise) (hknown : s.RefersTo fun id => ¬new id)
    {terms : List SortTerm} {kept : List Frame} (hkept : s.keptFrames env outer = .ok kept)
    (hsorts : Sorts (s.frameLe env outer terms) kept)
    (hterms : ∀ a ∈ kept, ∀ b ∈ kept, s.frameLe env outer s.orderings a b → s.frameLe env outer terms a b)
    (hstrict : (kept.mergeSort (s.frameLe env outer terms)).Pairwise fun a b => ¬s.frameLe env outer terms b a)
    {κ : Type} [DecidableEq κ] {key : Row → κ}
    (hkey : ∀ a ∈ kept, ∀ b ∈ kept, key (s.rowOf env outer a) = key (s.rowOf env outer b) → a = b)
    {r : Relation} (hrun : joined.run env outer = .ok r) :
    firstOfRuns key (r.rows.map (·.take s.width)) =
      (kept.mergeSort (s.frameLe env outer terms)).map (s.rowOf env outer) := by
  obtain ⟨wider, hwider, hgives, -, hrows⟩ := (h.rowWise hs).run_eq_ok hrun
  obtain ⟨_, hkept', copies, rfl, hcopies⟩ := h.exists_keptFrames hknown hwider
  obtain rfl := Except.ok.inj (hkept.symm.trans hkept')
  have hcopy {f w : Frame} (hf : f ∈ kept) (hw : w ∈ copies f) : f.Extends new w ∧ joined.Gives env outer w :=
    ⟨(hcopies f hf).2 w hw, hgives w (mem_flatMap.2 ⟨f, hf, hw⟩)⟩
  rw [hrows, map_map]
  refine firstOfRuns_mergeSort_flatMap hsorts (fun f hf => (hcopies f hf).1) ?_ ?_ ?_ hstrict hkey
  · intro f hf w hw
    exact h.take_rowOf hknown (hcopy hf hw).1 (hcopy hf hw).2
  · intro w w'
    simp only [Select.frameLe, compareBy_swap _ _ w w']
    cases compareBy (joined.keyOf env outer) joined.orderings w w' <;> rfl
  · intro f hf f' hf' w hw w' hw' hle
    exact hterms f hf f' hf' (h.frameLe hknown (hcopy hf hw).1 (hcopy hf' hw').1 (hcopy hf hw).2 (hcopy hf' hw').2 hle)

end LeftJoins

/-! ## Ordering by identifiers -/

/-- Whether rows differ at one of these places, as far as comparing values tells. -/
def DifferAt (places : List Nat) (a b : Row) : Prop :=
  ∃ i ∈ places, (a[i]?.getD .null).sortOrder (b[i]?.getD .null) ≠ .eq

instance (places : List Nat) (a b : Row) : Decidable (DifferAt places a b) :=
  inferInstanceAs (Decidable (∃ i ∈ places, (a[i]?.getD .null).sortOrder (b[i]?.getD .null) ≠ .eq))

/-- What stands at these places of a row, as a key. -/
def identifierAt (places : List Nat) (row : Row) : Key :=
  Key.ofValues (places.map fun i => row[i]?.getD .null)

theorem orderByProjections_cons {i : Nat} {rest : List Nat} (h : s.orderByProjections (i :: rest) = .ok ordered) :
    ∃ p, s.projections[i]? = some p ∧ (s.appendOrdering ⟨p.expr, true⟩).orderByProjections rest = .ok ordered := by
  obtain ⟨expr, hexpr, h⟩ := Except.bind_eq_ok_iff.1 h
  unfold projectionExpr at hexpr
  cases hp : s.projections[i]? with
  | none =>
    rw [hp] at hexpr
    cases hexpr
  | some p =>
    rw [hp] at hexpr
    cases hexpr
    exact ⟨p, rfl, h⟩

/-- Ordering by places changes the orderings only, and adds none but those at the places. -/
theorem orderByProjections_eq_ok (h : s.orderByProjections places = .ok ordered) :
    ∃ terms, ordered = { s with orderings := terms } ∧ terms ⊆ s.orderings ++ s.termsAt places := by
  induction places generalizing s with
  | nil =>
    cases h
    exact ⟨ordered.orderings, by cases ordered; rfl, subset_append_left _ _⟩
  | cons i rest ih =>
    obtain ⟨p, hp, h⟩ := orderByProjections_cons h
    rw [termsAt_cons hp]
    unfold appendOrdering at h
    split at h
    · obtain ⟨terms, hterms, hsub⟩ := ih h
      exact ⟨terms, hterms, fun t ht => mem_append.2 ((mem_append.1 (hsub ht)).imp_right (mem_cons_of_mem _))⟩
    · obtain ⟨terms, hterms, hsub⟩ := ih h
      rw [← singleton_append, ← append_assoc]
      exact ⟨terms, hterms, hsub⟩

section Comparing

variable {key : Expr → Frame → Value} {a b : Frame}

/-- Places that are listed once give the same order. -/
theorem compareBy_mergeIndices (places more : List Nat) :
    compareBy key (s.orderings ++ s.termsAt (mergeIndices places more)) a b =
      compareBy key (s.orderings ++ s.termsAt (places ++ more)) a b := by
  induction more generalizing places with
  | nil => rw [append_nil]; rfl
  | cons i more ih =>
    have hstep : mergeIndices places (i :: more) =
        mergeIndices (if places.contains i then places else places ++ [i]) more := rfl
    rw [hstep, ih]
    split
    · rename_i hi
      have hi : i ∈ places := by simpa using hi
      cases hp : s.projections[i]? with
      | none => simp [termsAt, hp]
      | some p =>
        rw [termsAt_append, termsAt_append, termsAt_cons hp, ← append_assoc, ← append_assoc]
        exact (compareBy_absorb (mem_append_right _ (mem_termsAt.2 ⟨i, hi, p, hp, rfl⟩)) rfl _).symm
    · rw [append_assoc, singleton_append]

/-- Ordering by places orders as if no ordering had been left out. -/
theorem compareBy_orderByProjections (h : s.orderByProjections places = .ok ordered)
    (hrecognized : ∀ i ∈ places, ∀ p, s.projections[i]? = some p → s.Recognizes p.expr) :
    compareBy key ordered.orderings a b = compareBy key (s.orderings ++ s.termsAt places) a b := by
  induction places generalizing s with
  | nil =>
    cases h
    rw [termsAt, filterMap_nil, append_nil]
  | cons i rest ih =>
    obtain ⟨p, hp, h⟩ := orderByProjections_cons h
    obtain ⟨hi, hrest⟩ := forall_mem_cons.1 hrecognized
    rw [termsAt_cons hp]
    unfold appendOrdering at h
    split at h
    · rename_i hany
      obtain ⟨u, hu, heq⟩ := any_eq_true.1 hany
      rw [ih h hrest]
      exact (compareBy_absorb hu ((hi p hp).orderings u hu heq) _).symm
    · have hrest' : ∀ j ∈ rest, ∀ q, s.projections[j]? = some q →
          Recognizes { s with orderings := s.orderings ++ [⟨p.expr, true⟩] } q.expr := by
        intro j hj q hq
        refine ⟨(hrest j hj q hq).projections, forall_mem_append.2 ⟨(hrest j hj q hq).orderings, ?_⟩⟩
        exact forall_mem_singleton.2 ((hrest j hj q hq).projections p (mem_of_getElem? hp))
      rw [← singleton_append, ← append_assoc]
      exact ih h hrest'

end Comparing

theorem RowWise.orderedBy (h : s.RowWise) (places : List Nat) : (s.orderedBy places).RowWise :=
  ⟨h.grouped, h.unnumbered, h.distinct, h.limit, h.offset⟩

theorem Gives.length_rowOf (h : s.Gives env outer f) : (s.rowOf env outer f).length = s.width :=
  (Projection.evalAll_eq_ok_iff.1 h.row).1

/-- The sort key under a projection is its cell. -/
theorem Gives.keyOf_eq (h : (s.orderedBy places).Gives env outer f) {i : Nat} (hi : i ∈ places)
    {p : Projection} (hp : s.projections[i]? = some p) (hrecognized : s.Recognizes p.expr) :
    s.keyOf env outer p.expr f = (s.rowOf env outer f)[i]?.getD .null := by
  have hkey : p.expr.sortKey env (s.placeOf p.expr) (s.rowOf env outer f) (.ofRow f outer) =
      .ok (s.keyOf env outer p.expr f) :=
    h.key ⟨p.expr, true⟩ (mem_append_right _ (mem_termsAt.2 ⟨i, hi, p, hp, rfl⟩))
  exact hrecognized.sortKey_eq (Projection.numbered_nil _) h.row hp hkey

theorem DifferAt.symm {a b : Row} (h : DifferAt places a b) : DifferAt places b a := by
  obtain ⟨i, hi, hne⟩ := h
  refine ⟨i, hi, fun heq => hne ?_⟩
  rw [Value.sortOrder_swap, heq]
  rfl

theorem DifferAt.mono {places more : List Nat} {a b : Row} (h : DifferAt places a b) (hsub : places ⊆ more) :
    DifferAt more a b :=
  h.imp fun _ hi => ⟨hsub hi.1, hi.2⟩

/-- Rows with one identifier do not differ there. -/
theorem not_differAt_of_identifierAt_eq {a b : Row} (h : identifierAt places a = identifierAt places b) :
    ¬DifferAt places a b := by
  rintro ⟨i, hi, hne⟩
  simp only [identifierAt, Key.ofValues, map_map] at h
  have hi : KeyPart.ofValue (a[i]?.getD .null) = KeyPart.ofValue (b[i]?.getD .null) := List.map_inj_left.1 h i hi
  exact hne ((Value.sortOrder_congr hi _).trans (Ordering.eq_eq_of_eq_swap (Value.sortOrder_swap _ _)))

/-- Rows that differ at places of the order do not compare as equal. -/
theorem compareBy_ne_eq_of_differAt {places within : List Nat} {a b : Frame}
    (ha : (s.orderedBy places).Gives env outer a) (hb : (s.orderedBy places).Gives env outer b)
    (hrecognized : ∀ i ∈ places, ∀ p, s.projections[i]? = some p → s.Recognizes p.expr) (hwithin : within ⊆ places)
    (h : DifferAt within (s.rowOf env outer a) (s.rowOf env outer b)) :
    compareBy (s.keyOf env outer) (s.orderings ++ s.termsAt within) a b ≠ .eq := by
  obtain ⟨i, hi, hne⟩ := h
  intro heq
  cases hp : s.projections[i]? with
  | none =>
    have hnone {f : Frame} (hf : (s.orderedBy places).Gives env outer f) : (s.rowOf env outer f)[i]? = none :=
      getElem?_eq_none (hf.length_rowOf ▸ List.getElem?_eq_none_iff.1 hp)
    rw [hnone ha, hnone hb] at hne
    exact hne rfl
  | some p =>
    have hp' := hrecognized i (hwithin hi) p hp
    rw [← ha.keyOf_eq (hwithin hi) hp hp', ← hb.keyOf_eq (hwithin hi) hp hp'] at hne
    exact hne (compareBy_eq_eq.1 heq _ (mem_append_right _ (mem_termsAt.2 ⟨i, hi, p, hp, rfl⟩)))

/-- A select under left joins, ordered by identifiers that tell its rows apart, has runs for the rows of the select that
is ordered by these and further identifiers. -/
theorem LeftJoins.firstOfRuns_orderedBy {places more identifier : List Nat}
    (hs : s.RowWise) (hknown : s.RefersTo fun id => ¬new id)
    (hrecognized : ∀ i ∈ places ++ more, ∀ p, s.projections[i]? = some p → s.Recognizes p.expr)
    (hordered : s.orderByProjections (mergeIndices [] places) = .ok ordered) (h : LeftJoins new ordered joined)
    {r wide : Relation} (hrun : (s.orderedBy (places ++ more)).run env outer = .ok r)
    (hsorts : (s.orderedBy (places ++ more)).SortsConsistently env outer) (hunique : r.rows.Pairwise (DifferAt places))
    (hunique' : r.rows.Pairwise (DifferAt identifier)) (hwide : joined.run env outer = .ok wide) :
    firstOfRuns (identifierAt identifier) (wide.rows.map (·.take s.width)) = r.rows := by
  obtain ⟨kept, hkept, hgives, hkeyed, hrows⟩ := (hs.orderedBy (places ++ more)).run_eq_ok hrun
  let terms := s.orderings ++ s.termsAt (places ++ more)
  have hrows : r.rows = (kept.mergeSort (s.frameLe env outer terms)).map (s.rowOf env outer) := hrows
  have hsorted : Sorts (s.frameLe env outer terms) kept := by
    have htransitive := hsorts kept _ hkept hkeyed
    rw [map_map] at htransitive
    exact (htransitive.sorts (terms.map (·.ascending)) (by simp [terms, Select.orderedBy])).of_map
  have hdiffer {P : List Nat} (hP : r.rows.Pairwise (DifferAt P)) : (kept.mergeSort (s.frameLe env outer terms)).Pairwise
      fun a b => DifferAt P (s.rowOf env outer a) (s.rowOf env outer b) := by
    rw [hrows] at hP
    exact pairwise_map.1 hP
  have happart {P : List Nat} (hP : r.rows.Pairwise (DifferAt P)) {a b : Frame} (ha : a ∈ kept) (hb : b ∈ kept)
      (hne : a ≠ b) : DifferAt P (s.rowOf env outer a) (s.rowOf env outer b) := by
    have : Std.Symm fun a b => DifferAt P (s.rowOf env outer a) (s.rowOf env outer b) := ⟨fun _ _ => DifferAt.symm⟩
    exact (hdiffer hP).forall (List.mem_mergeSort.2 ha) (List.mem_mergeSort.2 hb) hne
  have hplaces : ∀ i ∈ mergeIndices [] places, ∀ p, s.projections[i]? = some p → s.Recognizes p.expr := fun i hi =>
    hrecognized i (mem_append_left more (mergeIndices_subset [] places hi))
  have hcompare (a b : Frame) : compareBy (s.keyOf env outer) ordered.orderings a b =
      compareBy (s.keyOf env outer) (s.orderings ++ s.termsAt places) a b :=
    (compareBy_orderByProjections hordered hplaces).trans (compareBy_mergeIndices [] places)
  obtain ⟨own, rfl, hsub⟩ := orderByProjections_eq_ok hordered
  rw [hrows]
  refine h.firstOfRuns_rows ⟨hs.grouped, hs.unnumbered, hs.distinct, hs.limit, hs.offset⟩ ?_ hkept hsorted ?_ ?_ ?_ hwide
  · refine ⟨hknown.projections, hknown.predicate, fun t ht => ?_⟩
    rcases mem_append.1 (hsub ht) with ht | ht
    · exact hknown.orderings t ht
    · obtain ⟨i, -, p, hp, rfl⟩ := mem_termsAt.1 ht
      exact hknown.projections p (mem_of_getElem? hp)
  · -- The first identifier decides between different rows, whether or not others follow.
    intro a ha b hb hle
    have hterms : compareBy (s.keyOf env outer) terms a b = (compareBy (s.keyOf env outer) own a b).then
        (compareBy (s.keyOf env outer) (s.termsAt more) a b) := by
      rw [hcompare, ← compareBy_append, append_assoc, ← termsAt_append]
    have hle : compareBy (s.keyOf env outer) own a b ≠ .gt := bne_iff_ne.1 hle
    refine bne_iff_ne.2 ?_
    by_cases hab : a = b
    · rw [hab]
      exact fun hgt => Ordering.noConfusion ((compareBy_self _).symm.trans hgt)
    · have hne := compareBy_ne_eq_of_differAt (hgives a ha) (hgives b hb) hrecognized (subset_append_left _ _)
        (happart hunique ha hb hab)
      rw [← hcompare] at hne
      change compareBy (s.keyOf env outer) own a b ≠ .eq at hne
      change compareBy (s.keyOf env outer) terms a b ≠ .gt
      rw [hterms]
      cases hown : compareBy (s.keyOf env outer) own a b with
      | lt => exact Ordering.noConfusion
      | eq => exact absurd hown hne
      | gt => exact absurd hown hle
  · refine (hsorted.pairwise_mergeSort.and (hdiffer hunique)).imp_of_mem fun {a b} ha hb hab hba => ?_
    have hne := compareBy_ne_eq_of_differAt (hgives a (List.mem_mergeSort.1 ha)) (hgives b (List.mem_mergeSort.1 hb))
      hrecognized (List.Subset.refl _) (hab.2.mono (subset_append_left _ _))
    have hab : compareBy (s.keyOf env outer) terms a b ≠ .gt := bne_iff_ne.1 hab.1
    have hba : compareBy (s.keyOf env outer) terms b a ≠ .gt := bne_iff_ne.1 hba
    rw [compareBy_swap _ _ a b] at hba
    cases hterms : compareBy (s.keyOf env outer) terms a b with
    | lt => rw [hterms] at hba; exact hba rfl
    | eq => exact hne hterms
    | gt => exact hab hterms
  · intro a ha b hb heq
    by_contra hne
    exact not_differAt_of_identifierAt_eq heq (happart hunique' ha hb hne)

end Select

end QueryShaping
