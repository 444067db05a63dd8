import QueryShaping.Proofs.Query.Pushdown

/-!
# Ordering a select by its own columns

A select that is ordered by some of its projections, after all that it is ordered by already, sorts its rows by their
cells at these places. So it does not matter whether it is pushed down before or after: the columns of the derived table
are the same, and sorting and the removal of repetitions can be exchanged. Only a limit keeps the two apart, since it cuts
the rows that have been sorted so far.

A projection is looked up by equality. It has to be the only one of its kind for its own cell to be found.
-/

namespace QueryShaping

open List

variable {places : List Nat}

namespace Select

/-- The ascending orderings by the projections at these places. -/
def termsAt (s : Select) (places : List Nat) : List SortTerm :=
  places.filterMap fun i => s.projections[i]?.map fun p => ⟨p.expr, true⟩

/-- The select with the projections at these places as last orderings. -/
def orderedBy (s : Select) (places : List Nat) : Select :=
  { s with orderings := s.orderings ++ s.termsAt places }

/-- Whether what counts as equal to an expression, among what a select projects and is ordered by, is that expression. -/
structure Recognizes (s : Select) (e : Expr) : Prop where
  projections : ∀ p ∈ s.projections, (p.expr == e) → p.expr = e
  orderings : ∀ t ∈ s.orderings, (t.expr == e) → t.expr = e

/-- The places below a width, each with the ascending direction. -/
def ascendingBelow (width : Nat) (places : List Nat) : List (Nat × Bool) :=
  (places.filter (· < width)).map fun i => (i, true)

variable {s : Select} {env : Environment}

theorem termsAt_append (places more : List Nat) : s.termsAt (places ++ more) = s.termsAt places ++ s.termsAt more :=
  filterMap_append

theorem termsAt_cons {i : Nat} {p : Projection} (hp : s.projections[i]? = some p) (rest : List Nat) :
    s.termsAt (i :: rest) = ⟨p.expr, true⟩ :: s.termsAt rest := by
  rw [termsAt, filterMap_cons, hp]
  rfl

theorem mem_termsAt {t : SortTerm} :
    t ∈ s.termsAt places ↔ ∃ i ∈ places, ∃ p, s.projections[i]? = some p ∧ t = ⟨p.expr, true⟩ := by
  simp only [termsAt, mem_filterMap, Option.map_eq_some_iff, eq_comm (b := t)]

theorem termsAt_cons_of_none {i : Nat} (hi : s.projections[i]? = none) (rest : List Nat) :
    s.termsAt (i :: rest) = s.termsAt rest := by
  rw [termsAt, filterMap_cons, hi]
  rfl

theorem ascendingBelow_cons (width i : Nat) (rest : List Nat) : ascendingBelow width (i :: rest) =
    if i < width then (i, true) :: ascendingBelow width rest else ascendingBelow width rest := by
  by_cases hi : i < width <;> simp [ascendingBelow, hi]

theorem lt_of_mem_ascendingBelow {width : Nat} {place : Nat × Bool}
    (h : place ∈ ascendingBelow width places) : place.1 < width := by
  obtain ⟨i, hi, rfl⟩ := mem_map.1 h
  simpa using (mem_filter.1 hi).2

theorem map_ascending_termsAt (s : Select) (places : List Nat) :
    (s.termsAt places).map (·.ascending) = (ascendingBelow s.width places).map (·.2) := by
  induction places with
  | nil => rfl
  | cons i rest ih =>
    rw [ascendingBelow_cons]
    cases hp : s.projections[i]? with
    | none =>
      rw [termsAt_cons_of_none hp, if_neg (Nat.not_lt.2 (List.getElem?_eq_none_iff.1 hp)), ih]
    | some p =>
      rw [termsAt_cons hp, if_pos (List.getElem?_eq_some_iff.1 hp).1, map_cons, map_cons, ih]

/-! ## Sort keys -/

section Keys

variable {numbers : List (Option Nat)} {scope : Scope} {row : Row}

/-- The sort key under a projection is its cell. -/
theorem Recognizes.sortKey_eq {p : Projection} (h : s.Recognizes p.expr) (hn : Projection.Numbered s.projections numbers)
    (hrow : Projection.evalAll env s.projections numbers scope = .ok row) {i : Nat} (hp : s.projections[i]? = some p)
    {v : Value} (hv : p.expr.sortKey env (s.placeOf p.expr) row scope = .ok v) : v = row[i]?.getD .null := by
  cases hplace : s.placeOf p.expr with
  | none =>
    rw [hplace] at hv
    exact (Projection.cell_eq_of_eval hn hrow hp hv).symm
  | some j =>
    obtain ⟨hj, heq, -⟩ := findIdx?_eq_some_iff_getElem.1 hplace
    rw [hplace] at hv
    rw [← Except.ok.inj hv]
    exact Projection.cells_eq hn hrow (getElem?_eq_getElem hj) hp (h.projections _ (getElem_mem hj) heq)

theorem mapM_sortKey_termsAt (hn : Projection.Numbered s.projections numbers)
    (hrow : Projection.evalAll env s.projections numbers scope = .ok row)
    (hrecognized : ∀ i ∈ places, ∀ p, s.projections[i]? = some p → s.Recognizes p.expr) {keys : List Value}
    (h : ((s.termsAt places).mapM fun t => t.expr.sortKey env (s.placeOf t.expr) row scope) = .ok keys) :
    keys = keysAt (ascendingBelow s.width places) row := by
  induction places generalizing keys with
  | nil =>
    cases h
    rfl
  | cons i rest ih =>
    obtain ⟨hi, hrest⟩ := forall_mem_cons.1 hrecognized
    rw [ascendingBelow_cons]
    cases hp : s.projections[i]? with
    | none =>
      rw [termsAt_cons_of_none hp] at h
      rw [if_neg (Nat.not_lt.2 (List.getElem?_eq_none_iff.1 hp)), ih hrest h]
    | some p =>
      rw [termsAt_cons hp, mapM_cons] at h
      obtain ⟨v, hv, h⟩ := Except.bind_eq_ok_iff.1 h
      obtain ⟨vs, hvs, h⟩ := Except.bind_eq_ok_iff.1 h
      cases h
      rw [if_pos (List.getElem?_eq_some_iff.1 hp).1, (hi p hp).sortKey_eq hn hrow hp hv, ih hrest hvs]
      rfl

/-- A row that is ordered by columns, too, has their cells as its last sort keys. -/
theorem keyedRow_orderedBy (hn : Projection.Numbered s.projections numbers)
    (hrecognized : ∀ i ∈ places, ∀ p, s.projections[i]? = some p → s.Recognizes p.expr) {wide : Row × List Value}
    (h : (s.orderedBy places).keyedRow env numbers scope = .ok wide) :
    ∃ keyed : Row × List Value, wide = (keyed.1, keyed.2 ++ keysAt (ascendingBelow s.width places) keyed.1) ∧
      s.keyedRow env numbers scope = .ok keyed := by
  obtain ⟨row, hrow, h⟩ := Except.bind_eq_ok_iff.1 h
  have hrow : Projection.evalAll env s.projections numbers scope = .ok row := hrow
  obtain ⟨keys, hkeys, h⟩ := Except.bind_eq_ok_iff.1 h
  cases h
  have hkeys : ((s.orderings ++ s.termsAt places).mapM fun t => t.expr.sortKey env (s.placeOf t.expr) row scope) =
      .ok keys := hkeys
  rw [mapM_append] at hkeys
  obtain ⟨own, hown, hkeys⟩ := Except.bind_eq_ok_iff.1 hkeys
  obtain ⟨last, hlast, hkeys⟩ := Except.bind_eq_ok_iff.1 hkeys
  cases hkeys
  refine ⟨(row, own), by rw [mapM_sortKey_termsAt hn hrow hrecognized hlast], ?_⟩
  exact Except.bind_eq_ok_iff.2 ⟨row, hrow, Except.bind_eq_ok_iff.2 ⟨own, hown, rfl⟩⟩

end Keys

/-- Rows that are ordered by columns, too, have their cells as last sort keys. -/
theorem keyedRows_orderedBy
    (hrecognized : ∀ i ∈ places, ∀ p, s.projections[i]? = some p → s.Recognizes p.expr) {frames outer : List Frame}
    {wide : List (Row × List Value)} (h : (s.orderedBy places).keyedRows env frames outer = .ok wide) :
    ∃ rows : List (Row × List Value),
      wide = rows.map (fun keyed => (keyed.1, keyed.2 ++ keysAt (ascendingBelow s.width places) keyed.1)) ∧
      s.keyedRows env frames outer = .ok rows := by
  obtain ⟨rows, hwide, hrows, -⟩ : ∃ rows : List (Row × List Value),
      wide = rows.map (fun keyed => (keyed.1, keyed.2 ++ keysAt (ascendingBelow s.width places) keyed.1)) ∧
      s.keyedRows env frames outer = .ok (rows.map id) ∧ ∀ keyed ∈ rows, True := by
    have hgrouped' : (s.orderedBy places).grouped = s.grouped := rfl
    rw [keyedRows, hgrouped'] at h
    rw [keyedRows]
    cases hgrouped : s.grouped with
    | true =>
      simp only [hgrouped, if_true] at h ⊢
      obtain ⟨groups, hgroups, h⟩ := Except.bind_eq_ok_iff.1 h
      have hgroups : s.groups env frames outer = .ok groups := hgroups
      rw [hgroups]
      refine Except.filterMapM_ok_of_views (fun group _ b hb => ?_) h
      obtain ⟨holds, hholds, hb⟩ := Except.bind_eq_ok_iff.1 hb
      have hholds : Expr.holdsOption env s.having (Scope.ofGroup group outer) = .ok holds := hholds
      simp only [hholds, bind, Except.bind]
      cases holds with
      | false =>
        cases hb
        exact ⟨none, rfl, rfl, fun _ _ => trivial⟩
      | true =>
        obtain ⟨wide, hwide, hb⟩ := Except.bind_eq_ok_iff.1 hb
        cases hb
        obtain ⟨keyed, rfl, hkeyed⟩ := keyedRow_orderedBy (Projection.numbered_nil _) hrecognized hwide
        refine ⟨some keyed, rfl, ?_, fun _ _ => trivial⟩
        simp only [if_true, hkeyed]
        rfl
    | false =>
      simp only [hgrouped, Bool.false_eq_true, if_false] at h ⊢
      obtain ⟨windows, hwindows, h⟩ := Except.bind_eq_ok_iff.1 h
      have hwindows : Projection.windows env s.projections frames outer = .ok windows := hwindows
      rw [hwindows]
      refine Except.mapM_ok_of_views (fun numbered hmem wide hwide => ?_) h
      have hn := Projection.numbered_of_windows hwindows (of_mem_zip hmem).2
      obtain ⟨keyed, rfl, hkeyed⟩ := keyedRow_orderedBy hn hrecognized hwide
      exact ⟨keyed, rfl, hkeyed, trivial⟩
  rw [map_id] at hrows
  exact ⟨rows, hwide, hrows⟩

/-! ## Pushing down and ordering -/

theorem orderedBy_overDerived {inner : Select} {width : Nat} (hwidth : width ≤ inner.width) (id : TableId)
    (aliasName : String) (places : List (Nat × Bool)) (last : List Nat) :
    (overDerived id aliasName inner width places).orderedBy last =
      overDerived id aliasName inner width (places ++ ascendingBelow width last) := by
  have hterms : (overDerived id aliasName inner width places).termsAt last = (ascendingBelow width last).filterMap
      fun place => inner.projections[place.1]?.map fun p => ⟨.column (outerColumn id aliasName p), place.2⟩ := by
    induction last with
    | nil => rfl
    | cons i rest ih =>
      rw [ascendingBelow_cons]
      by_cases hi : i < width
      · obtain ⟨p, hp⟩ : ∃ p, inner.projections[i]? = some p :=
          ⟨_, getElem?_eq_getElem (Nat.lt_of_lt_of_le hi hwidth)⟩
        have hq : (overDerived id aliasName inner width places).projections[i]? =
            some ⟨p.aliasName, .column (outerColumn id aliasName p)⟩ := by
          simp [overDerived, hi, hp]
        rw [termsAt_cons hq, if_pos hi, filterMap_cons, hp, ih]
        rfl
      · have hq : (overDerived id aliasName inner width places).projections[i]? = none := by
          simp [overDerived, Nat.not_lt.1 hi]
        rw [termsAt_cons_of_none hq, if_neg hi, ih]
  rw [orderedBy, hterms]
  simp only [overDerived, filterMap_append]

theorem sortsConsistently_overDerived {inner : Select} {width : Nat} {places : List (Nat × Bool)} {found : List Row}
    {outer : List Frame} (hnodup : inner.columns.Nodup) (hrun : inner.run env outer = .ok ⟨inner.columns, found⟩)
    (hfound : ∀ row ∈ found, row.length = inner.width) (hplaces : ∀ place ∈ places, place.1 < inner.width)
    (h : KeysSortTransitively (found.map (keysAt places))) (id : TableId) (aliasName : String) :
    (overDerived id aliasName inner width places).SortsConsistently env outer := by
  intro frames rows hframes hrows
  rw [keptFrames_overDerived hrun] at hframes
  cases hframes
  rw [keyedRows_overDerived hnodup hfound hplaces] at hrows
  cases hrows
  rwa [map_map]

theorem keysAt_append (places more : List (Nat × Bool)) (row : Row) :
    keysAt (places ++ more) row = keysAt places row ++ keysAt more row :=
  map_append

theorem keysAt_ascendingBelow_take (width : Nat) (places : List Nat) (row : Row) :
    keysAt (ascendingBelow width places) (row.take width) = keysAt (ascendingBelow width places) row :=
  map_congr_left fun place hplace => by rw [getElem?_take_of_lt (lt_of_mem_ascendingBelow hplace)]

/-- The rows of a select without a limit, when it is ordered by columns too, are found in the derived table into which it
is pushed down without these orderings. -/
theorem Hides.run_orderedBy_eq_ok {hidden : List Projection} (h : s.Hides hidden) (hs : s.Pushable)
    {places : List (Nat × Bool)} (hplaces : s.ShownAll hidden s.orderings places) (hlimited : s.limited = false)
    {last : List Nat} (hrecognized : ∀ i ∈ last, ∀ p, s.projections[i]? = some p → s.Recognizes p.expr)
    {outer : List Frame} (hsorts : (s.orderedBy last).SortsConsistently env outer) {r : Relation}
    (hrun : (s.orderedBy last).run env outer = .ok r) :
    ∃ found, (s.inner hidden false).run env outer = .ok ⟨(s.inner hidden false).columns, found⟩ ∧
      (∀ row ∈ found, row.length = (s.widen hidden).width) ∧
      KeysSortTransitively (found.map (keysAt (places ++ ascendingBelow s.width last))) ∧
      r = ⟨s.columns, (found.mergeSort (leAt (places ++ ascendingBelow s.width last))).map (·.take s.width)⟩ := by
  obtain ⟨hlimit, hoffset⟩ := bounds_of_not_limited hlimited
  rw [run_eq] at hrun
  obtain ⟨frames, hframes, hrun⟩ := Except.bind_eq_ok_iff.1 hrun
  obtain ⟨wide, hwide, hrun⟩ := Except.bind_eq_ok_iff.1 hrun
  have htransitive := hsorts frames wide hframes hwide
  obtain ⟨rows, rfl, hrows⟩ := keyedRows_orderedBy hrecognized hwide
  obtain ⟨fulls, rfl, hfulls, hlength⟩ := h.keyedRows hs.apart hplaces false hs.aggregates hrows
  have hview : (fulls.map fun full => (full.take s.width, keysAt places full)).map
      (fun keyed => (keyed.1, keyed.2 ++ keysAt (ascendingBelow s.width last) keyed.1)) =
      fulls.map fun full => (full.take s.width, keysAt (places ++ ascendingBelow s.width last) full) := by
    rw [map_map]
    refine map_congr_left fun full _ => ?_
    simp only [Function.comp_apply, keysAt_ascendingBelow_take, keysAt_append]
  have hascending : (s.orderings ++ s.termsAt last).map (·.ascending) =
      (places ++ ascendingBelow s.width last).map (·.2) := by
    rw [map_append, map_append, hplaces.ascending_eq, map_ascending_termsAt]
  rw [hview] at hrun htransitive
  rw [map_map] at htransitive
  have htransitive : KeysSortTransitively (fulls.map (keysAt (places ++ ascendingBelow s.width last))) := htransitive
  have hsorted := sorts_leAt htransitive
  rw [orderedBy, h.arrange_eq hascending hlength, cut, hlimit, hoffset, withoutRepetitions_mergeSort s.distinct hsorted]
    at hrun
  cases hrun
  have hsub := (withoutRepetitions_sublist s.distinct fulls).subset
  refine ⟨withoutRepetitions s.distinct fulls, ?_, fun row hrow => hlength row (hsub hrow), ?_, rfl⟩
  · exact run_inner hplaces false hframes hfulls (by rw [hoffset]; rfl) (by rw [hlimit]; rfl)
  · exact htransitive.mono (map_subset _ hsub)

/-- The select with some of its columns as last orderings. A limit holds for the rows as they were sorted before. -/
def orderedLast (s : Select) (id : TableId) (aliasName : String) (places : List Nat) : Select :=
  if s.limited then (s.pushDown id aliasName).orderedBy places else s.orderedBy places

/-- A select that is pushed down and then ordered by columns has the rows of the select in the order that it has when it
is ordered by these columns last. -/
theorem Pushable.run_orderedLast (hs : s.Pushable) {id : TableId} {aliasName : String} {last : List Nat}
    (hrecognized : s.limited = false → ∀ i ∈ last, ∀ p, s.projections[i]? = some p → s.Recognizes p.expr)
    {outer : List Frame} (hsorts : s.SortsConsistently env outer)
    (hsorts' : (s.orderedLast id aliasName last).SortsConsistently env outer) {roots r : Relation}
    (hroots : s.run env outer = .ok roots) (hrun : (s.orderedLast id aliasName last).run env outer = .ok r) :
    ((s.pushDown id aliasName).orderedBy last).run env outer = .ok r ∧
      ((s.pushDown id aliasName).orderedBy last).SortsConsistently env outer ∧ r.rows.Perm roots.rows := by
  obtain ⟨hidden, places, h, hplaces, hpushDown⟩ := hs.exists_pushDown_eq
  obtain ⟨found, hinner, hlength, rfl⟩ := h.run_eq_ok hs hplaces hsorts hroots
  have hwidth : s.width ≤ (s.inner hidden s.limited).width := width_le_widen s hidden
  have hplaces' : ∀ place ∈ places ++ ascendingBelow s.width last, place.1 < (s.widen hidden).width :=
    forall_mem_append.2 ⟨hplaces.lt_width, fun place hplace =>
      Nat.lt_of_lt_of_le (lt_of_mem_ascendingBelow hplace) (width_le_widen s hidden)⟩
  have hordered := h.run_overDerived hplaces' hinner hlength id aliasName
  have hperm (places places' : List (Nat × Bool)) : ((found.mergeSort (leAt places)).map (·.take s.width)).Perm
      ((found.mergeSort (leAt places')).map (·.take s.width)) :=
    ((mergeSort_perm _ _).trans (mergeSort_perm _ _).symm).map _
  unfold orderedLast at hsorts' hrun
  cases hlimited : s.limited with
  | true =>
    rw [hlimited, if_pos rfl] at hsorts' hrun
    refine ⟨hrun, hsorts', ?_⟩
    rw [hpushDown, orderedBy_overDerived hwidth, hordered] at hrun
    cases hrun
    exact hperm _ _
  | false =>
    rw [hlimited, if_neg Bool.false_ne_true] at hsorts' hrun
    obtain ⟨found', hinner', -, htransitive, rfl⟩ :=
      h.run_orderedBy_eq_ok hs hplaces hlimited (hrecognized hlimited) hsorts' hrun
    rw [hpushDown, orderedBy_overDerived hwidth]
    rw [hlimited] at hinner hordered ⊢
    rw [hinner] at hinner'
    cases hinner'
    refine ⟨hordered, ?_, hperm _ _⟩
    have hnodup : (s.inner hidden false).columns.Nodup := h.nodup
    have hwidth' : (s.inner hidden false).width = (s.widen hidden).width := rfl
    rw [← hwidth'] at hlength hplaces'
    exact sortsConsistently_overDerived hnodup hinner hlength hplaces' htransitive id aliasName

end Select

end QueryShaping
