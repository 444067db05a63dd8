import QueryShaping.Proofs.Shape.WellFormed
import QueryShaping.Revision.CollectionJoin

/-!
# Joining succeeds

Every step that joins the collections of a well-formed shape succeeds. The query that is joined to only gets wider, so
places that have been found stay places of columns, and the columns of an element query have places in the query it was
joined to. Each collection takes one number, in the order in which the shape has them.
-/

namespace QueryShaping

open List Joining

variable {identifier : List Nat} {count : Nat}

namespace Joining

variable {α β : Type} {fresh fresh' : Fresh}

/-- A step of joining that gives a value and leaves the numbers behind that are still free. -/
def Steps (x : Joining α) (fresh : Fresh) (a : α) (fresh' : Fresh) : Prop :=
  Id.run (x.run.run fresh) = (.ok a, fresh')

theorem steps_pure {a b : α} : Steps (pure a) fresh b fresh' ↔ a = b ∧ fresh = fresh' := by
  show ((Except.ok a, fresh) : Except Error α × Fresh) = (.ok b, fresh') ↔ _
  simp

theorem steps_ofExcept {x : Except Error α} {a : α} : Steps (ofExcept x) fresh a fresh' ↔ x = .ok a ∧ fresh = fresh' := by
  cases x with
  | ok b =>
    show ((Except.ok b, fresh) : Except Error α × Fresh) = (.ok a, fresh') ↔ _
    simp
  | error e =>
    show ((Except.error e, fresh) : Except Error α × Fresh) = (.ok a, fresh') ↔ _
    simp

theorem steps_freshTable {id : TableId} :
    Steps freshTable fresh id fresh' ↔ id = fresh.nextTable ∧ fresh' = { fresh with nextTable := fresh.nextTable + 1 } := by
  show ((Except.ok fresh.nextTable, _) : Except Error TableId × Fresh) = (.ok id, fresh') ↔ _
  simp only [Prod.mk.injEq, Except.ok.injEq, eq_comm]

theorem steps_freshCollection {id : Nat} : Steps freshCollection fresh id fresh' ↔
    id = fresh.nextCollection ∧ fresh' = { fresh with nextCollection := fresh.nextCollection + 1 } := by
  show ((Except.ok fresh.nextCollection, _) : Except Error Nat × Fresh) = (.ok id, fresh') ↔ _
  simp only [Prod.mk.injEq, Except.ok.injEq, eq_comm]

theorem steps_bind {x : Joining α} {f : α → Joining β} {b : β} :
    Steps (x >>= f) fresh b fresh' ↔ ∃ a mid, Steps x fresh a mid ∧ Steps (f a) mid b fresh' :=
  Faulting.bind_eq_ok_iff

end Joining

/-! ## Element queries -/

namespace Select

variable (s : Select)

theorem projectionExpr_of_lt {index : Nat} (h : index < s.width) : ∃ e, s.projectionExpr index = .ok e := by
  refine ⟨s.projections[index].expr, ?_⟩
  unfold projectionExpr
  rw [getElem?_eq_getElem h]

theorem addProjections_eq (new : List (Expr × String)) :
    ∃ added, (s.addProjections new).1 = s.widen added ∧ (s.addProjections new).2.length = new.length ∧
      Below (s.addProjections new).1.width (s.addProjections new).2 := by
  induction new generalizing s with
  | nil => exact ⟨[], s.widen_nil.symm, rfl, fun i hi => nomatch hi⟩
  | cons p rest ih =>
    obtain ⟨expr, hint⟩ := p
    obtain ⟨one, hone, hplace⟩ := s.addProjection_eq expr hint
    obtain ⟨others, hothers, hlength, hplaces⟩ := ih (s.addProjection expr hint).1
    simp only [addProjections, length_cons, hlength, forall_mem_cons]
    refine ⟨one ++ others, by rw [hothers, hone, widen_widen], trivial, ?_, hplaces⟩
    rw [hothers]
    exact Nat.lt_of_lt_of_le hplace (width_le_widen _ _)

theorem projectKey_width (key : List Expr) :
    s.width ≤ (s.projectKey key).1.width ∧ Below (s.projectKey key).1.width (s.projectKey key).2 := by
  induction key generalizing s with
  | nil => exact ⟨Nat.le_refl _, fun i hi => nomatch hi⟩
  | cons expr rest ih =>
    have hgrouping : (s.extendGrouping expr).width = s.width := by
      unfold extendGrouping
      split <;> rfl
    obtain ⟨one, hone, hplace⟩ := (s.extendGrouping expr).addProjection_eq expr "key"
    obtain ⟨hwidth, hplaces⟩ := ih ((s.extendGrouping expr).addProjection expr "key").1
    have hstep : s.width ≤ ((s.extendGrouping expr).addProjection expr "key").1.width := by
      rw [hone, ← hgrouping]
      exact width_le_widen _ _
    simp only [projectKey, forall_mem_cons]
    exact ⟨Nat.le_trans hstep hwidth, Nat.lt_of_lt_of_le hplace hwidth, hplaces⟩

variable (fresh : Fresh)

theorem steps_pushDownFresh {s q : Select} {fresh fresh' : Fresh} : Steps s.pushDownFresh fresh q fresh' ↔
    q = s.pushDown fresh.nextTable elementAlias ∧ fresh' = { fresh with nextTable := fresh.nextTable + 1 } := by
  simp only [pushDownFresh, steps_bind, steps_freshTable, steps_pure]
  constructor
  · rintro ⟨id, mid, ⟨rfl, rfl⟩, rfl, rfl⟩
    exact ⟨rfl, rfl⟩
  · rintro ⟨rfl, rfl⟩
    exact ⟨_, _, ⟨rfl, rfl⟩, rfl, rfl⟩

/-- A select that may be pushed down has as many columns as before. -/
theorem pushDownWhen_steps (needed : Bool) : ∃ q fresh', Steps (s.pushDownWhen needed) fresh q fresh' ∧
    q.width = s.width ∧ fresh'.nextCollection = fresh.nextCollection := by
  cases needed with
  | true => exact ⟨_, _, steps_pushDownFresh.2 ⟨rfl, rfl⟩, s.width_pushDown _ _, rfl⟩
  | false => exact ⟨s, fresh, steps_pure.2 ⟨rfl, rfl⟩, rfl, rfl⟩

theorem keepNumbered_steps (key identifier : List Nat) (offset limit : Option Expr) :
    ∃ q fresh', Steps (s.keepNumbered key identifier offset limit) fresh q fresh' ∧ s.width ≤ q.width ∧
      fresh'.nextCollection = fresh.nextCollection := by
  unfold keepNumbered
  simp only [steps_bind, steps_ofExcept, steps_pure]
  generalize hnumbered : addProjection { s with orderings := [] } _ "row" = numbered
  obtain ⟨new, hnew, hrow⟩ := addProjection_eq { s with orderings := [] } _ "row"
  rw [hnumbered] at hnew hrow
  have hwidth : s.width ≤ numbered.1.width := by
    rw [hnew]
    exact width_le_widen _ _
  obtain ⟨rowColumn, hrowColumn⟩ := projectionExpr_of_lt (numbered.1.pushDown fresh.nextTable elementAlias)
    (Nat.lt_of_lt_of_eq hrow (width_pushDown _ _ _).symm)
  refine ⟨_, _, ⟨_, _, steps_pushDownFresh.2 ⟨rfl, rfl⟩, _, _, ⟨hrowColumn, rfl⟩, rfl, rfl⟩, ?_, rfl⟩
  have hbounded (o : Option Expr) (q : Select) : (o.elim q q.filter).width = q.width := by cases o <;> rfl
  exact Nat.le_trans hwidth (Nat.le_of_eq ((hbounded _ _).trans (width_pushDown _ _ _)).symm)

theorem makeJoinable_steps (key identifier : List Nat) :
    ∃ q fresh', Steps (s.makeJoinable key identifier) fresh q fresh' ∧ s.width ≤ q.width ∧
      fresh'.nextCollection = fresh.nextCollection := by
  unfold makeJoinable
  split
  · obtain ⟨base, mid, hbase, hwidth, hmid⟩ := pushDownWhen_steps { s with limit := none, offset := none } fresh
      (isCollapsed { s with limit := none, offset := none })
    obtain ⟨q, fresh', hq, hwidth', hfresh⟩ := base.keepNumbered_steps mid key identifier s.offset s.limit
    refine ⟨q, fresh', steps_bind.2 ⟨base, mid, hbase, hq⟩, ?_, hfresh.trans hmid⟩
    exact Nat.le_trans (Nat.le_of_eq hwidth.symm) hwidth'
  · obtain ⟨q, fresh', hq, hwidth, hfresh⟩ := s.pushDownWhen_steps fresh s.isCollapsed
    exact ⟨q, fresh', hq, Nat.le_of_eq hwidth.symm, hfresh⟩

theorem checkIdentifier_of_below (h : Below s.width identifier) : s.checkIdentifier identifier = .ok () := by
  have hfind : identifier.find? (s.projections.length ≤ ·) = none :=
    find?_eq_none.2 fun i hi => by simpa using h i hi
  simp [checkIdentifier, hfind]

end Select

/-- Whether the places of a prepared element query are places of its columns, which are at least so many. -/
structure Element.Covers (e : Element) (count : Nat) : Prop where
  width : count ≤ e.query.width
  key : Below e.query.width e.key
  orderings : ∀ o ∈ e.orderings, o.1 < e.query.width

theorem Select.prepareElement_steps (s : Select) (fresh : Fresh) (innerKey : List Expr)
    (h : Below s.width identifier) :
    ∃ element fresh', Steps (s.prepareElement innerKey identifier) fresh element fresh' ∧
      element.Covers s.width ∧ fresh'.nextCollection = fresh.nextCollection := by
  obtain ⟨hkeyed, hkey⟩ := s.projectKey_width innerKey
  obtain ⟨joinable, mid, hjoinable, hwidth, hmid⟩ :=
    (s.projectKey innerKey).1.makeJoinable_steps fresh (s.projectKey innerKey).2 identifier
  obtain ⟨added, hadded, -, hplaces⟩ := Select.addProjections_eq { joinable with orderings := [] }
    (joinable.orderings.map fun t => (t.expr, "c"))
  have hwider : joinable.width ≤
      (addProjections { joinable with orderings := [] } (joinable.orderings.map fun t => (t.expr, "c"))).1.width := by
    rw [hadded]
    exact width_le_widen _ _
  unfold prepareElement
  simp only [steps_bind, steps_ofExcept, steps_pure]
  refine ⟨_, _, ⟨_, _, ⟨checkIdentifier_of_below _ (h.mono hkeyed), rfl⟩, _, _, hjoinable, rfl, rfl⟩, ?_, hmid⟩
  exact {
    width := Nat.le_trans hkeyed (Nat.le_trans hwidth hwider)
    key := hkey.mono (Nat.le_trans hwidth hwider)
    orderings := fun o ho => hplaces _ (of_mem_zip ho).1 }

/-! ## Joining an element query -/

theorem elementColumn_of_lt (kind : ConditionalJoinKind) (id : TableId) (aliasName : Option String) {query : Select}
    {index : Nat} (h : index < query.width) : ∃ e, elementColumn kind (.derived id aliasName query) index = .ok e := by
  simp [elementColumn, Source.columnAt?, getElem?_eq_getElem h]

theorem width_appendOrdering (s : Select) (t : SortTerm) : (s.appendOrdering t).width = s.width := by
  unfold Select.appendOrdering
  split <;> rfl

theorem width_foldl_appendOrdering (s : Select) (terms : List SortTerm) :
    (terms.foldl Select.appendOrdering s).width = s.width := by
  induction terms generalizing s with
  | nil => rfl
  | cons t rest ih => rw [foldl_cons, ih, width_appendOrdering]

theorem Select.orderByProjections_ok {s : Select} {places : List Nat} (h : Below s.width places) :
    ∃ q, s.orderByProjections places = .ok q ∧ q.width = s.width := by
  induction places generalizing s with
  | nil => exact ⟨s, rfl, rfl⟩
  | cons index rest ih =>
    obtain ⟨expr, hexpr⟩ := s.projectionExpr_of_lt (h index mem_cons_self)
    have hwidth := width_appendOrdering s ⟨expr, true⟩
    obtain ⟨q, hq, hq'⟩ := ih (s := s.appendOrdering ⟨expr, true⟩) fun i hi =>
      hwidth ▸ h i (mem_cons_of_mem index hi)
    refine ⟨q, ?_, hq'.trans hwidth⟩
    rw [orderByProjections, hexpr]
    exact hq

theorem Select.joinElement_ok (s : Select) (kind : ConditionalJoinKind) (id : TableId) (aliasName : Option String)
    (outerKey : List Expr) {element : Element} (he : element.Covers count)
    (hi : Below element.query.width identifier) :
    ∃ q places, s.joinElement kind (.derived id aliasName element.query) outerKey element identifier = .ok (q, places) ∧
      s.width ≤ q.width ∧ places.length = element.query.width ∧ Below q.width places := by
  have hcolumn {index : Nat} (h : index < element.query.width) :=
    elementColumn_of_lt kind id aliasName h
  obtain ⟨innerKey, hinnerKey⟩ := Except.mapM_ok_of_forall fun i hi => hcolumn (he.key i hi)
  obtain ⟨columns, hcolumns⟩ := Except.mapM_ok_of_forall (l := List.range element.query.width) fun i hi =>
    hcolumn (mem_range.1 hi)
  obtain ⟨ordered, hordered⟩ := Except.mapM_ok_of_forall (l := element.orderings)
    (f := fun o => do
      let expr ← elementColumn kind (.derived id aliasName element.query) o.1
      return SortTerm.mk expr o.2) fun o ho => by
    obtain ⟨e, h⟩ := hcolumn (he.orderings o ho)
    exact ⟨_, Except.bind_eq_ok_iff.2 ⟨e, h, rfl⟩⟩
  obtain ⟨identified, hidentified⟩ := Except.mapM_ok_of_forall (l := identifier)
    (f := fun index => do
      let expr ← elementColumn kind (.derived id aliasName element.query) index
      return SortTerm.mk expr true) fun i h => by
    obtain ⟨e, h⟩ := hcolumn (hi i h)
    exact ⟨_, Except.bind_eq_ok_iff.2 ⟨e, h, rfl⟩⟩
  have hlength : columns.length = element.query.width := by
    have := congrArg List.length (Except.mapM_eq_ok_iff.1 hcolumns)
    simpa using this.symm
  obtain ⟨added, hadded, hplaces, hbelow⟩ :=
    s.addProjections_eq (columns.zip (element.query.projections.map (·.aliasName)))
  refine ⟨_, _, Except.bind_eq_ok_iff.2 ⟨innerKey, hinnerKey, Except.bind_eq_ok_iff.2 ⟨columns, hcolumns,
    Except.bind_eq_ok_iff.2 ⟨ordered, hordered, Except.bind_eq_ok_iff.2 ⟨identified, hidentified, rfl⟩⟩⟩⟩, ?_, ?_, ?_⟩
  · show s.width ≤ ((ordered ++ identified).foldl appendOrdering _).width
    rw [width_foldl_appendOrdering, hadded]
    exact width_le_widen _ _
  · simp [hplaces, hlength]
  · show Below ((ordered ++ identified).foldl appendOrdering _).width _
    rw [width_foldl_appendOrdering]
    exact hbelow

/-- The move that takes the columns of a joined element query to their places. -/
def IndexMove.toPlaces (places : List Nat) : IndexMove := fun index =>
  match places[index]? with
  | some place => .ok place
  | none => .error (.shape (.projectionOutOfRange index))

theorem moveIdentifier_ok {places identifier : List Nat} (hi : Below places.length identifier)
    (hplaces : Below count places) : ∃ moved, moveIdentifier places identifier = .ok moved ∧ Below count moved := by
  have hmove : (IndexMove.toPlaces places).Into places.length count := by
    intro i hi
    refine ⟨places[i], hplaces _ (getElem_mem hi), ?_⟩
    simp [IndexMove.toPlaces, getElem?_eq_getElem hi]
  obtain ⟨moved, hmoved, -, hbelow⟩ := hmove.mapM hi
  exact ⟨moved, hmoved, hbelow⟩

theorem mergeIndices_subset (indices new : List Nat) : mergeIndices indices new ⊆ indices ++ new := by
  induction new generalizing indices with
  | nil => exact subset_append_left _ _
  | cons i rest ih =>
    refine List.Subset.trans (ih _) fun j hj => ?_
    dsimp only at hj
    split at hj
    · exact mem_append.2 ((mem_append.1 hj).imp_right (mem_cons_of_mem i))
    · simpa using hj

theorem below_mergeIndices {indices new : List Nat} (h : Below count indices) (hnew : Below count new) :
    Below count (mergeIndices indices new) :=
  fun i hi => (mem_append.1 (mergeIndices_subset indices new hi)).elim (h i) (hnew i)

theorem mergeIndices_ne_nil {indices new : List Nat} (h : indices ≠ [] ∨ new ≠ []) : mergeIndices indices new ≠ [] := by
  induction new generalizing indices with
  | nil => exact h.resolve_right fun hne => hne rfl
  | cons i rest ih =>
    refine ih (.inl ?_)
    dsimp only
    split
    · rintro rfl
      contradiction
    · simp

/-- A column of the parents that their collection repeats, with the name that it has. -/
def Select.repeatedColumn (target : Select) (index : Nat) : Except Error (Expr × String) :=
  match target.projections[index]? with
  | some p => .ok (p.expr, p.aliasName)
  | none => .error (.shape (.parentIdentifierOutOfRange index))

theorem Select.splitBase_ok (target : Select) {parent : List Nat} (h : Below target.width parent) :
    ∃ base places, target.splitBase parent = .ok (base, places) ∧ Below base.width places ∧
      places.length = parent.length := by
  have hprojection {i : Nat} (hi : i < target.width) : ∃ p, target.repeatedColumn i = .ok p := by
    simp [repeatedColumn, getElem?_eq_getElem hi]
  obtain ⟨projections, hprojections⟩ := Except.mapM_ok_of_forall fun i hi => hprojection (h i hi)
  have hlength : projections.length = parent.length := by
    simpa using (congrArg List.length (Except.mapM_eq_ok_iff.1 hprojections)).symm
  obtain ⟨added, -, hplaces, hbelow⟩ := Select.addProjections_eq
    { Select.empty with sources := target.sources, predicate := target.predicate, orderings := target.orderings }
    projections
  refine ⟨_, _, Except.bind_eq_ok_iff.2 ⟨projections, hprojections, rfl⟩, hbelow, hplaces.trans hlength⟩

/-- Whether the places of a joined element query are places of the query that it was joined to, and those of its
columns at least so many. -/
structure JoinedElement.Covers (j : JoinedElement) (count : Nat) : Prop where
  count_le : count ≤ j.places.length
  places : Below j.query.width j.places
  child : Below j.query.width j.child
  identifier : Below j.query.width j.identifier
  identified : j.identifier ≠ []
  splitParent : ∀ places ∈ j.splitParent, Below j.query.width places

theorem joinPrepared_steps (split : Bool) (fresh : Fresh) {target : Select} {parent : List Nat} (hparent : Below target.width parent)
    (hne : parent ≠ []) (outerKey : List Expr) {element : Element} (he : element.Covers count)
    (hi : Below count identifier) :
    ∃ joined fresh', Steps (joinPrepared split target parent outerKey element identifier) fresh joined fresh' ∧
      joined.Covers count ∧ (joined.splitParent = none → target.width ≤ joined.query.width) ∧
      fresh'.nextCollection = fresh.nextCollection := by
  have hi' := hi.mono he.width
  unfold joinPrepared
  cases split with
  | true =>
    obtain ⟨base, splitParent, hbase, hsplit, hlength⟩ := target.splitBase_ok hparent
    obtain ⟨query, places, hquery, hwidth, hplaces, hbelow⟩ :=
      base.joinElement_ok .inner fresh.nextTable (some elementAlias) outerKey he hi'
    obtain ⟨child, hchild, hchild'⟩ := moveIdentifier_ok (hplaces ▸ hi') hbelow
    simp only [if_true, steps_bind, steps_ofExcept, steps_freshTable, steps_pure]
    refine ⟨_, _, ⟨_, _, ⟨hbase, rfl⟩, _, _, ⟨rfl, rfl⟩, _, _, ⟨hquery, rfl⟩, _, _, ⟨hchild, rfl⟩, rfl, rfl⟩, ?_, nofun, rfl⟩
    exact {
      count_le := hplaces ▸ he.width
      places := hbelow
      child := hchild'
      identifier := below_mergeIndices (hsplit.mono hwidth) hchild'
      identified := mergeIndices_ne_nil (.inl fun h => hne (length_eq_zero_iff.1 (hlength.symm.trans (congrArg List.length h))))
      splitParent := by
        rintro places ⟨⟩
        exact hsplit.mono hwidth }
  | false =>
    obtain ⟨query, places, hquery, hwidth, hplaces, hbelow⟩ :=
      target.joinElement_ok .left fresh.nextTable (some elementAlias) outerKey he hi'
    obtain ⟨child, hchild, hchild'⟩ := moveIdentifier_ok (hplaces ▸ hi') hbelow
    simp only [Bool.false_eq_true, if_false, steps_bind, steps_ofExcept, steps_freshTable,
      steps_pure]
    refine ⟨_, _, ⟨_, _, ⟨rfl, rfl⟩, _, _, ⟨hquery, rfl⟩, _, _, ⟨hchild, rfl⟩, rfl, rfl⟩, ?_, fun _ => hwidth, rfl⟩
    exact {
      count_le := hplaces ▸ he.width
      places := hbelow
      child := hchild'
      identifier := forall_mem_append.2 ⟨hparent.mono hwidth, hchild'⟩
      identified := fun h => hne (append_eq_nil_iff.1 h).1
      splitParent := nofun }

/-! ## Joining the collections of a shape -/

/-- What joining the collections of a shape does: the query it is joined to gets wider, and each collection is there once,
with its number in turn. -/
structure Joins (target : Select) (pendings : List PendingCollection) (fresh : Fresh) (target' : Select)
    (collections : List CollectionShape) (fresh' : Fresh) : Prop where
  wider : target.width ≤ target'.width
  numbered : collections.map (fun c => (c.elementType, c.id)) =
    (pendings.map (·.elementType)).zipIdx fresh.nextCollection
  counted : fresh'.nextCollection = fresh.nextCollection + pendings.length

namespace Joins

variable {target mid target' : Select} {fresh fresh₁ fresh' : Fresh}

theorem nil : Joins target [] fresh target [] fresh :=
  ⟨Nat.le_refl _, rfl, rfl⟩

theorem append {ps qs : List PendingCollection} {cs ds : List CollectionShape} (h : Joins target ps fresh mid cs fresh₁)
    (h' : Joins mid qs fresh₁ target' ds fresh') : Joins target (ps ++ qs) fresh target' (cs ++ ds) fresh' where
  wider := Nat.le_trans h.wider h'.wider
  numbered := by
    rw [map_append, map_append, zipIdx_append, h.numbered, h'.numbered, h.counted, length_map]
  counted := by rw [h'.counted, h.counted, length_append, Nat.add_assoc]

end Joins

/-- What is known about a collection whose element query has been joined. -/
structure Attached.Fits (a : Attached) (target : Select) (count : Nat) (fresh fresh' : Fresh) : Prop where
  joined : a.joined.Covers count
  parent : Below a.target.width a.parent
  width : a.target.width = target.width
  wider : a.joined.splitParent = none → target.width ≤ a.joined.query.width
  id : a.id = fresh.nextCollection
  counted : fresh'.nextCollection = fresh.nextCollection + 1

theorem attachElement_steps (split : Bool) (fresh : Fresh) {nested : Bool} {p : PendingCollection}
    (hp : p.wellFormed nested count = true) {move : IndexMove} {target : Select} (hmove : move.Into count target.width)
    {outer : List Nat} (houter : Below target.width outer) (hnested : nested = true → outer ≠ []) :
    ∃ a fresh', Steps (attachElement split p move outer target) fresh a fresh' ∧
      a.Fits target p.inner.query.width fresh fresh' := by
  obtain ⟨navigation, elementType, parentIdentifier, outerKey, ⟨query, shape⟩, innerKey, identifier⟩ := p
  simp only [PendingCollection.wellFormed, Bool.and_eq_true, Bool.or_eq_true, beq_iff_eq] at hp
  obtain ⟨⟨⟨⟨⟨⟨hidentified, hparent⟩, houterKey⟩, hlengths⟩, hne⟩, hidentifier⟩, -⟩ := hp
  obtain ⟨own, hown, hownLength, hown'⟩ := hmove.mapM (below_of_all hparent)
  obtain ⟨key, hkey, hkeyLength, hkey'⟩ := hmove.mapM (below_of_all houterKey)
  have hparent' : Below target.width (mergeIndices outer own) := below_mergeIndices houter hown'
  have hparentNe : mergeIndices outer own ≠ [] :=
    mergeIndices_ne_nil (hidentified.imp hnested fun h => ne_nil_of_length_eq h hownLength)
  have hcheck : checkKeys fresh.nextCollection (mergeIndices outer own) key innerKey = .ok () := by
    have hkeyNe : key ≠ [] := ne_nil_of_length_eq hne hkeyLength
    simp [checkKeys, hparentNe, hkeyNe, hkeyLength, hlengths]
  obtain ⟨ordered, hordered, hwidth⟩ := Select.orderByProjections_ok hparent'
  obtain ⟨outerExprs, houterExprs⟩ := Except.mapM_ok_of_forall fun i hi =>
    ordered.projectionExpr_of_lt (hwidth ▸ hkey' i hi)
  obtain ⟨element, mid, helement, hcovers, hmid⟩ := query.prepareElement_steps
    { fresh with nextCollection := fresh.nextCollection + 1 } innerKey (below_of_all hidentifier)
  obtain ⟨joined, fresh', hjoined, hcovers', hwider, hfresh⟩ := joinPrepared_steps split mid
    (hparent'.mono (Nat.le_of_eq hwidth.symm)) hparentNe outerExprs hcovers (below_of_all hidentifier)
  unfold attachElement
  simp only [steps_bind, steps_ofExcept, steps_freshCollection, steps_pure]
  refine ⟨_, _, ⟨_, _, ⟨rfl, rfl⟩, _, _, ⟨hown, rfl⟩, _, _, ⟨hkey, rfl⟩, _, _, ⟨hcheck, rfl⟩, _, _, ⟨hordered, rfl⟩,
    _, _, ⟨houterExprs, rfl⟩, _, _, helement, _, _, hjoined, rfl, rfl⟩, ?_⟩
  exact {
    joined := hcovers'
    parent := hparent'.mono (Nat.le_of_eq hwidth.symm)
    width := hwidth
    wider := fun h => Nat.le_trans (Nat.le_of_eq hwidth.symm) (hwider h)
    id := rfl
    counted := hfresh.trans hmid }

theorem Attached.Fits.complete {a : Attached} {target q : Select} {fresh mid fresh' : Fresh}
    (hfits : a.Fits target count fresh mid) (navigation : Option String) (p : PendingCollection) {element : Shape}
    {pendings : List PendingCollection} (hreach : element.InReach q.width)
    (hjoins : Joins a.joined.query pendings mid q element.collections fresh') {c : CollectionShape} {target' : Select}
    (hc : a.complete navigation p.elementType element q = (c, target')) :
    c.InReach target'.width ∧ Joins target (p :: pendings) fresh target' (c :: c.inner) fresh' := by
  have hnumbered : (p.elementType, a.id) :: element.collections.map (fun c => (c.elementType, c.id)) =
      ((p :: pendings).map (·.elementType)).zipIdx fresh.nextCollection := by
    rw [map_cons, zipIdx_cons, hjoins.numbered, hfits.counted, hfits.id]
  have hcounted : fresh'.nextCollection = fresh.nextCollection + (p :: pendings).length := by
    rw [hjoins.counted, hfits.counted, length_cons, Nat.add_assoc, Nat.add_comm 1]
  unfold Attached.complete at hc
  cases hsplit : a.joined.splitParent with
  | some splitParent =>
    rw [hsplit] at hc
    cases hc
    refine ⟨⟨hfits.parent, ?_, hfits.joined.child.mono hjoins.wider, hreach⟩, ?_⟩
    · exact (hfits.joined.splitParent _ hsplit).mono hjoins.wider
    · exact ⟨Nat.le_of_eq hfits.width.symm, hnumbered, hcounted⟩
  | none =>
    have hwider := Nat.le_trans (hfits.wider hsplit) hjoins.wider
    rw [hsplit] at hc
    cases hc
    refine ⟨⟨?_, hfits.joined.child.mono hjoins.wider, hreach⟩, hwider, hnumbered, hcounted⟩
    exact hfits.parent.mono (hfits.width ▸ hwider)

/-- Joining a part of a shape of this width works in any select: what is joined is in reach of the select that it gives,
and the pending collections are numbered in their order. -/
def Joining.Complete {α : Type} (nested : Bool) (count : Nat) (pendings : List PendingCollection)
    (reach : Nat → α → Prop) (collections : α → List CollectionShape)
    (join : IndexMove → List Nat → Select → Joining (α × Select)) : Prop :=
  ∀ (fresh : Fresh) {move : IndexMove} {outer : List Nat} {target : Select},
    move.Into count target.width → Below target.width outer → (nested = true → outer ≠ []) →
    ∃ a target' fresh', Steps (join move outer target) fresh (a, target') fresh' ∧ reach target'.width a ∧
      Joins target pendings fresh target' (collections a) fresh'

theorem Joining.Complete.map {α β : Type} {nested : Bool} {pendings : List PendingCollection}
    {reach : Nat → α → Prop} {collections : α → List CollectionShape} {reach' : Nat → β → Prop}
    {collections' : β → List CollectionShape} {join : IndexMove → List Nat → Select → Joining (α × Select)}
    {join' : IndexMove → List Nat → Select → Joining (β × Select)}
    (h : Complete nested count pendings reach collections join) (f : α → β)
    (hjoin : join' = fun move outer target => do let r ← join move outer target; return (f r.1, r.2))
    (hreach : ∀ n a, reach n a → reach' n (f a)) (hcollections : ∀ a, collections' (f a) = collections a) :
    Complete nested count pendings reach' collections' join' := by
  intro fresh move outer target hmove houter hnested
  obtain ⟨a, target', fresh', ha, hreach', hjoins⟩ := h fresh hmove houter hnested
  simp only [hjoin, steps_bind, steps_pure]
  exact ⟨f a, target', fresh', ⟨_, _, ha, rfl, rfl⟩, hreach _ a hreach', hcollections a ▸ hjoins⟩

section Completeness

variable (split : Bool)

mutual

theorem Shape.join_steps {nested : Bool} {count : Nat} : ∀ {s : Shape}, s.wellFormed nested count = true → ∀ name : Option String,
    Complete nested count s.pendings Shape.InReach Shape.collections (s.join split name)
  | .scalar index nullable, h, _ => by
    intro fresh move outer target hmove _ _
    obtain ⟨j, hj, hmoved⟩ := hmove index (by simpa [Shape.wellFormed] using h)
    simp only [Shape.join, steps_bind, steps_ofExcept, steps_pure]
    exact ⟨_, _, _, ⟨j, fresh, ⟨hmoved, rfl⟩, rfl, rfl⟩, hj, .nil⟩
  | .entity e, h, _ => (EntityShape.join_steps (e := e) h).map .entity rfl (fun _ _ h => h) fun _ => rfl
  | .pending p, h, name => (PendingCollection.join_steps (p := p) h name).map .collection rfl (fun _ _ h => h) fun _ => rfl
  | .record members, h, _ => (Member.joinAll_steps (l := members) h).map .record rfl (fun _ _ h => h) fun _ => rfl

theorem EntityShape.join_steps {nested : Bool} {count : Nat} : ∀ {e : EntityShape}, e.wellFormed nested count = true →
    Complete nested count e.pendings EntityShape.InReach EntityShape.collections (e.join split)
  | ⟨entityType, key, properties, navigations, nullable⟩, h, fresh, move, outer, target, hmove, houter, hnested => by
    simp only [EntityShape.wellFormed, Bool.and_eq_true] at h
    obtain ⟨⟨⟨hne, hkey⟩, hproperties⟩, hnavigations⟩ := h
    obtain ⟨key', hkey', hlength, hbelow⟩ := hmove.mapM (below_of_all hkey)
    obtain ⟨ps, hps, hbelow'⟩ := PropertyShape.remapAll_ok hmove hproperties
    obtain ⟨ns, target', fresh', hns, hreach, hjoins⟩ :=
      Navigation.joinAll_steps (l := navigations) hnavigations fresh hmove houter hnested
    simp only [EntityShape.join, steps_bind, steps_ofExcept, steps_pure]
    refine ⟨_, _, _, ⟨_, _, ⟨hkey', rfl⟩, _, _, ⟨hps, rfl⟩, _, _, hns, rfl, rfl⟩, ?_, hjoins⟩
    exact ⟨ne_nil_of_length_eq hne hlength, hbelow.mono hjoins.wider, hbelow'.mono hjoins.wider, hreach⟩

theorem PendingCollection.join_steps {nested : Bool} {count : Nat} : ∀ {p : PendingCollection}, p.wellFormed nested count = true →
    ∀ name : Option String,
      Complete nested count p.pendings CollectionShape.InReach (fun c => c :: c.inner) (p.join split name)
  | ⟨navigation, elementType, parentIdentifier, outerKey, ⟨query, shape⟩, innerKey, identifier⟩, h, name, fresh, move,
      outer, target, hmove, houter, hnested => by
    obtain ⟨a, mid, ha, hfits⟩ := attachElement_steps split fresh h hmove houter hnested
    have hshape : shape.wellFormed true query.width = true := by
      simp only [PendingCollection.wellFormed, Bool.and_eq_true] at h
      exact h.2
    have hinto : (IndexMove.ofList a.joined.places).Into query.width a.joined.query.width := fun i hi =>
      IndexMove.ofList_into hfits.joined.places i (Nat.lt_of_lt_of_le hi hfits.joined.count_le)
    obtain ⟨remapped, hremapped⟩ := Shape.remap_ok hinto hshape
    obtain ⟨s', q, fresh', hs, hreach, hjoins⟩ := Shape.join_steps (s := shape) hshape none mid hinto
      hfits.joined.identifier fun _ => hfits.joined.identified
    obtain ⟨hreach', hjoins'⟩ := hfits.complete (navigation.or name)
      ⟨navigation, elementType, parentIdentifier, outerKey, ⟨query, shape⟩, innerKey, identifier⟩ hreach hjoins rfl
    simp only [PendingCollection.join, steps_bind, steps_ofExcept, steps_pure]
    exact ⟨_, _, _, ⟨a, mid, ha, remapped, mid, ⟨hremapped, rfl⟩, (s', q), fresh', hs, rfl, rfl⟩, hreach', hjoins'⟩

theorem Navigation.join_steps {nested : Bool} {count : Nat} : ∀ {n : Navigation}, n.wellFormed nested count = true →
    Complete nested count n.targetPendings Navigation.InReach Navigation.targetCollections (n.join split)
  | ⟨name, .entity e⟩, h =>
    (EntityShape.join_steps (e := e) h).map (fun e => ⟨name, .entity e⟩) (by
      funext
      simp only [Navigation.join, Shape.join, bind_assoc, pure_bind]) (fun _ _ h => h) fun _ => rfl
  | ⟨name, .pending p⟩, h =>
    (PendingCollection.join_steps (p := p) h (some name)).map (fun c => ⟨name, .collection c⟩) (by
      funext
      simp only [Navigation.join, Shape.join, bind_assoc, pure_bind]) (fun _ _ h => h) fun _ => rfl

theorem Navigation.joinAll_steps {nested : Bool} {count : Nat} : ∀ {l : List Navigation}, Navigation.allWellFormed nested count l = true →
    Complete nested count (Navigation.pendings l) Navigation.AllInReach Navigation.collections
      (Navigation.joinAll split l)
  | [], _, fresh, _, _, target, _, _, _ => ⟨[], target, fresh, steps_pure.2 ⟨rfl, rfl⟩, trivial, .nil⟩
  | n :: rest, h, fresh, _, _, _, hmove, houter, hnested => by
    simp only [Navigation.allWellFormed, Bool.and_eq_true] at h
    obtain ⟨n', mid, fresh₁, hn, hreach, hjoins⟩ := Navigation.join_steps (n := n) h.1 fresh hmove houter hnested
    obtain ⟨ns, target', fresh', hns, hreach', hjoins'⟩ := Navigation.joinAll_steps (l := rest) h.2
      fresh₁ (hmove.mono hjoins.wider) (houter.mono hjoins.wider) hnested
    simp only [Navigation.joinAll, steps_bind, steps_pure]
    exact ⟨_, _, _, ⟨_, _, hn, _, _, hns, rfl, rfl⟩, ⟨hreach.mono hjoins'.wider, hreach'⟩, hjoins.append hjoins'⟩

theorem Member.join_steps {nested : Bool} {count : Nat} : ∀ {m : Member}, m.wellFormed nested count = true →
    Complete nested count m.shapePendings Member.InReach Member.shapeCollections (m.join split)
  | ⟨name, shape⟩, h => (Shape.join_steps (s := shape) h none).map (⟨name, ·⟩) rfl (fun _ _ h => h) fun _ => rfl

theorem Member.joinAll_steps {nested : Bool} {count : Nat} : ∀ {l : List Member}, Member.allWellFormed nested count l = true →
    Complete nested count (Member.pendings l) Member.AllInReach Member.collections (Member.joinAll split l)
  | [], _, fresh, _, _, target, _, _, _ => ⟨[], target, fresh, steps_pure.2 ⟨rfl, rfl⟩, trivial, .nil⟩
  | m :: rest, h, fresh, _, _, _, hmove, houter, hnested => by
    simp only [Member.allWellFormed, Bool.and_eq_true] at h
    obtain ⟨m', mid, fresh₁, hm, hreach, hjoins⟩ := Member.join_steps (m := m) h.1 fresh hmove houter hnested
    obtain ⟨ms, target', fresh', hms, hreach', hjoins'⟩ := Member.joinAll_steps (l := rest) h.2
      fresh₁ (hmove.mono hjoins.wider) (houter.mono hjoins.wider) hnested
    simp only [Member.joinAll, steps_bind, steps_pure]
    exact ⟨_, _, _, ⟨_, _, hm, _, _, hms, rfl, rfl⟩, ⟨hreach.mono hjoins'.wider, hreach'⟩, hjoins.append hjoins'⟩

end

end Completeness

end QueryShaping
