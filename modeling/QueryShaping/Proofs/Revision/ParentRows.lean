import QueryShaping.Proofs.Revision.LeftJoin

/-!
# Joining collections keeps the rows of the parents

Joining the collections of a shape into a single query orders the query of the parents by what identifies them, and all
that comes after this is left joins of new tables, with their columns and orderings. So the rows of the parents are
still there, each in a run of its own.

A select whose rows depend on one another has to be pushed down for this before anything is joined to it. A limit then
holds for the rows as the select itself orders them, and the identifiers order what is left. Row numbers, and aggregates
without a grouping, do not make joining push a select down, and such a select does not keep its rows.
-/

namespace QueryShaping

open List

/-! ## Numbers for tables -/

namespace Joining

variable {α β : Type}

/-- Whether a computation gives no number for a table back. -/
def Advances (x : Joining α) : Prop :=
  ∀ fresh a fresh', Steps x fresh a fresh' → fresh.nextTable ≤ fresh'.nextTable

theorem advances_pure (a : α) : Advances (pure a : Joining α) := by
  intro fresh b fresh' h
  rw [(steps_pure.1 h).2]

theorem advances_ofExcept (x : Except Error α) : Advances (ofExcept x) := by
  intro fresh b fresh' h
  rw [(steps_ofExcept.1 h).2]

theorem advances_freshTable : Advances freshTable := by
  intro fresh id fresh' h
  rw [(steps_freshTable.1 h).2]
  exact Nat.le_succ _

theorem Advances.bind {x : Joining α} {f : α → Joining β} (hx : Advances x) (hf : ∀ a, Advances (f a)) :
    Advances (x >>= f) := by
  intro fresh b fresh' h
  obtain ⟨a, mid, ha, hb⟩ := steps_bind.1 h
  exact Nat.le_trans (hx fresh a mid ha) (hf a mid b fresh' hb)

end Joining

namespace Select

open Joining

theorem advances_pushDownWhen (s : Select) (needed : Bool) : Advances (s.pushDownWhen needed) := by
  cases needed with
  | true => exact advances_freshTable.bind fun _ => advances_pure _
  | false => exact advances_pure s

theorem advances_keepNumbered (s : Select) (key identifier : List Nat) (offset limit : Option Expr) :
    Advances (s.keepNumbered key identifier offset limit) :=
  (advances_pushDownWhen _ true).bind fun _ => (advances_ofExcept _).bind fun _ => advances_pure _

theorem advances_prepareElement (s : Select) (innerKey : List Expr) (identifier : List Nat) :
    Advances (s.prepareElement innerKey identifier) := by
  have hjoinable (keyed : Select) (key : List Nat) : Advances (keyed.makeJoinable key identifier) := by
    unfold makeJoinable
    split
    · exact (advances_pushDownWhen _ _).bind fun _ => advances_keepNumbered _ _ _ _ _
    · exact advances_pushDownWhen _ _
  exact (advances_ofExcept _).bind fun _ => (hjoinable _ _).bind fun _ => advances_pure _

end Select

/-! ## What is joined -/

namespace Select

namespace LeftJoins

variable {new new' : TableId → Prop} {s joined more : Select}

theorem of_orderings (terms : List SortTerm) : LeftJoins new s { s with orderings := s.orderings ++ terms } :=
  ⟨[], [], terms, by simp [joinedBy], forall_mem_nil _, forall_mem_nil _⟩

theorem refl (s : Select) : LeftJoins new s s :=
  ⟨[], [], [], by cases s; simp [joinedBy], forall_mem_nil _, forall_mem_nil _⟩

theorem project {c : ColumnRef} (hc : new c.table) (s : Select) (name : String) :
    LeftJoins new s (s.project name (.column c)) :=
  ⟨[], [⟨name, .column c⟩], [], by simp [joinedBy, Select.project], forall_mem_nil _,
    forall_mem_singleton.2 ⟨c, rfl, hc⟩⟩

theorem addSource {source : Source} (h : source.IsLeftJoin new) (s : Select) : LeftJoins new s (s.addSource source) :=
  ⟨[source], [], [], by simp [joinedBy, Select.addSource], forall_mem_singleton.2 h, forall_mem_nil _⟩

theorem trans (h : LeftJoins new s joined) (h' : LeftJoins new joined more) : LeftJoins new s more := by
  obtain ⟨joins, columns, terms, rfl, hjoins, hcolumns⟩ := h
  obtain ⟨joins', columns', terms', rfl, hjoins', hcolumns'⟩ := h'
  refine ⟨joins ++ joins', columns ++ columns', terms ++ terms', ?_, forall_mem_append.2 ⟨hjoins, hjoins'⟩,
    forall_mem_append.2 ⟨hcolumns, hcolumns'⟩⟩
  simp [joinedBy, append_assoc]

theorem mono (h : LeftJoins new s joined) (hnew : ∀ id, new id → new' id) : LeftJoins new' s joined := by
  obtain ⟨joins, columns, terms, rfl, hjoins, hcolumns⟩ := h
  refine ⟨joins, columns, terms, rfl, fun join hjoin => ?_, fun p hp => ?_⟩
  · obtain ⟨id, aliasName, query, predicate, hjoin, hid⟩ := hjoins join hjoin
    exact ⟨id, aliasName, query, predicate, hjoin, hnew id hid⟩
  · obtain ⟨c, hc, hid⟩ := hcolumns p hp
    exact ⟨c, hc, hnew _ hid⟩

theorem appendOrdering (s : Select) (t : SortTerm) : LeftJoins new s (s.appendOrdering t) := by
  unfold Select.appendOrdering
  split
  · exact refl s
  · exact of_orderings [t]

theorem foldl_appendOrdering (s : Select) (terms : List SortTerm) :
    LeftJoins new s (terms.foldl Select.appendOrdering s) := by
  induction terms generalizing s with
  | nil => exact refl s
  | cons t rest ih => exact (appendOrdering s t).trans (ih _)

theorem orderByProjections {places : List Nat} {ordered : Select} (h : s.orderByProjections places = .ok ordered) :
    LeftJoins new s ordered := by
  induction places generalizing s with
  | nil =>
    cases h
    exact refl _
  | cons i rest ih =>
    obtain ⟨p, -, h⟩ := orderByProjections_cons h
    exact (appendOrdering s _).trans (ih h)

theorem addProjections {columns : List (Expr × String)} (h : ∀ p ∈ columns, ∃ c, p.1 = .column c ∧ new c.table) (s : Select) :
    LeftJoins new s (s.addProjections columns).1 := by
  induction columns generalizing s with
  | nil => exact refl s
  | cons p rest ih =>
    obtain ⟨expr, hint⟩ := p
    obtain ⟨⟨c, rfl, hc⟩, hrest⟩ := forall_mem_cons.1 h
    refine LeftJoins.trans ?_ (ih hrest (s.addProjection (.column c) hint).1)
    unfold addProjection
    split
    · exact refl s
    · exact project hc s _

end LeftJoins

/-- The columns of a derived table that is joined have its identity. -/
theorem elementColumn_derived {kind : ConditionalJoinKind} {id : TableId} {aliasName : Option String} {query : Select}
    {index : Nat} {e : Expr} (h : elementColumn kind (.derived id aliasName query) index = .ok e) :
    ∃ c, e = .column c ∧ c.table = id := by
  unfold elementColumn Source.columnAt? at h
  cases hp : query.projections[index]? with
  | none =>
    simp only [hp, Option.map_none] at h
    cases h
  | some p =>
    simp only [hp, Option.map_some] at h
    cases h
    refine ⟨_, rfl, ?_⟩
    split <;> rfl

theorem joinElement_leftJoins {new : TableId → Prop} {s joined : Select} {id : TableId} (hid : new id)
    {aliasName : Option String} {query : Select} {outerKey : List Expr} {element : Element} {identifier places : List Nat}
    (h : s.joinElement .left (.derived id aliasName query) outerKey element identifier = .ok (joined, places)) :
    LeftJoins new s joined := by
  obtain ⟨innerKey, -, h⟩ := Except.bind_eq_ok_iff.1 h
  obtain ⟨columns, hcolumns, h⟩ := Except.bind_eq_ok_iff.1 h
  obtain ⟨ordered, -, h⟩ := Except.bind_eq_ok_iff.1 h
  obtain ⟨identified, -, h⟩ := Except.bind_eq_ok_iff.1 h
  cases h
  have hnew : ∀ p ∈ columns.zip (element.query.projections.map (·.aliasName)), ∃ c, p.1 = .column c ∧ new c.table := by
    intro p hp
    have hmem := mem_map_of_mem (f := Except.ok (ε := Error)) (of_mem_zip hp).1
    rw [← Except.mapM_eq_ok_iff.1 hcolumns] at hmem
    obtain ⟨index, -, hcolumn⟩ := mem_map.1 hmem
    obtain ⟨c, hc, htable⟩ := elementColumn_derived hcolumn
    exact ⟨c, hc, htable ▸ hid⟩
  refine ((LeftJoins.addProjections hnew s).trans (LeftJoins.foldl_appendOrdering _ (ordered ++ identified))).trans ?_
  exact LeftJoins.addSource ⟨id, aliasName, query, _, rfl, hid⟩ _

end Select

/-! ## Collections of the rows themselves -/

mutual

/-- The collections of a shape that are not joined yet, without those inside the elements of another one. -/
def Shape.rootPendings : Shape → List PendingCollection
  | .scalar .. => []
  | .entity e => e.rootPendings
  | .collection _ => []
  | .pending p => [p]
  | .record members => Member.rootPendings members

def EntityShape.rootPendings : EntityShape → List PendingCollection
  | ⟨_, _, _, navigations, _⟩ => Navigation.rootPendings navigations

def Navigation.targetRootPendings : Navigation → List PendingCollection
  | ⟨_, target⟩ => target.rootPendings

def Navigation.rootPendings : List Navigation → List PendingCollection
  | [] => []
  | n :: rest => n.targetRootPendings ++ Navigation.rootPendings rest

def Member.shapeRootPendings : Member → List PendingCollection
  | ⟨_, shape⟩ => shape.rootPendings

def Member.rootPendings : List Member → List PendingCollection
  | [] => []
  | m :: rest => m.shapeRootPendings ++ Member.rootPendings rest

end

mutual

theorem Shape.hasPending_of_mem_rootPendings {p : PendingCollection} :
    ∀ {s : Shape}, p ∈ s.rootPendings → s.hasPending = true
  | .entity e, h => EntityShape.hasPending_of_mem_rootPendings (e := e) h
  | .pending _, _ => rfl
  | .record members, h => Member.anyPending_of_mem_rootPendings (l := members) h

theorem EntityShape.hasPending_of_mem_rootPendings {p : PendingCollection} :
    ∀ {e : EntityShape}, p ∈ e.rootPendings → e.hasPending = true
  | ⟨_, _, _, navigations, _⟩, h => Navigation.anyPending_of_mem_rootPendings (l := navigations) h

theorem Navigation.hasPending_of_mem_rootPendings {p : PendingCollection} :
    ∀ {n : Navigation}, p ∈ n.targetRootPendings → n.hasPending = true
  | ⟨_, target⟩, h => Shape.hasPending_of_mem_rootPendings (s := target) h

theorem Navigation.anyPending_of_mem_rootPendings {p : PendingCollection} :
    ∀ {l : List Navigation}, p ∈ Navigation.rootPendings l → Navigation.anyPending l = true
  | n :: rest, h => Bool.or_eq_true_iff.2 ((mem_append.1 h).imp
      (Navigation.hasPending_of_mem_rootPendings (n := n)) (Navigation.anyPending_of_mem_rootPendings (l := rest)))

theorem Member.hasPending_of_mem_rootPendings {p : PendingCollection} :
    ∀ {m : Member}, p ∈ m.shapeRootPendings → m.hasPending = true
  | ⟨_, shape⟩, h => Shape.hasPending_of_mem_rootPendings (s := shape) h

theorem Member.anyPending_of_mem_rootPendings {p : PendingCollection} :
    ∀ {l : List Member}, p ∈ Member.rootPendings l → Member.anyPending l = true
  | m :: rest, h => Bool.or_eq_true_iff.2 ((mem_append.1 h).imp
      (Member.hasPending_of_mem_rootPendings (m := m)) (Member.anyPending_of_mem_rootPendings (l := rest)))

end

/-- What joining does to the query of the parents: the first collection orders it by what identifies the parents, and all
that comes after this is left joins of new tables. -/
def Grows (move : IndexMove) (outer : List Nat) (pendings : List PendingCollection) (fresh : Fresh) (target : Select)
    (fresh' : Fresh) (target' : Select) : Prop :=
  fresh.nextTable ≤ fresh'.nextTable ∧
    match pendings with
    | [] => target' = target
    | p :: _ => ∃ own ordered, p.parentIdentifier.mapM move = .ok own ∧
        target.orderByProjections (mergeIndices outer own) = .ok ordered ∧
        ordered.LeftJoins (fresh.nextTable ≤ ·) target'

namespace Grows

variable {move : IndexMove} {outer : List Nat} {ps qs : List PendingCollection} {fresh mid fresh' : Fresh}
  {target target₁ target' : Select}

theorem nil : Grows move outer [] fresh target fresh target :=
  ⟨Nat.le_refl _, rfl⟩

theorem leftJoins (h : Grows move outer ps fresh target fresh' target') :
    target.LeftJoins (fresh.nextTable ≤ ·) target' := by
  obtain ⟨-, h⟩ := h
  cases ps with
  | nil => exact h ▸ .refl _
  | cons p ps =>
    obtain ⟨own, ordered, -, hordered, h⟩ := h
    exact (Select.LeftJoins.orderByProjections hordered).trans h

theorem append (h : Grows move outer ps fresh target mid target₁) (h' : Grows move outer qs mid target₁ fresh' target') :
    Grows move outer (ps ++ qs) fresh target fresh' target' := by
  refine ⟨Nat.le_trans h.1 h'.1, ?_⟩
  have hlater {s s' : Select} (hs : s.LeftJoins (mid.nextTable ≤ ·) s') : s.LeftJoins (fresh.nextTable ≤ ·) s' :=
    hs.mono fun _ hid => Nat.le_trans h.1 hid
  cases ps with
  | nil =>
    obtain ⟨-, rfl⟩ := h
    cases qs with
    | nil => exact h'.2
    | cons q qs =>
      obtain ⟨-, own, ordered, hown, hordered, h'⟩ := h'
      exact ⟨own, ordered, hown, hordered, hlater h'⟩
  | cons p ps =>
    obtain ⟨-, own, ordered, hown, hordered, h⟩ := h
    exact ⟨own, ordered, hown, hordered, h.trans (hlater h'.leftJoins)⟩

end Grows

/-- What joining the element query of a collection does in a single query. -/
theorem attachElement_false {p : PendingCollection} {move : IndexMove} {outer : List Nat} {target : Select}
    {fresh fresh' : Fresh} {a : Attached} (h : Joining.Steps (attachElement false p move outer target) fresh a fresh') :
    a.joined.splitParent = none ∧ Grows move outer [p] fresh target fresh' a.joined.query := by
  unfold attachElement joinPrepared at h
  simp only [Joining.steps_bind, Joining.steps_ofExcept, Joining.steps_freshCollection, Joining.steps_freshTable,
    Joining.steps_pure, Bool.false_eq_true, if_false] at h
  obtain ⟨_, _, ⟨rfl, rfl⟩, own, _, ⟨hown, rfl⟩, outerKey, _, ⟨-, rfl⟩, _, _, ⟨-, rfl⟩, ordered, _, ⟨hordered, rfl⟩,
    outerExprs, _, ⟨-, rfl⟩, element, mid, helement, joined, _, ⟨id, _, ⟨rfl, rfl⟩, ⟨query, places⟩, _, ⟨hquery, rfl⟩,
    child, _, ⟨-, rfl⟩, rfl, rfl⟩, rfl, rfl⟩ := h
  have hmid := Select.advances_prepareElement _ _ _ _ _ _ helement
  refine ⟨rfl, Nat.le_succ_of_le hmid, own, ordered, hown, hordered, ?_⟩
  exact Select.joinElement_leftJoins hmid hquery

/-- Joining lets the query that it joins to grow so, and gives what has become of it. -/
def Joining.GrowsBy {α : Type} (x : Joining (α × Select)) (move : IndexMove) (outer : List Nat)
    (pendings : List PendingCollection) (target : Select) : Prop :=
  ∀ ⦃fresh r fresh'⦄, Joining.Steps x fresh r fresh' → Grows move outer pendings fresh target fresh' r.2

namespace Joining

variable {α β : Type} {x : Joining (α × Select)} {f : α × Select → Joining (β × Select)} {move : IndexMove}
  {outer : List Nat} {ps qs : List PendingCollection} {target : Select}

theorem growsBy_pure {a : α} : GrowsBy (pure (a, target)) move outer [] target := by
  intro fresh r fresh' hs
  obtain ⟨rfl, rfl⟩ := steps_pure.1 hs
  exact .nil

theorem growsBy_ofExcept {γ : Type} {e : Except Error γ} {f : γ → Joining (α × Select)}
    (hf : ∀ c, (f c).GrowsBy move outer ps target) : GrowsBy (ofExcept e >>= f) move outer ps target := by
  intro fresh r fresh' hs
  obtain ⟨c, mid, hc, hr⟩ := steps_bind.1 hs
  obtain ⟨-, rfl⟩ := steps_ofExcept.1 hc
  exact hf c hr

theorem GrowsBy.bind (h : x.GrowsBy move outer ps target) (hf : ∀ r, (f r).GrowsBy move outer qs r.2) :
    (x >>= f).GrowsBy move outer (ps ++ qs) target := by
  intro fresh r fresh' hs
  obtain ⟨r', mid, hr', hr⟩ := steps_bind.1 hs
  exact (h hr').append (hf r' hr)

theorem GrowsBy.finish (h : x.GrowsBy move outer ps target) (hf : ∀ r, (f r).GrowsBy move outer [] r.2) :
    (x >>= f).GrowsBy move outer ps target :=
  append_nil ps ▸ h.bind hf

end Joining

section Growth

open Joining

mutual

theorem Shape.grows : ∀ (s : Shape) (name : Option String) (move : IndexMove) (outer : List Nat) (target : Select),
    (s.join false name move outer target).GrowsBy move outer s.rootPendings target
  | .scalar .., _, _, _, _ | .collection _, _, _, _, _ => growsBy_ofExcept fun _ => growsBy_pure
  | .entity e, _, move, outer, target => (EntityShape.grows e move outer target).finish fun _ => growsBy_pure
  | .pending p, name, move, outer, target =>
    (PendingCollection.grows p name move outer target).finish fun _ => growsBy_pure
  | .record members, _, move, outer, target => (Member.grows_all members move outer target).finish fun _ => growsBy_pure

theorem EntityShape.grows : ∀ (e : EntityShape) (move : IndexMove) (outer : List Nat) (target : Select),
    (e.join false move outer target).GrowsBy move outer e.rootPendings target
  | ⟨_, _, _, navigations, _⟩, move, outer, target => growsBy_ofExcept fun _ => growsBy_ofExcept fun _ =>
    (Navigation.grows_all navigations move outer target).finish fun _ => growsBy_pure

theorem PendingCollection.grows : ∀ (p : PendingCollection) (name : Option String) (move : IndexMove)
    (outer : List Nat) (target : Select), (p.join false name move outer target).GrowsBy move outer [p] target
  | ⟨navigation, elementType, parentIdentifier, outerKey, ⟨query, shape⟩, innerKey, identifier⟩, name, _, _, _ => by
    intro fresh r fresh' h
    simp only [PendingCollection.join, Joining.steps_bind, Joining.steps_ofExcept, Joining.steps_pure] at h
    obtain ⟨a, mid, hattached, _, _, ⟨-, rfl⟩, ⟨shape', query'⟩, _, hshape, rfl, rfl⟩ := h
    obtain ⟨hsplit, hmid, own, ordered, hown, hordered, hjoins⟩ := attachElement_false hattached
    have hinner := Shape.grows shape _ _ _ _ hshape
    rw [Attached.complete, hsplit]
    exact ⟨Nat.le_trans hmid hinner.1, own, ordered, hown, hordered,
      hjoins.trans (hinner.leftJoins.mono fun _ hid => Nat.le_trans hmid hid)⟩

theorem Navigation.grows : ∀ (n : Navigation) (move : IndexMove) (outer : List Nat) (target : Select),
    (n.join false move outer target).GrowsBy move outer n.targetRootPendings target
  | ⟨name, shape⟩, move, outer, target => (Shape.grows shape (some name) move outer target).finish fun _ => growsBy_pure

theorem Navigation.grows_all : ∀ (l : List Navigation) (move : IndexMove) (outer : List Nat) (target : Select),
    (Navigation.joinAll false l move outer target).GrowsBy move outer (Navigation.rootPendings l) target
  | [], _, _, _ => growsBy_pure
  | n :: rest, move, outer, target => (Navigation.grows n move outer target).bind fun r =>
    (Navigation.grows_all rest move outer r.2).finish fun _ => growsBy_pure

theorem Member.grows : ∀ (m : Member) (move : IndexMove) (outer : List Nat) (target : Select),
    (m.join false move outer target).GrowsBy move outer m.shapeRootPendings target
  | ⟨_, shape⟩, move, outer, target => (Shape.grows shape none move outer target).finish fun _ => growsBy_pure

theorem Member.grows_all : ∀ (l : List Member) (move : IndexMove) (outer : List Nat) (target : Select),
    (Member.joinAll false l move outer target).GrowsBy move outer (Member.rootPendings l) target
  | [], _, _, _ => growsBy_pure
  | m :: rest, move, outer, target => (Member.grows m move outer target).bind fun r =>
    (Member.grows_all rest move outer r.2).finish fun _ => growsBy_pure

end

end Growth

/-! ## The query that is joined to -/

namespace Select

/-- Whether the rows of a select are kept when collections are joined to it. It is pushed down for this, or each of its
frames gives a row of its own. -/
structure Joinable (s : Select) : Prop where
  pushable : s.requiresPushdown = true → s.Pushable
  ungrouped : s.requiresPushdown = false → s.grouped = false
  unnumbered : s.requiresPushdown = false → ∀ p ∈ s.projections, p.expr.isRowNumber = false

section Over

variable {id : TableId} {aliasName : String} {inner : Select} {width : Nat} {places : List (Nat × Bool)}

theorem expr_of_mem_orderings_overDerived {t : SortTerm}
    (ht : t ∈ (overDerived id aliasName inner width places).orderings) :
    ∃ q, t.expr = .column (outerColumn id aliasName q) := by
  obtain ⟨place, -, ht⟩ := mem_filterMap.1 ht
  obtain ⟨q, -, rfl⟩ := Option.map_eq_some_iff.1 ht
  exact ⟨q, rfl⟩

theorem rowWise_overDerived : (overDerived id aliasName inner width places).RowWise where
  grouped := grouped_overDerived
  unnumbered := by
    intro p hp
    obtain ⟨q, hq⟩ := expr_of_mem_overDerived hp
    rw [hq]
    rfl
  distinct := rfl
  limit := rfl
  offset := rfl

/-- A select over a derived table refers to nothing else. -/
theorem refersTo_overDerived {known : TableId → Prop} (hid : known id) :
    (overDerived id aliasName inner width places).RefersTo known where
  projections := by
    intro p hp id' hid'
    obtain ⟨q, hq⟩ := expr_of_mem_overDerived hp
    rw [hq] at hid'
    exact mem_singleton.1 hid' ▸ hid
  predicate := nofun
  orderings := by
    intro t ht id' hid'
    obtain ⟨q, hq⟩ := expr_of_mem_orderings_overDerived ht
    rw [hq] at hid'
    exact mem_singleton.1 hid' ▸ hid

theorem recognizes_overDerived {p : Projection} (hp : p ∈ (overDerived id aliasName inner width places).projections) :
    (overDerived id aliasName inner width places).Recognizes p.expr := by
  have hcolumn {c d : ColumnRef} (h : Expr.column c == Expr.column d) : Expr.column c = Expr.column d :=
    congrArg Expr.column (of_decide_eq_true h)
  obtain ⟨q, hq⟩ := expr_of_mem_overDerived hp
  constructor
  · intro p' hp' heq
    obtain ⟨q', hq'⟩ := expr_of_mem_overDerived hp'
    rw [hq, hq'] at heq ⊢
    exact hcolumn heq
  · intro t ht heq
    obtain ⟨q', hq'⟩ := expr_of_mem_orderings_overDerived ht
    rw [hq, hq'] at heq ⊢
    exact hcolumn heq

end Over

variable {s : Select} {env : Environment} {outer : List Frame} {places : List Nat}

theorem RowWise.perm_orderedBy (hs : s.RowWise) {roots r : Relation} (hroots : s.run env outer = .ok roots)
    (hrun : (s.orderedBy places).run env outer = .ok r) : r.rows.Perm roots.rows := by
  obtain ⟨kept, hkept, -, -, hroots⟩ := hs.run_eq_ok hroots
  obtain ⟨kept', hkept', -, -, hrows⟩ := (hs.orderedBy places).run_eq_ok hrun
  have hkept' : s.keptFrames env outer = .ok kept' := hkept'
  rw [hkept] at hkept'
  cases hkept'
  rw [hroots, hrows]
  exact ((mergeSort_perm _ _).trans (mergeSort_perm _ _).symm).map _

/-- What a select that collections are joined to has to be, to have the rows of another one when it is ordered by places
of identifiers. -/
structure StandsFor (base s : Select) (env : Environment) (outer : List Frame) (free : TableId) (places : List Nat)
    (r : Relation) : Prop where
  rowWise : base.RowWise
  width : base.width = s.width
  known : base.RefersTo fun id => ¬free ≤ id
  recognized : ∀ i ∈ places, ∀ p, base.projections[i]? = some p → base.Recognizes p.expr
  run : (base.orderedBy places).run env outer = .ok r
  sorts : (base.orderedBy places).SortsConsistently env outer

/-- A select that may be pushed down stands for the select itself. -/
theorem Joinable.standsFor (hs : s.Joinable) {fresh fresh' : Fresh} {base : Select}
    (hbase : Joining.Steps (s.pushDownWhen s.requiresPushdown) fresh base fresh')
    (hknown : s.RefersTo (· < fresh.nextTable))
    (hrecognized : s.limited = false → ∀ i ∈ places, ∀ p, s.projections[i]? = some p → s.Recognizes p.expr)
    (hsorts : s.SortsConsistently env outer)
    (hsorts' : (s.orderedLast fresh.nextTable elementAlias places).SortsConsistently env outer) {roots r : Relation}
    (hroots : s.run env outer = .ok roots)
    (hrun : (s.orderedLast fresh.nextTable elementAlias places).run env outer = .ok r) :
    base.StandsFor s env outer fresh'.nextTable places r ∧ r.rows.Perm roots.rows := by
  cases hpush : s.requiresPushdown with
  | true =>
    have hpushable := hs.pushable hpush
    obtain ⟨hidden, shown, -, -, hover⟩ := hpushable.exists_pushDown_eq
    rw [hpush] at hbase
    obtain ⟨rfl, rfl⟩ := steps_pushDownFresh.1 hbase
    obtain ⟨hrun', hsorts', hperm⟩ := hpushable.run_orderedLast hrecognized hsorts hsorts' hroots hrun
    refine ⟨⟨?_, s.width_pushDown _ _, ?_, ?_, hrun', hsorts'⟩, hperm⟩
    · rw [hover]
      exact rowWise_overDerived
    · rw [hover]
      exact refersTo_overDerived (Nat.not_le.2 (Nat.lt_succ_self _))
    · intro i _ p hp
      rw [hover] at hp ⊢
      exact recognizes_overDerived (mem_of_getElem? hp)
  | false =>
    rw [hpush, pushDownWhen, if_neg Bool.false_ne_true, Joining.steps_pure] at hbase
    obtain ⟨rfl, rfl⟩ := hbase
    have hmodifiers := hpush
    simp only [requiresPushdown, Bool.or_eq_false_iff] at hmodifiers
    obtain ⟨⟨⟨hdistinct, hlimit⟩, hoffset⟩, -⟩ := hmodifiers
    have hlimited : s.limited = false := by rw [limited, hlimit, hoffset]; rfl
    obtain ⟨hlimit, hoffset⟩ := bounds_of_not_limited hlimited
    rw [orderedLast, hlimited, if_neg Bool.false_ne_true] at hsorts' hrun
    have hrow : s.RowWise := ⟨hs.ungrouped hpush, hs.unnumbered hpush, hdistinct, hlimit, hoffset⟩
    refine ⟨⟨hrow, rfl, ?_, hrecognized hlimited, hrun, hsorts'⟩, hrow.perm_orderedBy hroots hrun⟩
    exact ⟨fun p hp id hid => Nat.not_le.2 (hknown.projections p hp id hid),
      fun e he id hid => Nat.not_le.2 (hknown.predicate e he id hid),
      fun t ht id hid => Nat.not_le.2 (hknown.orderings t ht id hid)⟩

end Select

/-- The places that identify the parents of collections, one collection after the other. -/
def Shape.parentIdentifiers (s : Shape) : List Nat :=
  s.rootPendings.flatMap (·.parentIdentifier)

/-- Joining collections in a single query keeps the rows that they are joined to: cut to the columns that were there before,
the first row of each run with one parent identifier are the rows of the query, ordered by the parent identifiers last. -/
theorem ShapedQuery.firstOfRuns_joinCollections {shaped joined : ShapedQuery} {fresh fresh' : Fresh}
    (hjoin : Joining.Steps (shaped.joinCollections false) fresh joined fresh') (hs : shaped.query.Joinable)
    (hknown : shaped.query.RefersTo (· < fresh.nextTable)) {env : Environment} {outer : List Frame}
    (hrecognized : shaped.query.limited = false → ∀ i ∈ shaped.shape.parentIdentifiers, ∀ p,
      shaped.query.projections[i]? = some p → shaped.query.Recognizes p.expr)
    (hsorts : shaped.query.SortsConsistently env outer)
    (hsorts' : (shaped.query.orderedLast fresh.nextTable elementAlias shaped.shape.parentIdentifiers).SortsConsistently
      env outer)
    {roots r wide : Relation} (hroots : shaped.query.run env outer = .ok roots)
    (hrun : (shaped.query.orderedLast fresh.nextTable elementAlias shaped.shape.parentIdentifiers).run env outer = .ok r)
    (hwide : joined.query.run env outer = .ok wide)
    (hunique : ∀ p ∈ shaped.shape.rootPendings, roots.rows.Pairwise (Select.DifferAt p.parentIdentifier))
    {p : PendingCollection} (hp : p ∈ shaped.shape.rootPendings) :
    firstOfRuns (Select.identifierAt p.parentIdentifier) (wide.rows.map (·.take shaped.query.width)) = r.rows ∧
      r.rows.Perm roots.rows := by
  simp only [joinCollections, Shape.hasPending_of_mem_rootPendings hp, if_true, Joining.steps_bind, Joining.steps_pure]
    at hjoin
  obtain ⟨base, mid, hbase, ⟨shape', query'⟩, _, hshape, rfl, rfl⟩ := hjoin
  obtain ⟨hstands, hperm⟩ := hs.standsFor hbase hknown hrecognized hsorts hsorts' hroots hrun
  have hunique' : ∀ q ∈ shaped.shape.rootPendings, r.rows.Pairwise (Select.DifferAt q.parentIdentifier) :=
    fun q hq => (hperm.pairwise_iff Select.DifferAt.symm).2 (hunique q hq)
  refine ⟨?_, hperm⟩
  -- The first collection orders the rows of the parents, and the others come after it.
  obtain ⟨-, hgrows⟩ := Shape.grows _ _ _ _ _ hshape
  unfold Shape.parentIdentifiers at hstands
  cases hpendings : shaped.shape.rootPendings with
  | nil => rw [hpendings] at hp; cases hp
  | cons first rest =>
    rw [hpendings] at hgrows hstands hunique'
    obtain ⟨own, ordered, hown, hordered, hjoins⟩ := hgrows
    obtain rfl : first.parentIdentifier = own :=
      List.map_injective_iff.2 (fun _ _ => Except.ok.inj) (Except.mapM_eq_ok_iff.1 hown)
    rw [← hstands.width]
    exact hjoins.firstOfRuns_orderedBy hstands.rowWise hstands.known hstands.recognized hordered hstands.run hstands.sorts
      (hunique' first mem_cons_self) (hunique' p (hpendings ▸ hp)) hwide

/-- Blogs, of which one has two posts and one has none. -/
def blogsWithPosts : Environment where
  tables := [
    ("Blogs", ⟨["Id", "Name"], [[.int32 3, .string "b"], [.int32 1, .string "a"], [.int32 2, .string "b"]]⟩),
    ("Posts", ⟨["Id", "BlogId"], [[.int32 10, .int32 1], [.int32 11, .int32 1], [.int32 12, .int32 3]]⟩)]
  parameters := .empty

/-- The posts of a blog whose key is the first column. -/
def postsOfBlog : PendingCollection :=
  ⟨some "Posts", "Post", [0], [0],
    ⟨{ Select.empty with
        projections := [⟨"Id", .column ⟨2, none, "Id", none, true⟩⟩], sources := [.table 2 none "Posts" none] },
      .scalar 0 true⟩,
    [.column ⟨2, none, "BlogId", none, true⟩], [0]⟩

/-- The first two blogs by name, with their posts. -/
def firstBlogs : ShapedQuery :=
  let column (name : String) : Expr := .column ⟨1, none, name, none, true⟩
  ⟨{ Select.empty with
      projections := [⟨"Id", column "Id"⟩, ⟨"Name", column "Name"⟩], sources := [.table 1 none "Blogs" none]
      orderings := [⟨column "Name", true⟩], limit := some (.literal (.int32 2)) },
    .record [⟨"Id", .scalar 0 true⟩, ⟨"Posts", .pending postsOfBlog⟩]⟩

theorem ShapedQuery.firstOfRuns_joinCollections_firstBlogs :
    firstBlogs.query.Joinable ∧ firstBlogs.query.RefersTo (· < 3) ∧ firstBlogs.shape.parentIdentifiers = [0] ∧
      firstBlogs.query.SortsConsistently blogsWithPosts [] ∧
      (firstBlogs.query.orderedLast 3 elementAlias [0]).SortsConsistently blogsWithPosts [] ∧
      ∃ joined fresh' wide, Joining.Steps (firstBlogs.joinCollections false) ⟨0, 3⟩ joined fresh' ∧
        joined.query.run blogsWithPosts [] = .ok wide ∧ wide.rows.length = 3 ∧
        firstOfRuns (Select.identifierAt [0]) (wide.rows.map (·.take 2)) =
          [[.int32 1, .string "a"], [.int32 3, .string "b"]] := by
  have hjoinable : firstBlogs.query.Joinable := by
    have hpush : firstBlogs.query.requiresPushdown = true := rfl
    refine ⟨fun _ => ⟨by decide, .inl rfl, .inr (by decide), ?_⟩, fun h => absurd hpush (by rw [h]; decide),
      fun h => absurd hpush (by rw [h]; decide)⟩
    rintro t (_ | ⟨_, ⟨⟩⟩) u (_ | ⟨_, ⟨⟩⟩) - - -
    rfl
  have hknown : firstBlogs.query.RefersTo (· < 3) := ⟨by decide, (fun _ h => by cases h), by decide⟩
  have hsorts : firstBlogs.query.SortsConsistently blogsWithPosts [] := by
    intro frames rows hframes hrows
    cases hframes
    cbv at hrows
    cases hrows
    exact keysSortTransitively_of_forall_lt 1 (by decide) (by decide)
  have hsorts' : (firstBlogs.query.orderedLast 3 elementAlias [0]).SortsConsistently blogsWithPosts [] := by
    intro frames rows hframes hrows
    cbv at hframes
    cases hframes
    cbv at hrows
    cases hrows
    exact keysSortTransitively_of_forall_lt 2 (by decide) (by decide)
  obtain ⟨joined, fresh', hjoin⟩ : ∃ joined fresh', Joining.Steps (firstBlogs.joinCollections false) ⟨0, 3⟩ joined fresh' :=
    ⟨_, _, rfl⟩
  obtain ⟨wide, hwide, hlength⟩ : ∃ wide, joined.query.run blogsWithPosts [] = .ok wide ∧ wide.rows.length = 3 := by
    unfold Joining.Steps at hjoin
    cbv at hjoin
    cases hjoin
    exact ⟨_, by cbv, by cbv⟩
  refine ⟨hjoinable, hknown, rfl, hsorts, hsorts', joined, fresh', wide, hjoin, hwide, hlength, ?_⟩
  exact (firstOfRuns_joinCollections hjoin hjoinable hknown (fun h => by cases h) hsorts hsorts' (by cbv)
    (r := ⟨["Id", "Name"], [[.int32 1, .string "a"], [.int32 3, .string "b"]]⟩) (by cbv) hwide (by decide)
    (p := postsOfBlog) (by simp [firstBlogs, Shape.rootPendings, Member.rootPendings, Member.shapeRootPendings])).1

-- Ordered by the key before it is cut off, the query has another second blog.
example : (firstBlogs.query.orderedBy [0]).run blogsWithPosts [] =
    .ok ⟨["Id", "Name"], [[.int32 1, .string "a"], [.int32 2, .string "b"]]⟩ := by cbv

/-- All blogs with their row numbers and their posts. -/
def numberedBlogs : ShapedQuery :=
  let id : Expr := .column ⟨1, none, "Id", none, true⟩
  ⟨{ Select.empty with
      projections := [⟨"Id", id⟩, ⟨"Row", .rowNumber [] [⟨id, true⟩]⟩], sources := [.table 1 none "Blogs" none] },
    .record [⟨"Id", .scalar 0 true⟩, ⟨"Posts", .pending postsOfBlog⟩]⟩

/-- A row number counts the rows of the join, where nothing pushes the select down. -/
theorem ShapedQuery.firstOfRuns_joinCollections_ne_of_rowNumber :
    ∃ joined fresh' r wide, Joining.Steps (numberedBlogs.joinCollections false) ⟨0, 3⟩ joined fresh' ∧
      (numberedBlogs.query.orderedBy [0]).SortsConsistently blogsWithPosts [] ∧
      (numberedBlogs.query.orderedBy [0]).run blogsWithPosts [] = .ok r ∧ r.rows.Pairwise (Select.DifferAt [0]) ∧
      r.rows = [[.int32 1, .int64 1], [.int32 2, .int64 2], [.int32 3, .int64 3]] ∧
      joined.query.run blogsWithPosts [] = .ok wide ∧
      firstOfRuns (Select.identifierAt [0]) (wide.rows.map (·.take 2)) =
        [[.int32 1, .int64 1], [.int32 2, .int64 3], [.int32 3, .int64 4]] := by
  have hsorts : (numberedBlogs.query.orderedBy [0]).SortsConsistently blogsWithPosts [] := by
    intro frames rows hframes hrows
    cbv at hframes
    cases hframes
    cbv at hrows
    cases hrows
    exact keysSortTransitively_of_forall_lt 1 (by decide) (by decide)
  obtain ⟨joined, fresh', hjoin⟩ : ∃ joined fresh', Joining.Steps (numberedBlogs.joinCollections false) ⟨0, 3⟩ joined fresh' :=
    ⟨_, _, rfl⟩
  obtain ⟨wide, hwide, hruns⟩ : ∃ wide, joined.query.run blogsWithPosts [] = .ok wide ∧
      firstOfRuns (Select.identifierAt [0]) (wide.rows.map (·.take 2)) =
        [[.int32 1, .int64 1], [.int32 2, .int64 3], [.int32 3, .int64 4]] := by
    unfold Joining.Steps at hjoin
    cbv at hjoin
    cases hjoin
    exact ⟨_, by cbv, by cbv⟩
  exact ⟨joined, fresh', ⟨["Id", "Row"], [[.int32 1, .int64 1], [.int32 2, .int64 2], [.int32 3, .int64 3]]⟩, wide, hjoin,
    hsorts, by cbv, by decide, rfl, hwide, hruns⟩

end QueryShaping
