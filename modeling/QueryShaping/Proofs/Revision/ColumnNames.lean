import QueryShaping.Proofs.Query.Pushdown
import QueryShaping.Proofs.Revision.CollectionJoin

/-!
# Names of columns

The columns of a derived table are found by their names, so a select must not give one name to two of its columns. Where
all selects of a query, down to its innermost derived tables, name their columns apart, this stays so when a column is
added, when the query is pushed down and when an element query is prepared and joined to it.
-/

namespace QueryShaping

open List

mutual

/-- The select itself and the selects that it reads from, in derived tables and set operations at any depth. -/
def Select.layers : Select → List Select
  | ⟨projections, sources, predicate, groupBy, having, orderings, limit, offset, distinct⟩ =>
    ⟨projections, sources, predicate, groupBy, having, orderings, limit, offset, distinct⟩ :: Source.layersList sources

def Source.layers : Source → List Select
  | .table .. => []
  | .derived _ _ select => select.layers
  | .setOperation _ _ _ _ left right => left.layers ++ right.layers
  | .joined _ source => source.layers
  | .joinedOn _ source _ => source.layers

def Source.layersList : List Source → List Select
  | [] => []
  | s :: rest => s.layers ++ Source.layersList rest

end

/-- The columns of a select have different names, whatever the case of letters. -/
def Select.NamesApart (s : Select) : Prop :=
  (s.projections.map fun p => Text.lowercase p.aliasName).Nodup

/-- Every layer of a select names its columns apart. -/
def Select.Named (s : Select) : Prop :=
  ∀ layer ∈ s.layers, layer.NamesApart

instance (s : Select) : Decidable s.NamesApart :=
  show Decidable (List.Nodup _) from inferInstance

instance (s : Select) : Decidable s.Named :=
  show Decidable (∀ layer ∈ s.layers, layer.NamesApart) from inferInstance

def Source.Named (s : Source) : Prop :=
  ∀ layer ∈ s.layers, layer.NamesApart

theorem Source.mem_layersList {ss : List Source} {layer : Select} :
    layer ∈ Source.layersList ss ↔ ∃ s ∈ ss, layer ∈ s.layers := by
  induction ss with
  | nil => simp [Source.layersList]
  | cons s rest ih => simp [Source.layersList, ih]

namespace Select

variable {s q : Select}

theorem named_iff : s.Named ↔ s.NamesApart ∧ ∀ source ∈ s.sources, source.Named := by
  cases s
  simp only [Named, layers, forall_mem_cons, Source.mem_layersList, Source.Named]
  refine and_congr_right fun _ => ⟨fun h source hs layer hl => h layer ⟨source, hs, hl⟩, ?_⟩
  rintro h layer ⟨source, hs, hl⟩
  exact h source hs layer hl

/-- Names are those of the projections and of the sources, whatever the other clauses are. -/
theorem Named.of_eq (h : s.Named) (hprojections : q.projections = s.projections) (hsources : q.sources = s.sources) :
    q.Named := by
  rw [named_iff, NamesApart] at h ⊢
  rwa [hprojections, hsources]

theorem NamesApart.columns_nodup (h : s.NamesApart) : s.columns.Nodup := by
  have hlower : (s.columns.map Text.lowercase).Nodup := by
    rw [columns, map_map]
    exact h
  exact hlower.of_map _

theorem NamesApart.addProjection (h : s.NamesApart) (expr : Expr) (hint : String) :
    (s.addProjection expr hint).1.NamesApart := by
  unfold Select.addProjection
  split
  · exact h
  · have hnew := lowercase_uniqueName_notMem hint (s.projections.map fun p => Text.lowercase p.aliasName)
    simp only [NamesApart, project, map_append, map_cons, map_nil]
    exact List.nodup_append_comm.1 (h.cons hnew)

theorem Named.addProjection (h : s.Named) (expr : Expr) (hint : String) : (s.addProjection expr hint).1.Named := by
  obtain ⟨new, hnew, -⟩ := s.addProjection_eq expr hint
  refine named_iff.2 ⟨(named_iff.1 h).1.addProjection expr hint, ?_⟩
  rw [hnew]
  exact (named_iff.1 h).2

theorem Named.addProjections (h : s.Named) (new : List (Expr × String)) : (s.addProjections new).1.Named := by
  induction new generalizing s with
  | nil => exact h
  | cons p rest ih => exact ih (h.addProjection p.1 p.2)

/-! ## Columns that are asked for -/

/-- An index stands for an expression, and whoever asks for the expression again is told this index. An expression that
does not equal itself, such as one with a constant that is no number, is never found again. -/
def Shows (s : Select) (expr : Expr) (index : Nat) : Prop :=
  (∃ p, s.projections[index]? = some p ∧ (p.expr = expr ∨ p.expr == expr)) ∧
    (expr == expr → s.projectionIndex? expr = some index)

theorem Shows.widen {expr : Expr} {index : Nat} (h : s.Shows expr index) (new : List Projection) :
    (s.widen new).Shows expr index := by
  obtain ⟨⟨p, hp, hexpr⟩, hfound⟩ := h
  refine ⟨⟨p, ?_, hexpr⟩, fun hrefl => ?_⟩
  · exact (getElem?_append_left (List.getElem?_eq_some_iff.1 hp).1).trans hp
  · exact (placeOf_widen expr).trans (by rw [show s.placeOf expr = some index from hfound hrefl, Option.some_or])

theorem shows_addProjection (s : Select) (expr : Expr) (hint : String) :
    (s.addProjection expr hint).1.Shows expr (s.addProjection expr hint).2 := by
  unfold Select.addProjection
  split
  · rename_i index hfound
    obtain ⟨hlt, hbeq, -⟩ := List.findIdx?_eq_some_iff_getElem.1 hfound
    exact ⟨⟨_, getElem?_eq_getElem hlt, .inr hbeq⟩, fun _ => hfound⟩
  · rename_i hnone
    refine ⟨⟨_, getElem?_concat_length, .inl rfl⟩, fun hrefl => ?_⟩
    refine (@placeOf_widen s [⟨_, expr⟩] expr).trans ?_
    rw [show s.placeOf expr = none from hnone]
    simp [hrefl]

theorem addProjections_append (s : Select) (calls more : List (Expr × String)) :
    s.addProjections (calls ++ more) = (((s.addProjections calls).1.addProjections more).1,
      (s.addProjections calls).2 ++ ((s.addProjections calls).1.addProjections more).2) := by
  induction calls generalizing s with
  | nil => rfl
  | cons call calls ih => simp only [cons_append, addProjections, ih]

/-- What was projected stays, and every index still shows what it was given for. -/
theorem shows_addProjections (s : Select) (calls : List (Expr × String)) :
    Forall₂ (fun call index => (s.addProjections calls).1.Shows call.1 index) calls (s.addProjections calls).2 := by
  induction calls generalizing s with
  | nil => exact .nil
  | cons call calls ih =>
    obtain ⟨expr, hint⟩ := call
    obtain ⟨added, hadded, -⟩ := (s.addProjection expr hint).1.addProjections_eq calls
    refine .cons ?_ (ih _)
    show ((s.addProjection expr hint).1.addProjections calls).1.Shows expr _
    rw [hadded]
    exact (s.shows_addProjection expr hint).widen added

theorem NamesApart.addProjections (h : s.NamesApart) (calls : List (Expr × String)) :
    (s.addProjections calls).1.NamesApart := by
  induction calls generalizing s with
  | nil => exact h
  | cons call calls ih => exact ih (h.addProjection call.1 call.2)

/-- A name is made unique by the first suffix that frees it, and the search for it ends within one more round than there are
names in use. So columns that are added to a select without any have names apart, and an index that was given for a column
stands for it from then on. -/
theorem addProjections_firstFree (hint : String) (used : List String) (s : Select) (calls more : List (Expr × String)) :
    (Text.lowercase (uniqueName hint used) ∉ used ∧
      (Text.lowercase hint ∉ used → uniqueName hint used = hint) ∧
      (Text.lowercase hint ∈ used →
        suffixLoop hint used (1 + used.toFinset.card) 0 = some (uniqueName hint used) ∧
        ∃ n : Nat, uniqueName hint used = hint ++ toString n ∧ ∀ m < n, Text.lowercase (hint ++ toString m) ∈ used)) ∧
    let asked := addProjections { s with projections := [] }
    (asked calls).1.NamesApart ∧
    Forall₂ (fun call index => (asked calls).1.Shows call.1 index) calls (asked calls).2 ∧
    (asked calls).1.projections <+: (asked (calls ++ more)).1.projections ∧
    (asked calls).2 <+: (asked (calls ++ more)).2 := by
  refine ⟨⟨lowercase_uniqueName_notMem hint used, uniqueName_of_notMem, fun h => ?_⟩, ?_, shows_addProjections _ calls, ?_⟩
  · obtain ⟨n, hn, hname, hunused, hused⟩ := uniqueName_of_mem h
    exact ⟨hname ▸ suffixLoop_eq _ 0 hunused hused (Nat.zero_le n) (by omega), n, hname, hused⟩
  · exact NamesApart.addProjections (s := { s with projections := [] }) nodup_nil calls
  · obtain ⟨added, hadded, -⟩ := (addProjections { s with projections := [] } calls).1.addProjections_eq more
    rw [addProjections_append]
    exact ⟨hadded ▸ prefix_append _ added, prefix_append _ _⟩

theorem Named.projectKey (h : s.Named) (key : List Expr) : (s.projectKey key).1.Named := by
  induction key generalizing s with
  | nil => exact h
  | cons expr rest ih =>
    have hgrouped : (s.extendGrouping expr).Named := by
      unfold extendGrouping
      split
      · exact h
      · exact h.of_eq rfl rfl
    exact ih (hgrouped.addProjection expr "key")

theorem Named.exposeOrderings (h : s.Named) (terms : List SortTerm) : (s.exposeOrderings terms).1.Named := by
  induction terms generalizing s with
  | nil => exact h
  | cons t rest ih =>
    obtain ⟨expr, ascending⟩ := t
    have hexposed : (s.exposeOrdering expr).1.Named := by
      unfold exposeOrdering
      split
      · exact h
      · split
        · exact h
        · exact h.addProjection expr "c"
    exact ih hexposed

/-- A select that is pushed down keeps the names of its columns, and those hidden under it get names of their own. -/
theorem Named.pushDown (h : s.Named) (id : TableId) (aliasName : String) : (s.pushDown id aliasName).Named := by
  obtain ⟨hidden, hhidden⟩ := exposeOrderings_eq { s with orderings := [] } s.orderings
  have hwider : ({ s with orderings := [] }.widen hidden).Named :=
    hhidden ▸ Named.exposeOrderings (s := { s with orderings := [] }) (h.of_eq rfl rfl) s.orderings
  rw [pushDown_eq id aliasName (Prod.ext hhidden rfl)]
  refine named_iff.2 ⟨?_, forall_mem_singleton.2 ?_⟩
  · have hvisible : (overDerived id aliasName (s.inner hidden (s.limit.isSome || s.offset.isSome)) s.width
        (Select.exposeOrderings { s with orderings := [] } s.orderings).2).projections.map
          (fun p => Text.lowercase p.aliasName) = s.projections.map fun p => Text.lowercase p.aliasName := by
      simp [overDerived, inner, widen]
    rw [NamesApart, hvisible]
    exact (named_iff.1 h).1
  · exact hwider.of_eq rfl rfl

theorem Named.appendOrdering (h : s.Named) (t : SortTerm) : (s.appendOrdering t).Named := by
  unfold Select.appendOrdering
  split
  · exact h
  · exact h.of_eq rfl rfl

theorem Named.orderByProjections (h : s.Named) {places : List Nat} (hq : s.orderByProjections places = .ok q) : q.Named := by
  induction places generalizing s with
  | nil => exact Except.ok.inj hq ▸ h
  | cons index rest ih =>
    obtain ⟨expr, -, hq⟩ := Except.bind_eq_ok_iff.1 hq
    exact ih (h.appendOrdering ⟨expr, true⟩) hq

end Select

/-! ## Element queries -/

namespace Joining

variable {α β : Type} {P : α → Prop} {Q : β → Prop}

/-- What a step of joining gives has a property, and the step has not handed out a number of a collection. -/
def Ensures (x : Joining α) (P : α → Prop) : Prop :=
  ∀ fresh a fresh', Steps x fresh a fresh' → P a ∧ fresh'.nextCollection = fresh.nextCollection

theorem Steps.ensured {x : Joining α} {fresh fresh' : Fresh} {a : α} (h : Steps x fresh a fresh') (hx : x.Ensures P) :
    P a ∧ fresh'.nextCollection = fresh.nextCollection :=
  hx fresh a fresh' h

theorem ensures_pure {a : α} (h : P a) : (pure a : Joining α).Ensures P := by
  intro fresh b fresh' hsteps
  obtain ⟨rfl, rfl⟩ := steps_pure.1 hsteps
  exact ⟨h, rfl⟩

theorem ensures_ofExcept {x : Except Error α} (h : ∀ a, x = .ok a → P a) : (ofExcept x).Ensures P := by
  intro fresh a fresh' hsteps
  obtain ⟨hx, rfl⟩ := steps_ofExcept.1 hsteps
  exact ⟨h a hx, rfl⟩

theorem ensures_ofExcept_true (x : Except Error α) : (ofExcept x).Ensures fun _ => True :=
  ensures_ofExcept fun _ _ => trivial

theorem ensures_freshTable : freshTable.Ensures fun _ => True := by
  intro fresh id fresh' hsteps
  obtain ⟨-, rfl⟩ := steps_freshTable.1 hsteps
  exact ⟨trivial, rfl⟩

theorem Ensures.bind {x : Joining α} {f : α → Joining β} (hx : x.Ensures P) (hf : ∀ a, P a → (f a).Ensures Q) :
    (x >>= f).Ensures Q := by
  intro fresh b fresh' hsteps
  obtain ⟨a, mid, ha, hb⟩ := steps_bind.1 hsteps
  obtain ⟨hP, hmid⟩ := ha.ensured hx
  obtain ⟨hQ, hfresh⟩ := hb.ensured (hf a hP)
  exact ⟨hQ, hfresh.trans hmid⟩

end Joining

namespace Select

open Joining

variable (s : Select)

theorem pushDownFresh_named : s.pushDownFresh.Ensures fun q => s.Named → q.Named :=
  ensures_freshTable.bind fun id _ => ensures_pure fun h => h.pushDown id elementAlias

theorem pushDownWhen_named (needed : Bool) : (s.pushDownWhen needed).Ensures fun q => s.Named → q.Named := by
  cases needed with
  | true => exact s.pushDownFresh_named
  | false => exact ensures_pure id

theorem keepNumbered_named (key identifier : List Nat) (offset limit : Option Expr) :
    (s.keepNumbered key identifier offset limit).Ensures fun q => s.Named → q.Named := by
  refine (pushDownFresh_named _).bind fun outer houter => ?_
  refine (ensures_ofExcept_true _).bind fun rowColumn _ => ensures_pure fun h => ?_
  have hnumbered := houter (Named.addProjection (s := { s with orderings := [] }) (h.of_eq rfl rfl) _ "row")
  cases Expr.conjunction? (rowBounds rowColumn offset limit) <;> exact hnumbered.of_eq rfl rfl

theorem makeJoinable_named (key identifier : List Nat) :
    (s.makeJoinable key identifier).Ensures fun q => s.Named → q.Named := by
  unfold makeJoinable
  split
  · refine (pushDownWhen_named _ _).bind fun base hbase => ?_
    intro fresh q fresh' hsteps
    obtain ⟨hq, hfresh⟩ := hsteps.ensured (base.keepNumbered_named key identifier s.offset s.limit)
    exact ⟨fun h => hq (hbase (h.of_eq rfl rfl)), hfresh⟩
  · exact s.pushDownWhen_named s.isCollapsed

theorem prepareElement_named (innerKey : List Expr) (identifier : List Nat) :
    (s.prepareElement innerKey identifier).Ensures fun element => s.Named → element.query.Named := by
  refine (ensures_ofExcept_true _).bind fun _ _ => ?_
  refine (makeJoinable_named _ _ _).bind fun joinable hjoinable => ensures_pure fun h => ?_
  exact Named.addProjections (s := { joinable with orderings := [] }) ((hjoinable (h.projectKey innerKey)).of_eq rfl rfl) _

variable {s}

theorem Named.joinElement (h : s.Named) {kind : ConditionalJoinKind} {id : TableId} {aliasName : Option String}
    {outerKey : List Expr} {element : Element} (he : element.query.Named) {identifier : List Nat} {r : Select × List Nat}
    (hr : s.joinElement kind (.derived id aliasName element.query) outerKey element identifier = .ok r) : r.1.Named := by
  simp only [Select.joinElement, Except.bind_eq_ok_iff] at hr
  obtain ⟨innerKey, -, columns, -, ordered, -, identified, -, hr⟩ := hr
  have hordered {q : Select} (hq : q.Named) (terms : List SortTerm) : (terms.foldl Select.appendOrdering q).Named := by
    induction terms generalizing q with
    | nil => exact hq
    | cons t rest ih => exact ih (hq.appendOrdering t)
  obtain ⟨hapart, hsources⟩ := named_iff.1 (hordered (h.addProjections _) (ordered ++ identified))
  rw [← Except.ok.inj hr]
  exact named_iff.2 ⟨hapart, forall_mem_append.2 ⟨hsources, forall_mem_singleton.2 he⟩⟩

theorem Named.splitBase (h : s.Named) {parent : List Nat} {r : Select × List Nat} (hr : s.splitBase parent = .ok r) :
    r.1.Named := by
  obtain ⟨projections, -, hr⟩ := Except.bind_eq_ok_iff.1 hr
  rw [← Except.ok.inj hr]
  refine Named.addProjections ?_ projections
  exact named_iff.2 ⟨nodup_nil, (named_iff.1 h).2⟩

end Select

open Joining in
theorem joinPrepared_named (split : Bool) (target : Select) (parent : List Nat) (outerKey : List Expr) (element : Element)
    (identifier : List Nat) : (joinPrepared split target parent outerKey element identifier).Ensures fun joined =>
      joined.splitParent.isSome = split ∧ (target.Named → element.query.Named → joined.query.Named) := by
  unfold joinPrepared
  cases split with
  | true =>
    refine (ensures_ofExcept fun r hr => fun h : target.Named => h.splitBase hr).bind fun base hbase => ?_
    refine ensures_freshTable.bind fun id _ => ?_
    refine (ensures_ofExcept fun r hr => fun (h : base.1.Named) (he : element.query.Named) =>
      h.joinElement he hr).bind fun r hr => ?_
    refine (ensures_ofExcept_true _).bind fun child _ => ?_
    exact ensures_pure ⟨rfl, fun h he => hr (hbase h) he⟩
  | false =>
    refine ensures_freshTable.bind fun id _ => ?_
    refine (ensures_ofExcept fun r hr => fun (h : target.Named) (he : element.query.Named) =>
      h.joinElement he hr).bind fun r hr => ?_
    refine (ensures_ofExcept_true _).bind fun child _ => ?_
    exact ensures_pure ⟨rfl, hr⟩

end QueryShaping
