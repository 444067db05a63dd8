import Mathlib.Tactic.MkIffOfInductiveProp
import Mathlib.Tactic.Tauto
import QueryShaping.Proofs.Evaluation.Comparison
import QueryShaping.Proofs.Evaluation.Rows
import QueryShaping.Proofs.Query.Nesting
import QueryShaping.Proofs.Query.NodeMap
import QueryShaping.Revision.Alias

/-!
# Two evaluations of a tree

A tree is evaluated with its references read in some way, and beside it the mapped tree as it stands, in scopes that are
alike. Both evaluations take the same steps, so a comparison holds of the two if it holds at the references and where
the truth of an expression is asked for.

What stands for a reference may evaluate to something else, as long as nobody can tell: where a truth value is asked for,
the comparison has to hold of the truth, and an operator that is no connective has to hide a difference of its operands.
The one place where a clause depends on another one is the ordering, since a sort term that equals a projection is taken
from the projected row.
-/

namespace QueryShaping

open List

/-! ## Alike scopes -/

/-- Two scopes whose frames are alike, in each row of a group too. -/
structure Scope.Alike (Near : List Frame → List Frame → Prop) (a b : Scope) : Prop where
  frames : Near a.frames b.frames
  group : Option.Rel (Forall₂ fun f g => Near (f :: a.outer) (g :: b.outer)) a.group b.group

theorem Scope.alike_ofRow {Near : List Frame → List Frame → Prop} {f g : Frame} {outer outer' : List Frame}
    (h : Near (f :: outer) (g :: outer')) : (Scope.ofRow f outer).Alike Near (.ofRow g outer') :=
  ⟨h, .none⟩

/-- Joined frames are known if they are joined from nothing or from missing rows. -/
structure Frame.Closed (Known : Frame → Prop) : Prop where
  nil : Known []
  extendNull : ∀ {frame : Frame}, Known frame → ∀ id r, Known (frame.extendNull id r)

theorem Frame.closed_all : Frame.Closed fun _ => True :=
  ⟨trivial, fun _ _ _ => trivial⟩

/-- The frames around two evaluations, which have to be alike, and those that evaluation comes to, which have to be
known. -/
structure Surroundings where
  Alike : List Frame → List Frame → Prop
  Known : Frame → Prop
  closed : Frame.Closed Known
  cons : ∀ {outer outer' : List Frame}, Alike outer outer' → ∀ {frame : Frame}, Known frame →
    Alike (frame :: outer) (frame :: outer')

theorem Surroundings.alike_ofGroup (around : Surroundings) {group outer outer' : List Frame}
    (h : around.Alike outer outer') (hgroup : ∀ f ∈ group, around.Known f) :
    (Scope.ofGroup group outer).Alike around.Alike (.ofGroup group outer') := by
  refine ⟨around.cons h ?_, .some (forall₂_same.2 fun frame hframe => around.cons h (hgroup frame hframe))⟩
  cases group with
  | nil => exact around.closed.nil
  | cons f group => exact hgroup f mem_cons_self

/-- The members of groups are among the items that were grouped. -/
theorem mem_of_mem_groupByKey {α : Type} {items : List (Key × α)} {group : List α} (hgroup : group ∈ groupByKey items)
    {a : α} (ha : a ∈ group) : a ∈ items.map (·.2) := by
  obtain ⟨keys, -, -, hgroups⟩ := groupByKey_eq items
  rw [hgroups] at hgroup
  obtain ⟨k, -, rfl⟩ := mem_map.1 hgroup
  exact (List.filter_sublist.map _).subset ha

theorem mem_of_mem_groupFrames {key : Frame → Except Error (List Value)} {frames : List Frame}
    {groups : List (List Frame)} (h : groupFrames key frames = .ok groups) {group : List Frame} (hgroup : group ∈ groups)
    {f : Frame} (hf : f ∈ group) : f ∈ frames := by
  rw [groupFrames, Except.bind_eq_ok_iff] at h
  obtain ⟨items, hitems, h⟩ := h
  cases h
  obtain ⟨item, hitem, rfl⟩ := mem_map.1 (mem_of_mem_groupByKey hgroup hf)
  obtain ⟨frame, hframe, hkey⟩ := mem_map.1 (Except.mapM_eq_ok_iff.1 hitems ▸ mem_map_of_mem hitem)
  obtain ⟨values, -, hkey⟩ := Except.bind_eq_ok_iff.1 hkey
  rw [Except.pure_eq_ok_iff] at hkey
  exact hkey ▸ hframe

/-! ## Evaluations side by side -/

/-- How the tree is read, what it is mapped to, and how the two are compared. -/
structure Passage (env : Environment) extends Comparison, Surroundings where
  reading : Reading
  map : NodeMap

/-- Whether a condition is fulfilled when references are read in some way. -/
def Expr.holdsRead (reading : Reading) (env : Environment) (e : Expr) (scope : Scope) : Except Error Bool := do
  holdsWith e (← e.evalWith reading env .condition scope)

theorem Source.joinAllWith_cons (reading : Reading) (env : Environment) (s : Source) (rest : List Source)
    (frames outer : List Frame) :
    Source.joinAllWith reading env (s :: rest) frames outer =
      s.joinBy (Source.rowsWith reading env) (Expr.holdsRead reading env) frames outer >>= fun frames =>
        Source.joinAllWith reading env rest frames outer := by
  cases s with
  | joined kind source => cases kind <;> simp only [Source.joinAllWith, joinBy, bind_assoc, pure_bind]
  | _ => simp only [Source.joinAllWith, joinBy, Expr.holdsRead, bind_assoc, pure_bind]

/-- The sort key of a term when references are read in some way. -/
def Expr.sortKeyRead (reading : Reading) (env : Environment) (e : Expr) (place : Option Nat) (row : Row) (scope : Scope) :
    Except Error Value :=
  match place with
  | some index => .ok (row[index]?.getD .null)
  | none => e.evalWith reading env .value scope

namespace Passage

variable {env : Environment} (P : Passage env)

/-- The comparison holds of the values of an expression, in this position and put to this use. -/
def Values (e : Expr) (p : Position) (u : Usage) : Prop :=
  ∀ a b : Scope, a.Alike P.Alike b → P.Holds (e.evalWith P.reading env p a) ((e.mapNodes P.map u).eval env b)

/-- The comparison holds of the truth of an expression. -/
def Truths (e : Expr) (p : Position) (u : Usage) : Prop :=
  ∀ a b : Scope, a.Alike P.Alike b → P.Holds (do truthOf e (← e.evalWith P.reading env p a))
    (do truthOf (e.mapNodes P.map u) (← (e.mapNodes P.map u).eval env b))

/-- The comparison holds of the row numbers that an expression gives. -/
def Numbers (e : Expr) : Prop :=
  ∀ frames outer outer', (∀ f ∈ frames, P.Known f) → P.Alike outer outer' →
    P.Holds (e.windowColumnWith P.reading env frames outer) ((e.mapNodes P.map .value).windowColumn env frames outer')

/-- The rows of a source extend known frames to known ones. -/
def Extends (s : Source) : Prop :=
  ∀ outer outer', P.Alike outer outer' → ∀ r, s.rowsWith P.reading env outer = .ok r →
    ∀ frame, P.Known frame → ∀ f ∈ frame.extendAll s.id r, P.Known f

variable {P}

theorem Truths.holds {e : Expr} (h : P.Truths e .condition .condition) {a b : Scope} (hab : a.Alike P.Alike b) :
    P.Holds (e.holdsRead P.reading env a) ((e.mapNodes P.map .condition).holds env b) := by
  simp only [Expr.holdsRead, Expr.holds, holdsWith, ← bind_assoc]
  exact P.bind_pure (h a b hab) (·.getD false)

/-! ## Known frames -/

theorem extends_of_tableSources {s : Source} (h : ∀ t ∈ s.tableSources, P.Extends t) : P.Extends s := by
  cases s with
  | table | derived | setOperation => exact h _ (by rw [Source.tableSources]; exact mem_cons_self)
  | joined | joinedOn =>
    intro outer outer' _ r hr
    cases hr

theorem known_flatten_of_mapM {f : Frame → Except Error (List Frame)} {frames : List Frame}
    (hf : ∀ frame ∈ frames, ∀ joined, f frame = .ok joined → ∀ g ∈ joined, P.Known g)
    {joined : List (List Frame)} (h : frames.mapM f = .ok joined) : ∀ g ∈ joined.flatten, P.Known g := by
  intro g hg
  obtain ⟨found, hfound, hg⟩ := mem_flatten.1 hg
  obtain ⟨frame, hframe, hok⟩ := mem_map.1 (Except.mapM_eq_ok_iff.1 h ▸ mem_map_of_mem hfound)
  exact hf frame hframe found hok g hg

/-- A further source whose rows extend known frames gives known frames. -/
theorem joinBy_known {s : Source} (hs : ∀ t ∈ s.tableSources, P.Extends t) {holds : Expr → Scope → Except Error Bool}
    {frames outer outer' : List Frame} (hframes : ∀ f ∈ frames, P.Known f) (houter : P.Alike outer outer')
    {next : List Frame} (h : s.joinBy (Source.rowsWith P.reading env) holds frames outer = .ok next) :
    ∀ f ∈ next, P.Known f := by
  have hcross {source : Source} (hsource : P.Extends source)
      (h : (do return crossJoin frames source.id (← source.rowsWith P.reading env outer)) = Except.ok (ε := Error) next) :
      ∀ f ∈ next, P.Known f := by
    obtain ⟨r, hr, h⟩ := Except.bind_eq_ok_iff.1 h
    rw [Except.pure_eq_ok_iff] at h
    subst h
    intro f hf
    obtain ⟨frame, hframe, hf⟩ := mem_flatMap.1 hf
    exact hsource outer outer' houter r hr frame (hframes frame hframe) f hf
  cases s with
  | joined kind source =>
    rw [Source.tableSources] at hs
    have hsource := extends_of_tableSources hs
    cases kind with
    | cross => exact hcross hsource h
    | crossApply | outerApply =>
      obtain ⟨found, hfound, h⟩ := Except.bind_eq_ok_iff.1 h
      rw [Except.pure_eq_ok_iff] at h
      subst h
      refine known_flatten_of_mapM (fun frame hframe joined hjoined => ?_) hfound
      obtain ⟨r, hr, hjoined⟩ := Except.bind_eq_ok_iff.1 hjoined
      rw [Except.pure_eq_ok_iff, applyRows] at hjoined
      subst hjoined
      have hknown := hframes frame hframe
      split
      · exact forall_mem_singleton.2 (P.closed.extendNull hknown _ r)
      · exact hsource _ _ (P.cons houter hknown) r hr frame hknown
  | joinedOn kind source predicate =>
    rw [Source.tableSources, forall_mem_append] at hs
    have hsource := extends_of_tableSources hs.1
    obtain ⟨r, hr, h⟩ := Except.bind_eq_ok_iff.1 h
    obtain ⟨found, hfound, h⟩ := Except.bind_eq_ok_iff.1 h
    rw [Except.pure_eq_ok_iff] at h
    subst h
    refine known_flatten_of_mapM (fun frame hframe joined hjoined => ?_) hfound
    obtain ⟨matched, hmatched, hjoined⟩ := Except.bind_eq_ok_iff.1 hjoined
    rw [Except.pure_eq_ok_iff] at hjoined
    subst hjoined
    have hknown := hframes frame hframe
    split
    · exact forall_mem_singleton.2 (P.closed.extendNull hknown _ r)
    · rw [(Except.filterM_eq_ok_iff.1 hmatched).2]
      exact fun f hf => hsource outer outer' houter r hr frame hknown f (mem_filter.1 hf).1
  | _ => exact hcross (extends_of_tableSources hs) h

theorem joinAll_known {ss : List Source} (hss : ∀ t ∈ Source.tableSourcesList ss, P.Extends t)
    {frames outer outer' : List Frame} (hframes : ∀ f ∈ frames, P.Known f) (houter : P.Alike outer outer')
    {joined : List Frame} (h : Source.joinAllWith P.reading env ss frames outer = .ok joined) : ∀ f ∈ joined, P.Known f := by
  induction ss generalizing frames with
  | nil => exact Except.ok.inj h ▸ hframes
  | cons s rest ih =>
    rw [Source.tableSourcesList, forall_mem_append] at hss
    rw [Source.joinAllWith_cons] at h
    obtain ⟨next, hnext, h⟩ := Except.bind_eq_ok_iff.1 h
    exact ih hss.2 (joinBy_known hss.1 hframes houter hnext) h

/-! ## Clauses -/

section Clauses

variable {a b : Scope} (hab : a.Alike P.Alike b)

include hab

theorem evalAll {es : List Expr} (h : ∀ e ∈ es, P.Values e .value .value) :
    P.Holds (Expr.evalAllWith P.reading env es a) (Expr.evalAll env (Expr.mapList P.map es) b) := by
  induction es with
  | nil => exact P.ok []
  | cons e es ih =>
    rw [forall_mem_cons] at h
    exact P.bind (h.1 a b hab) fun v _ _ => P.bind_pure (ih h.2) (v :: ·)

theorem evalOption {o : Option Expr} (h : ∀ e ∈ o, P.Values e .value .value) :
    P.Holds (Expr.evalOptionWith P.reading env o a) (Expr.evalOption env (Expr.mapOption P.map o .value) b) := by
  cases o with
  | none => exact P.ok none
  | some e => exact P.bind_pure (h e rfl a b hab) some

theorem holdsOption {o : Option Expr} (h : ∀ e ∈ o, P.Truths e .condition .condition) :
    P.Holds (Expr.holdsOptionWith P.reading env o a) (Expr.holdsOption env (Expr.mapOption P.map o .condition) b) := by
  cases o with
  | none => exact P.ok true
  | some e => exact (h e rfl).holds hab

theorem sortValues {ts : List SortTerm} (h : ∀ t ∈ ts, P.Values t.expr .value .value) :
    P.Holds (SortTerm.evalAllWith P.reading env ts a) (SortTerm.evalAll env (SortTerm.mapList P.map ts) b) := by
  induction ts with
  | nil => exact P.ok []
  | cons t ts ih =>
    cases t
    rw [forall_mem_cons] at h
    exact P.bind (h.1 a b hab) fun v _ _ => P.bind_pure (ih h.2) (v :: ·)

theorem projections {ps : List Projection} (h : ∀ p ∈ ps, P.Values p.expr .value .value) (numbers : List (Option Nat)) :
    P.Holds (Projection.evalAllWith P.reading env ps numbers a)
      (Projection.evalAll env (Projection.mapList P.map ps) numbers b) := by
  induction ps generalizing numbers with
  | nil => exact P.ok []
  | cons p ps ih =>
    cases p
    rw [forall_mem_cons] at h
    simp only [Projection.mapList, Projection.evalAllWith, Projection.evalAll]
    cases numbers.head?.join with
    | none => exact P.bind (h.1 a b hab) fun v _ _ => P.bind_pure (ih h.2 numbers.tail) (v :: ·)
    | some n => exact P.bind (P.ok _) fun v _ _ => P.bind_pure (ih h.2 numbers.tail) (v :: ·)

end Clauses

theorem sortKey {e e' : Expr} {place : Option Nat} {row : Row} {a b : Scope}
    (h : P.Holds (e.evalWith P.reading env .value a) (e'.eval env b)) :
    P.Holds (e.sortKeyRead P.reading env place row a) (e'.sortKey env place row b) := by
  cases place with
  | none => exact h
  | some index => exact P.ok _

theorem sortKeys {a b : Scope} {row : Row} {place place' : Expr → Option Nat} {ts : List SortTerm}
    (h : ∀ t ∈ ts, P.Holds (t.expr.sortKeyRead P.reading env (place t.expr) row a)
      ((t.expr.mapNodes P.map .value).sortKey env (place' (t.expr.mapNodes P.map .value)) row b)) :
    P.Holds (SortTerm.keysWith P.reading env ts (ts.map fun t => place t.expr) row a)
      (SortTerm.keys env (SortTerm.mapList P.map ts)
        ((SortTerm.mapList P.map ts).map fun t => place' t.expr) row b) := by
  induction ts with
  | nil => exact P.ok []
  | cons t ts ih =>
    obtain ⟨hkey, hrest⟩ := forall_mem_cons.1 h
    obtain ⟨expr, ascending⟩ := t
    simp only [SortTerm.mapList, SortTerm.mapNodes, map_cons, SortTerm.keysWith, SortTerm.keys]
    cases hplace : place expr <;> cases hplace' : place' (expr.mapNodes P.map .value) <;>
      rw [hplace, hplace'] at hkey <;> exact P.bind hkey fun v _ _ => P.bind_pure (ih hrest) (v :: ·)

variable {outer outer' : List Frame} (houter : P.Alike outer outer')

include houter

theorem countOption {o : Option Expr} (h : ∀ e ∈ o, P.Values e .value .value) :
    P.Holds (Expr.countOptionWith P.reading env o outer) (Expr.countOption env (Expr.mapOption P.map o .value) outer') := by
  cases o with
  | none => exact P.ok none
  | some e =>
    refine P.bind (h e rfl _ _ (Scope.alike_ofRow (P.cons houter P.closed.nil))) fun v _ _ => ?_
    exact P.bind_pure (P.plain (.rowCount v)) some

theorem windows {ps : List Projection} (h : ∀ p ∈ ps, P.Numbers p.expr) {frames : List Frame}
    (hframes : ∀ f ∈ frames, P.Known f) :
    P.Holds (Projection.windowsWith P.reading env ps frames outer)
      (Projection.windows env (Projection.mapList P.map ps) frames outer') := by
  induction ps with
  | nil => exact P.ok _
  | cons p ps ih =>
    cases p
    rw [forall_mem_cons] at h
    refine P.bind (h.1 frames outer outer' hframes houter) fun column _ _ => ?_
    exact P.bind_pure (ih h.2) (List.zipWith (· :: ·) column)

omit houter in
theorem evalAggregate {es : List Expr} (h : ∀ e ∈ es, P.Values e .value .value) (name : String) {group group' : List Frame}
    (hgroup : Forall₂ (fun f g => P.Alike (f :: outer) (g :: outer')) group group') :
    P.Holds (Expr.evalAggregateWith P.reading env es name group outer)
      (Expr.evalAggregate env (Expr.mapList P.map es) name group' outer') := by
  cases es with
  | nil =>
    rw [Expr.evalAggregateWith, Expr.mapList, Expr.evalAggregate, hgroup.length_eq]
    exact P.plain (.countRows _ _)
  | cons e es =>
    refine P.bind (P.mapM (hgroup.imp fun f g hfg => ?_)) fun values _ _ => P.plain (.applyAggregate name values)
    exact h e mem_cons_self _ _ (Scope.alike_ofRow hfg)

end Passage

/-! ## Simulations -/

/-- An expression that can stand for a reference in any clause. -/
structure Expr.ReferenceLike (e : Expr) : Prop where
  aggregate : e.containsAggregate = false
  number : e.isRowNumber = false
  equal : e.beq e

theorem Expr.referenceLike_column (c : ColumnRef) : (column c).ReferenceLike :=
  ⟨rfl, rfl, by simp [Expr.beq]⟩

theorem Expr.referenceLike_keyAccess (k : KeyRef) : (keyAccess k).ReferenceLike :=
  ⟨rfl, rfl, by simp [Expr.beq]⟩

/-- The comparison holds at the leaves: at references, but for those that `changes` tells, and wherever a truth value is
asked for. It is enough that it does so for expressions that are allowed, and in selects whose terms are sorted alike. -/
structure Simulation (env : Environment) extends Passage env where
  changes : Usage → Expr → Bool
  Allowed : Occurrence → Prop
  Sorted : Select → Prop
  columnLike : ∀ c u, (map.column c u).ReferenceLike
  keyLike : ∀ k u, (map.key k u).ReferenceLike
  value : ∀ e, changes .value e = false
  column : ∀ {c u p}, u.Marks p → Allowed ⟨.column c, p⟩ → changes u (.column c) = false →
    toPassage.Values (.column c) p u
  key : ∀ {k u p}, u.Marks p → Allowed ⟨.keyAccess k, p⟩ → changes u (.keyAccess k) = false →
    toPassage.Values (.keyAccess k) p u
  truthOf : ∀ {e p}, p.decides → Allowed ⟨e, p⟩ → ∀ u v, Holds (truthOf e v) (truthOf (e.mapNodes map u) v)
  ungrouped : ∀ {name niladic receiver arguments mapping p}, isAggregateName name →
    Allowed ⟨.call name niladic receiver arguments mapping, p⟩ →
      Holds (.error (.evaluation (.aggregateOutsideGroup name)) : Except Error Value)
        (.error (.evaluation (.aggregateOutsideGroup name)))
  changedTruth : ∀ {e u p}, u.Marks p → p.decides → Allowed ⟨e, p⟩ → changes u e → toPassage.Truths e p u
  changedOperands : ∀ {op left right u p}, u.Marks p → op.isLogical = false → Allowed ⟨left, p.operand op⟩ →
    Allowed ⟨right, p.operand op⟩ → Allowed ⟨.binary op left right, p⟩ →
    (changes (u.operand op) left || changes (u.operand op) right) → toPassage.Values (.binary op left right) p u
  sorts : ∀ {s}, Sorted s → ∀ t ∈ s.orderings, toPassage.Values t.expr .value .value → ∀ {numbers row a b},
    a.Alike Alike b → Projection.Numbered (s.mapNodes map).projections numbers →
    Projection.evalAll env (s.mapNodes map).projections numbers b = .ok row →
    Holds (t.expr.sortKeyRead reading env (s.placeOf t.expr) row a)
      ((t.expr.mapNodes map .value).sortKey env ((s.mapNodes map).placeOf (t.expr.mapNodes map .value)) row b)

namespace Simulation

variable {env : Environment} (S : Simulation env)

/-- What holds of the expressions, selects and sources inside a part of a tree. -/
@[mk_iff]
structure Tame (inside : List Occurrence) (selects : List Select) (sources : List Source) : Prop where
  occurrences : ∀ o ∈ inside, S.Allowed o
  selects : ∀ q ∈ selects, S.Sorted q
  sources : ∀ s ∈ sources, S.Extends s

variable {S} {inside inside' : List Occurrence} {selects selects' : List Select} {sources sources' : List Source}

theorem Tame.append_iff : S.Tame (inside ++ inside') (selects ++ selects') (sources ++ sources') ↔
    S.Tame inside selects sources ∧ S.Tame inside' selects' sources' := by
  simp only [tame_iff, forall_mem_append]
  tauto

theorem Tame.occurrence_iff {o : Occurrence} : S.Tame (o :: inside) selects sources ↔
    S.Allowed o ∧ S.Tame inside selects sources := by
  simp only [tame_iff, forall_mem_cons]
  tauto

theorem Tame.select_iff {q : Select} : S.Tame inside (q :: selects) sources ↔
    S.Sorted q ∧ S.Tame inside selects sources := by
  simp only [tame_iff, forall_mem_cons]
  tauto

theorem Tame.source_iff {s : Source} : S.Tame inside selects (s :: sources) ↔
    S.Extends s ∧ S.Tame inside selects sources := by
  simp only [tame_iff, forall_mem_cons]
  tauto

variable (S)

/-- Where the truth of an expression is asked for, the comparison holds of it, whether the expression is changed or
not. -/
theorem truths {e : Expr} {u : Usage} {p : Position} (hmarks : u.Marks p) (hdecides : p.decides)
    (hallowed : S.Allowed ⟨e, p⟩) (h : S.changes u e = false → S.Values e p u) : S.Truths e p u := by
  cases hchanges : S.changes u e with
  | false => exact fun a b hab => S.bind (h hchanges a b hab) fun v _ _ => S.truthOf hdecides hallowed u v
  | true => exact S.changedTruth hmarks hdecides hallowed hchanges

theorem values_binary {op : BinaryOp} {left right : Expr} {u : Usage} {p : Position} (hmarks : u.Marks p)
    (hself : S.Allowed ⟨.binary op left right, p⟩) (hleft : S.Allowed ⟨left, p.operand op⟩)
    (hright : S.Allowed ⟨right, p.operand op⟩)
    (hl : S.changes (u.operand op) left = false → S.Values left (p.operand op) (u.operand op))
    (hr : S.changes (u.operand op) right = false → S.Values right (p.operand op) (u.operand op)) :
    S.Values (.binary op left right) p u := by
  intro a b hab
  cases hlogical : op.isLogical with
  | true =>
    simp only [Expr.mapNodes, Expr.evalWith, Expr.eval, hlogical, if_true, ← bind_assoc]
    refine S.bind (S.truths (hmarks.operand op) hlogical hleft hl a b hab) fun truth _ _ => ?_
    split
    · exact S.ok _
    · exact S.bind_pure (S.truths (hmarks.operand op) hlogical hright hr a b hab) fun b => Truth.toValue (op.connect truth b)
  | false =>
    cases hchanges : S.changes (u.operand op) left || S.changes (u.operand op) right with
    | true => exact S.changedOperands hmarks hlogical hleft hright hself hchanges a b hab
    | false =>
      rw [Bool.or_eq_false_iff] at hchanges
      simp only [Expr.mapNodes, Expr.evalWith, Expr.eval, hlogical, Bool.false_eq_true, if_false]
      refine S.bind (hl hchanges.1 a b hab) fun v _ _ => S.bind (hr hchanges.2 a b hab) fun w _ _ => ?_
      exact S.plain (.applyBinary op v w)

theorem values_unary {op : UnaryOp} {operand : Expr} {u : Usage} {p : Position} (hmarks : u.Marks p)
    (hoperand : S.Allowed ⟨operand, p.unaryOperand op⟩)
    (h : S.changes (u.unaryOperand op) operand = false → S.Values operand (p.unaryOperand op) (u.unaryOperand op)) :
    S.Values (.unary op operand) p u := by
  intro a b hab
  simp only [Expr.mapNodes, Expr.evalWith, Expr.eval]
  cases op with
  | not =>
    simp only [applyUnary, ← bind_assoc]
    exact S.bind_pure (S.truths (hmarks.unaryOperand .not) rfl hoperand h a b hab) fun truth => Truth.toValue (truth.map (!·))
  | negate => exact S.bind (h (S.value operand) a b hab) fun v _ _ => S.plain (.negate v)
  | isNull | isNotNull => exact S.bind (h (S.value operand) a b hab) fun v _ _ => S.ok _

theorem containsAggregate (e : Expr) : ∀ u, (e.mapNodes S.map u).containsAggregate = e.containsAggregate := by
  revert e
  apply @Expr.rec (fun e => ∀ u, (e.mapNodes S.map u).containsAggregate = e.containsAggregate)
    (fun _ => True) (fun _ => True) (fun _ => True) (fun _ => True)
    (fun e => ∀ u, Expr.containsAggregateOption (Expr.mapOption S.map e u) = Expr.containsAggregateOption e)
    (fun es => Expr.containsAggregateList (Expr.mapList S.map es) = Expr.containsAggregateList es)
    (fun _ => True) (fun _ => True) (fun _ => True)
  all_goals intros
  all_goals simp_all [Expr.containsAggregate, Expr.containsAggregateList, Expr.containsAggregateOption, Expr.mapNodes,
    Expr.mapList, Expr.mapOption, (S.columnLike _ _).aggregate, (S.keyLike _ _).aggregate]

/-! ## Selects -/

/-- The comparison holds of the clauses of a select. -/
structure Clauses (s : Select) : Prop where
  sorted : S.Sorted s
  sources : ∀ {outer outer'}, S.Alike outer outer' → S.Holds (Source.joinAllWith S.reading env s.sources [[]] outer)
    (Source.joinAll env (Source.mapList S.map s.sources) [[]] outer')
  known : ∀ {outer outer'}, S.Alike outer outer' → ∀ {frames},
    Source.joinAllWith S.reading env s.sources [[]] outer = .ok frames → ∀ f ∈ frames, S.Known f
  projections : ∀ p ∈ s.projections, S.Values p.expr .value .value ∧ S.Numbers p.expr
  predicate : ∀ e ∈ s.predicate, S.Truths e .condition .condition
  groupBy : ∀ e ∈ s.groupBy, S.Values e .value .value
  having : ∀ e ∈ s.having, S.Truths e .condition .condition
  orderings : ∀ t ∈ s.orderings, S.Values t.expr .value .value
  limit : ∀ e ∈ s.limit, S.Values e .value .value
  offset : ∀ e ∈ s.offset, S.Values e .value .value

namespace Clauses

variable {S} {projections : List Projection} {sources : List Source} {predicate having limit offset : Option Expr}
  {groupBy : List Expr} {orderings : List SortTerm} {distinct : Bool}
  (h : S.Clauses ⟨projections, sources, predicate, groupBy, having, orderings, limit, offset, distinct⟩)

include h

theorem keyedRow {numbers : List (Option Nat)}
    (hnumbers : Projection.Numbered (Projection.mapList S.map projections) numbers) {a b : Scope} (hab : a.Alike S.Alike b) :
    S.Holds
      (do
        let row ← Projection.evalAllWith S.reading env projections numbers a
        let keys ← SortTerm.keysWith S.reading env orderings
          (orderings.map fun t => projections.findIdx? (·.expr == t.expr)) row a
        return (row, keys))
      (do
        let row ← Projection.evalAll env (Projection.mapList S.map projections) numbers b
        let keys ← SortTerm.keys env (SortTerm.mapList S.map orderings) ((SortTerm.mapList S.map orderings).map fun t =>
          (Projection.mapList S.map projections).findIdx? (·.expr == t.expr)) row b
        return (row, keys)) := by
  refine S.bind (Passage.projections hab (fun p hp => (h.projections p hp).1) numbers) fun row _ hrow => ?_
  exact S.bind_pure (Passage.sortKeys fun t ht => S.sorts h.sorted t ht (h.orderings t ht) hab hnumbers hrow) (row, ·)

theorem cut {outer outer' : List Frame} (houter : S.Alike outer outer') (result : Option Nat → Option Nat → Relation) :
    S.Holds
      (do
        let offset ← Expr.countOptionWith S.reading env offset outer
        let limit ← Expr.countOptionWith S.reading env limit outer
        return result offset limit)
      (do
        let offset ← Expr.countOption env (Expr.mapOption S.map offset .value) outer'
        let limit ← Expr.countOption env (Expr.mapOption S.map limit .value) outer'
        return result offset limit) := by
  refine S.bind (Passage.countOption houter h.offset) fun skipped _ _ => ?_
  exact S.bind_pure (Passage.countOption houter h.limit) (result skipped)

/-- The comparison holds of the rows of a select if it does of its clauses. -/
theorem run {outer outer' : List Frame} (houter : S.Alike outer outer') :
    S.Holds (Select.runWith S.reading env
        ⟨projections, sources, predicate, groupBy, having, orderings, limit, offset, distinct⟩ outer)
      (Select.run env (Select.mapNodes S.map
        ⟨projections, sources, predicate, groupBy, having, orderings, limit, offset, distinct⟩) outer') := by
  have hgrouped : Select.isGrouped (Projection.mapList S.map projections) (Expr.mapList S.map groupBy)
      (Expr.mapOption S.map having .condition) = Select.isGrouped projections groupBy having := by
    simp only [Select.isGrouped, Projection.mapList_eq_map, Expr.mapList_eq_map, Expr.mapOption_eq_map, isEmpty_map,
      Option.isSome_map, any_map, Function.comp_def, S.containsAggregate]
  have hempty : (Expr.mapList S.map groupBy).isEmpty = groupBy.isEmpty := by
    rw [Expr.mapList_eq_map, isEmpty_map]
  have hascending : (SortTerm.mapList S.map orderings).map (·.ascending) = orderings.map (·.ascending) := by
    rw [SortTerm.mapList_eq_map, map_map]
    rfl
  have hnames : (Projection.mapList S.map projections).map (·.aliasName) = projections.map (·.aliasName) := by
    rw [Projection.mapList_eq_map, map_map]
    rfl
  simp only [Select.mapNodes, Select.run, Select.runWith, hgrouped, hempty, hascending, hnames]
  refine S.bind (h.sources houter) fun joined hjoined _ => ?_
  have hrow {frame : Frame} (hframe : frame ∈ joined) : (Scope.ofRow frame outer).Alike S.Alike (.ofRow frame outer') :=
    Scope.alike_ofRow (S.cons houter (h.known houter hjoined frame hframe))
  refine S.bind (S.filterM fun frame hframe => Passage.holdsOption (hrow hframe) h.predicate) fun frames hframes _ => ?_
  have hkept {frame : Frame} (hframe : frame ∈ frames) : frame ∈ joined := by
    rw [(Except.filterM_eq_ok_iff.1 hframes).2] at hframe
    exact (mem_filter.1 hframe).1
  have hscope {group : List Frame} (hgroup : ∀ f ∈ group, f ∈ frames) :
      (Scope.ofGroup group outer).Alike S.Alike (.ofGroup group outer') :=
    S.alike_ofGroup houter fun f hf => h.known houter hjoined f (hkept (hgroup f hf))
  by_cases hgrouped : Select.isGrouped projections groupBy having
  · rw [if_pos hgrouped, if_pos hgrouped]
    by_cases hempty : groupBy.isEmpty
    · rw [if_pos hempty, if_pos hempty]
      refine S.bind (S.ok [frames]) fun groups hgroups _ => S.bind (S.groupedRows (fun group hgroup => ?_)
        fun group hgroup => ?_) fun rows _ _ => h.cut houter _
      all_goals
        cases hgroups
        obtain rfl := mem_singleton.1 hgroup
      · exact Passage.holdsOption (hscope fun f hf => hf) h.having
      · exact h.keyedRow (Projection.numbered_nil _) (hscope fun f hf => hf)
    · rw [if_neg hempty, if_neg hempty]
      refine S.bind (S.groupFrames fun frame hframe => Passage.evalAll (hrow (hkept hframe)) h.groupBy)
        fun groups hgroups _ => S.bind (S.groupedRows (fun group hgroup => ?_) fun group hgroup => ?_)
          fun rows _ _ => h.cut houter _
      all_goals have hscope := hscope fun f hf => mem_of_mem_groupFrames hgroups hgroup hf
      · exact Passage.holdsOption hscope h.having
      · exact h.keyedRow (Projection.numbered_nil _) hscope
  · rw [if_neg hgrouped, if_neg hgrouped]
    refine S.bind (Passage.windows houter (fun p hp => (h.projections p hp).2)
      fun f hf => h.known houter hjoined f (hkept hf)) fun windows _ hwindows => ?_
    refine S.bind (S.mapM_same fun numbered hmem => ?_) fun rows _ _ => h.cut houter _
    exact h.keyedRow (Projection.numbered_of_windows hwindows (of_mem_zip hmem).2) (hrow (hkept (of_mem_zip hmem).1))

end Clauses

end Simulation

/-! ## Trees -/

section Evaluation

open Simulation.Tame

variable {env : Environment} (S : Simulation env)

mutual

theorem Expr.simulated : ∀ (e : Expr) {u : Usage} {p : Position}, u.Marks p →
    S.Tame (e.occurrences p) e.selects e.tableSources → S.changes u e = false → S.Values e p u
  | .column c, u, p, hmarks, h, hchanges => S.column hmarks (h.occurrences _ mem_cons_self) hchanges
  | .keyAccess k, u, p, hmarks, h, hchanges => S.key hmarks (h.occurrences _ mem_cons_self) hchanges
  | .constant value mapping, _, _, _, _, _ => fun a b _ => S.plain (.storedValue mapping value)
  | .parameter name mapping, _, _, _, _, _ => fun a b _ => S.plain (.parameter env name mapping)
  | .binary op left right, u, p, hmarks, h, _ => by
    simp only [Expr.occurrences, Expr.selects, Expr.tableSources, occurrence_iff, append_iff] at h
    obtain ⟨hself, hleft, hright⟩ := h
    exact S.values_binary hmarks hself (hleft.occurrences _ (left.mem_occurrences _))
      (hright.occurrences _ (right.mem_occurrences _)) (Expr.simulated left (hmarks.operand op) hleft)
      (Expr.simulated right (hmarks.operand op) hright)
  | .unary op operand, u, p, hmarks, h, _ => by
    simp only [Expr.occurrences, Expr.selects, Expr.tableSources, occurrence_iff] at h
    exact S.values_unary hmarks (h.2.occurrences _ (operand.mem_occurrences _))
      (Expr.simulated operand (hmarks.unaryOperand op) h.2)
  | .conditional test ifTrue ifFalse, u, p, _, h, _ => by
    simp only [Expr.occurrences, Expr.selects, Expr.tableSources, occurrence_iff, append_iff] at h
    obtain ⟨-, ⟨htest, htrue⟩, hfalse⟩ := h
    intro a b hab
    have htest := S.truths .condition rfl (htest.occurrences _ (test.mem_occurrences _))
      (Expr.simulated test .condition htest)
    simp only [Expr.mapNodes, Expr.evalWith, Expr.eval, ← bind_assoc]
    refine S.bind (htest.holds hab) fun holds _ _ => ?_
    cases holds with
    | true => exact Expr.simulated ifTrue .value htrue (S.value _) a b hab
    | false => exact Expr.simulated ifFalse .value hfalse (S.value _) a b hab
  | .call name niladic receiver arguments mapping, u, p, _, h, _ => by
    simp only [Expr.occurrences, Expr.selects, Expr.tableSources, occurrence_iff, append_iff] at h
    obtain ⟨hself, hreceiver, harguments⟩ := h
    intro a b hab
    have hgroup := hab.group
    simp only [Expr.mapNodes, Expr.evalWith, Expr.eval]
    split
    case isTrue hname =>
      generalize a.group = group at hgroup
      generalize b.group = group' at hgroup
      cases hgroup with
      | none => exact S.ungrouped hname hself
      | some hgroup => exact Passage.evalAggregate (Expr.simulated_list arguments harguments) name hgroup
    case isFalse =>
      refine S.bind (Passage.evalOption hab (Expr.simulated_option receiver hreceiver)) fun r _ _ => ?_
      refine S.bind (Passage.evalAll hab (Expr.simulated_list arguments harguments)) fun as _ _ => ?_
      exact S.plain (.applyFunction _ _)
  | .inValues item values negated, u, p, _, h, _ => by
    simp only [Expr.occurrences, Expr.selects, Expr.tableSources, occurrence_iff, append_iff] at h
    intro a b hab
    refine S.bind (Expr.simulated item .value h.2.1 (S.value _) a b hab) fun v _ _ => ?_
    split
    · exact S.ok _
    · exact S.bind_pure (Passage.evalAll hab (Expr.simulated_list values h.2.2)) _
  | .inSubquery item subquery negated, u, p, _, h, _ => by
    simp only [Expr.occurrences, Expr.selects, Expr.tableSources, occurrence_iff, append_iff] at h
    intro a b hab
    refine S.bind (Expr.simulated item .value h.2.1 (S.value _) a b hab) fun v _ _ => ?_
    split
    · exact S.ok _
    · exact S.bind_pure (Select.simulated subquery h.2.2 hab.frames) _
  | .exists subquery negated, u, p, _, h, _ => by
    simp only [Expr.occurrences, Expr.selects, Expr.tableSources, occurrence_iff] at h
    exact fun a b hab => S.bind_pure (Select.simulated subquery h.2 hab.frames) _
  | .like subject pattern escape, u, p, _, h, _ => by
    simp only [Expr.occurrences, Expr.selects, Expr.tableSources, occurrence_iff, append_iff] at h
    intro a b hab
    refine S.bind (Expr.simulated subject .value h.2.1.1 (S.value _) a b hab) fun s _ _ => ?_
    refine S.bind (Expr.simulated pattern .value h.2.1.2 (S.value _) a b hab) fun t _ _ => ?_
    refine S.bind (Passage.evalOption hab (Expr.simulated_option escape h.2.2)) fun e _ _ => S.plain (.applyLike _ _ _)
  | .scalarSubquery subquery, u, p, _, h, _ => by
    simp only [Expr.occurrences, Expr.selects, Expr.tableSources, occurrence_iff] at h
    exact fun a b hab => S.bind (Select.simulated subquery h.2 hab.frames) fun r _ _ => S.plain (.scalarOf r)
  | .rowNumber partitions orderings, _, _, _, _, _ => fun a b _ => S.plain (.error rfl)
termination_by structural e => e

theorem Expr.simulated_option : ∀ o : Option Expr,
    S.Tame (Expr.occurrencesOption o .value) (Expr.selectsOption o) (Expr.tableSourcesOption o) →
      ∀ e ∈ o, S.Values e .value .value
  | none, _, _, he => nomatch he
  | some e, h, _, rfl => Expr.simulated e .value h (S.value e)
termination_by structural o => o

/-- The comparison holds of the truth of a condition. -/
theorem Expr.decided_option : ∀ o : Option Expr,
    S.Tame (Expr.occurrencesOption o .condition) (Expr.selectsOption o) (Expr.tableSourcesOption o) →
      ∀ e ∈ o, S.Truths e .condition .condition
  | none, _, _, he => nomatch he
  | some e, h, _, rfl =>
    S.truths .condition rfl (h.occurrences _ (e.mem_occurrences _)) (Expr.simulated e .condition h)
termination_by structural o => o

theorem Expr.simulated_list : ∀ es : List Expr,
    S.Tame (Expr.occurrencesList es) (Expr.selectsList es) (Expr.tableSourcesList es) →
      ∀ e ∈ es, S.Values e .value .value
  | [], _, _, he => nomatch he
  | e :: rest, h, x, hx => by
    simp only [Expr.occurrencesList, Expr.selectsList, Expr.tableSourcesList, append_iff] at h
    cases hx with
    | head => exact Expr.simulated e .value h.1 (S.value e)
    | tail _ hx => exact Expr.simulated_list rest h.2 x hx
termination_by structural es => es

theorem Expr.simulated_numbers : ∀ e : Expr,
    S.Tame (e.occurrences .value) e.selects e.tableSources → S.Numbers e
  | .rowNumber partitions orderings, h => by
    simp only [Expr.occurrences, Expr.selects, Expr.tableSources, occurrence_iff, append_iff] at h
    have hpartitions := Expr.simulated_list partitions h.2.1
    have horderings := SortTerm.simulated_list orderings h.2.2
    intro frames outer outer' hframes houter
    have hascending : (SortTerm.mapList S.map orderings).map (·.ascending) = orderings.map (·.ascending) := by
      rw [SortTerm.mapList_eq_map, map_map]
      rfl
    simp only [Expr.mapNodes, Expr.windowColumnWith, Expr.windowColumn, hascending]
    refine S.bind (S.mapM_same fun frame hframe => ?_) fun rows _ _ => S.ok _
    have hab := Scope.alike_ofRow (S.cons houter (hframes frame hframe))
    refine S.bind (Passage.evalAll hab hpartitions) fun partition _ _ => ?_
    exact S.bind_pure (Passage.sortValues hab horderings) fun keys => (Key.ofValues partition, keys)
  | .column c, _ => fun frames outer outer' _ _ => by
    rw [Expr.mapNodes, Expr.windowColumn_of_not_isRowNumber (S.columnLike c .value).number]
    exact S.ok _
  | .keyAccess k, _ => fun frames outer outer' _ _ => by
    rw [Expr.mapNodes, Expr.windowColumn_of_not_isRowNumber (S.keyLike k .value).number]
    exact S.ok _
  | .constant _ _, _ | .parameter _ _, _ | .binary _ _ _, _ | .unary _ _, _ | .conditional _ _ _, _
  | .call _ _ _ _ _, _ | .inValues _ _ _, _ | .inSubquery _ _ _, _ | .exists _ _, _ | .like _ _ _, _
  | .scalarSubquery _, _ => fun _ _ _ _ _ => S.ok _
termination_by structural e => e

theorem SortTerm.simulated_list : ∀ ts : List SortTerm,
    S.Tame (SortTerm.occurrencesList ts) (SortTerm.selectsList ts) (SortTerm.tableSourcesList ts) →
      ∀ t ∈ ts, S.Values t.expr .value .value
  | [], _, _, ht => nomatch ht
  | ⟨expr, ascending⟩ :: rest, h, x, hx => by
    simp only [SortTerm.occurrencesList, SortTerm.selectsList, SortTerm.tableSourcesList, append_iff] at h
    cases hx with
    | head => exact Expr.simulated expr .value h.1 (S.value expr)
    | tail _ hx => exact SortTerm.simulated_list rest h.2 x hx
termination_by structural ts => ts

theorem Projection.simulated_list : ∀ ps : List Projection,
    S.Tame (Projection.occurrencesList ps) (Projection.selectsList ps) (Projection.tableSourcesList ps) →
      ∀ p ∈ ps, S.Values p.expr .value .value ∧ S.Numbers p.expr
  | [], _, _, hp => nomatch hp
  | ⟨aliasName, expr⟩ :: rest, h, x, hx => by
    simp only [Projection.occurrencesList, Projection.selectsList, Projection.tableSourcesList, append_iff] at h
    cases hx with
    | head => exact ⟨Expr.simulated expr .value h.1 (S.value expr), Expr.simulated_numbers expr h.1⟩
    | tail _ hx => exact Projection.simulated_list rest h.2 x hx
termination_by structural ps => ps

/-- The comparison holds of the rows of a select, inside of alike frames. -/
theorem Select.simulated : ∀ s : Select, S.Tame s.occurrences s.selects s.tableSources →
    ∀ {outer outer'}, S.Alike outer outer' →
      S.Holds (s.runWith S.reading env outer) ((s.mapNodes S.map).run env outer')
  | ⟨projections, sources, predicate, groupBy, having, orderings, limit, offset, distinct⟩, h, outer, outer', houter => by
    simp only [Select.occurrences, Select.selects, Select.tableSources, select_iff, append_iff] at h
    obtain ⟨hsorted, ⟨⟨⟨⟨⟨⟨hprojections, hsources⟩, hpredicate⟩, hgroupBy⟩, hhaving⟩, horderings⟩, hlimit⟩, hoffset⟩ := h
    have hstart : ∀ f ∈ ([[]] : List Frame), S.Known f := forall_mem_singleton.2 S.closed.nil
    refine Simulation.Clauses.run ?_ houter
    exact {
      sorted := hsorted
      sources := Source.simulated_list sources hsources hstart
      known := fun houter _ hjoined => Passage.joinAll_known hsources.sources hstart houter hjoined
      projections := Projection.simulated_list projections hprojections
      predicate := Expr.decided_option predicate hpredicate
      groupBy := Expr.simulated_list groupBy hgroupBy
      having := Expr.decided_option having hhaving
      orderings := SortTerm.simulated_list orderings horderings
      limit := Expr.simulated_option limit hlimit
      offset := Expr.simulated_option offset hoffset }
termination_by structural s => s

theorem Source.simulated : ∀ s : Source, S.Tame s.occurrences s.selects s.tableSources →
    ∀ {outer outer'}, S.Alike outer outer' →
      S.Holds (s.rowsWith S.reading env outer) ((s.mapNodes S.map).rows env outer')
  | .table id aliasName name schema, _, _, _, _ => S.plain (.table env name)
  | .derived id aliasName select, h, _, _, houter => by
    simp only [Source.occurrences, Source.selects, Source.tableSources, source_iff] at h
    exact Select.simulated select h.2 houter
  | .setOperation id aliasName op distinct left right, h, _, _, houter => by
    simp only [Source.occurrences, Source.selects, Source.tableSources, source_iff, append_iff] at h
    refine S.bind (Select.simulated left h.2.1 houter) fun l _ _ => ?_
    exact S.bind_pure (Select.simulated right h.2.2 houter) (combine op distinct l)
  | .joined .., _, _, _, _ | .joinedOn .., _, _, _, _ => S.plain (.error rfl)
termination_by structural s => s

theorem Source.simulated_list : ∀ ss : List Source,
    S.Tame (Source.occurrencesList ss) (Source.selectsList ss) (Source.tableSourcesList ss) →
      ∀ {frames}, (∀ f ∈ frames, S.Known f) → ∀ {outer outer'}, S.Alike outer outer' →
        S.Holds (Source.joinAllWith S.reading env ss frames outer) (Source.joinAll env (Source.mapList S.map ss) frames outer')
  | [], _, _, _, _, _, _ => S.ok _
  | s :: rest, h, frames, hframes, outer, outer', houter => by
    simp only [Source.occurrencesList, Source.selectsList, Source.tableSourcesList, append_iff] at h
    obtain ⟨hs, hrest⟩ := h
    rw [Source.mapList, Source.joinAllWith_cons, Source.joinAll_cons]
    refine S.bind ?_ fun next hnext _ => Source.simulated_list rest hrest
      (Passage.joinBy_known hs.sources hframes houter hnext) houter
    have hrows := Source.simulated s hs houter
    cases s with
    | joined kind source =>
      cases kind with
      | cross =>
        simp only [Source.mapNodes, Source.joinBy, Source.id_mapNodes]
        exact S.bind_pure (Source.simulated source hs houter) (crossJoin frames source.id)
      | crossApply | outerApply =>
        simp only [Source.mapNodes, Source.joinBy, Source.id_mapNodes]
        refine S.bind_pure (S.mapM_same fun frame hframe => ?_) List.flatten
        exact S.bind_pure (Source.simulated source hs (S.cons houter (hframes frame hframe))) fun r =>
          applyRows _ source.id r frame
    | joinedOn kind source predicate =>
      simp only [Source.occurrences, Source.selects, Source.tableSources, append_iff] at hs
      obtain ⟨hsource, hpredicate⟩ := hs
      have htruth := S.truths .condition rfl (hpredicate.occurrences _ (predicate.mem_occurrences _))
        (Expr.simulated predicate .condition hpredicate)
      simp only [Source.mapNodes, Source.joinBy, Source.id_mapNodes]
      refine S.bind (Source.simulated source hsource houter) fun r hr _ => ?_
      refine S.bind_pure (S.mapM_same fun frame hframe => S.joinWhere (fun extended hextended => ?_) kind) List.flatten
      refine htruth.holds (Scope.alike_ofRow (S.cons houter ?_))
      exact Passage.extends_of_tableSources hsource.sources _ _ houter r hr frame (hframes frame hframe) extended hextended
    | _ => exact S.bind_pure hrows _
termination_by structural ss => ss

end

end Evaluation

end QueryShaping
