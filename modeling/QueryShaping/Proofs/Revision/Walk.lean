import Mathlib.Logic.Basic
import Mathlib.Tactic.MkIffOfInductiveProp
import QueryShaping.Proofs.Query.NodeMap
import QueryShaping.Revision.Alias

/-!
# What a walk does

A walk gives the tree in which the answers of the visitor stand for the nodes that it was asked about, and every other
node is as it was. It reports a change where the visitor has answered, and only there.

A node is rebuilt from parts of which some have changed and some have not. So for each way of rebuilding it is shown that
the new node has all the new parts and no old part that has a new one; the tree is then only followed.
-/

namespace QueryShaping

namespace Revised

variable {α β : Type} {x : Revised α} {old new : α}

/-- Whether a value has become of an old one as reported: without a change it is the old one. -/
structure Revises (x : Revised α) (old new : α) : Prop where
  value : x.value = new
  same : x.changed = false → new = old

theorem Revises.getD (h : x.Revises old new) : x.new?.getD old = new := by
  cases hchanged : x.changed with
  | true => simpa [new?, hchanged] using h.value
  | false => simp [new?, hchanged, h.same hchanged]

theorem Revises.eq_pure (h : x.Revises old new) (hsame : x.changed = false) : x = pure old := by
  obtain ⟨value, changed⟩ := x
  obtain rfl : changed = false := hsame
  exact congrArg (Revised.mk · false) (h.value.trans (h.same rfl))

theorem revises_pure (a : α) : (pure a : Revised α).Revises a a :=
  ⟨rfl, fun _ => rfl⟩

theorem revises_orElseKeep {answer : Option α} (h : answer.getD old = new) :
    (orElseKeep answer old).Revises old new := by
  cases answer with
  | some a => exact ⟨h, nofun⟩
  | none => exact ⟨h, fun _ => h.symm⟩

theorem Revises.getD_map (h : x.Revises old new) (f : α → β) : (x.new?.map f).getD (f old) = f new := by
  rw [Option.getD_map, h.getD]

/-- A node with one part that has become another one. -/
theorem Revises.map (h : x.Revises old new) (f : α → β) : (orElseKeep (x.new?.map f) (f old)).Revises (f old) (f new) :=
  revises_orElseKeep (h.getD_map f)

theorem changed_map {f : α → β} {b : β} : (orElseKeep (x.new?.map f) b).changed = false ↔ x.changed = false := by
  rw [changed_orElseKeep, Option.isSome_map, Option.isSome_eq_false_iff, Option.isNone_iff_eq_none, new?_eq_none]

/-- A node that is rebuilt unless no part has changed. -/
theorem revises_ite {c : Prop} [Decidable c] (h : c → new = old) :
    (if c then pure old else replaced new : Revised α).Revises old new := by
  split
  · next hc => exact h hc ▸ revises_pure _
  · exact ⟨rfl, nofun⟩

theorem changed_ite {c : Prop} [Decidable c] :
    (if c then pure old else replaced new : Revised α).changed = false ↔ c := by
  split <;> simp_all [replaced]

theorem changedList_eq_none {visited : List (Revised α)} :
    changedList visited = none ↔ ∀ x ∈ visited, x.changed = false := by
  simp [changedList]

theorem changedList_cons_eq_none {visited : List (Revised α)} :
    changedList (x :: visited) = none ↔ x.changed = false ∧ changedList visited = none := by
  rw [changedList_eq_none, changedList_eq_none, List.forall_mem_cons]

/-- Whether the items of a list have become others, each as it was reported. -/
structure ReviseAll (visited : List (Revised α)) (olds news : List α) : Prop where
  values : visited.map (·.value) = news
  same : (∀ x ∈ visited, x.changed = false) → news = olds

theorem ReviseAll.getD {visited : List (Revised α)} {olds news : List α} (h : ReviseAll visited olds news) :
    (changedList visited).getD olds = news := by
  cases hnew : changedList visited with
  | none => exact (h.same (changedList_eq_none.1 hnew)).symm
  | some items =>
    rw [changedList, Option.ite_none_left_eq_some] at hnew
    exact (Option.some.inj hnew.2).symm.trans h.values

theorem reviseAll_nil : ReviseAll ([] : List (Revised α)) [] [] :=
  ⟨rfl, fun _ => rfl⟩

theorem ReviseAll.cons {visited : List (Revised α)} {olds news : List α} (h : x.Revises old new)
    (hs : ReviseAll visited olds news) : ReviseAll (x :: visited) (old :: olds) (new :: news) where
  values := by rw [List.map_cons, h.value, hs.values]
  same hall := by
    rw [List.forall_mem_cons] at hall
    rw [h.same hall.1, hs.same hall.2]

/-- Whether an optional part has become another one as it was reported. -/
def ReviseOption (visited : Option (Revised α)) (old new : Option α) : Prop :=
  (visited.bind new?).or old = new

theorem Revises.some (h : x.Revises old new) : ReviseOption (some x) (some old) (some new) := by
  rw [← h.getD]
  unfold ReviseOption
  cases hnew : x.new? <;> simp [hnew]

theorem ReviseOption.getD {visited : Option (Revised α)} {old new : Option α} (h : ReviseOption visited old new) :
    (changedOption visited).getD old = new := by
  rw [← h]
  cases visited with
  | none => simp [changedOption]
  | some x => cases hnew : x.new? <;> simp [changedOption, hnew]

theorem changedOption_eq_none {visited : Option (Revised α)} :
    changedOption visited = none ↔ visited.bind new? = none := by
  cases visited <;> simp [changedOption]

end Revised

open Revised

/-! ## Rebuilding -/

namespace Expr

section Operators

variable {op : BinaryOp} {a b c a₂ b₂ c₂ : Expr} {o o₂ : Option Expr} {x y z : Revised Expr} {w : Option (Revised Expr)}

theorem revises_rebuildBinary (hx : x.Revises a a₂) (hy : y.Revises b b₂) :
    (rebuildBinary op a b x.new? y.new?).Revises (.binary op a b) (.binary op a₂ b₂) := by
  rw [← hx.getD, ← hy.getD]
  exact revises_ite (by simp +contextual [-new?_eq_none, -Option.bind_eq_none_iff])

theorem changed_rebuildBinary :
    (rebuildBinary op a b x.new? y.new?).changed = false ↔ x.changed = false ∧ y.changed = false := by
  simp [rebuildBinary, changed_ite]

theorem revises_rebuildConditional (hx : x.Revises a a₂) (hy : y.Revises b b₂) (hz : z.Revises c c₂) :
    (rebuildConditional a b c x.new? y.new? z.new?).Revises (.conditional a b c) (.conditional a₂ b₂ c₂) := by
  rw [← hx.getD, ← hy.getD, ← hz.getD]
  exact revises_ite (by simp +contextual [-new?_eq_none, -Option.bind_eq_none_iff])

theorem changed_rebuildConditional : (rebuildConditional a b c x.new? y.new? z.new?).changed = false ↔
    (x.changed = false ∧ y.changed = false) ∧ z.changed = false := by
  simp [rebuildConditional, changed_ite]

theorem revises_rebuildLike (hx : x.Revises a a₂) (hy : y.Revises b b₂) (hw : ReviseOption w o o₂) :
    (rebuildLike a b o x.new? y.new? (w.bind new?)).Revises (.like a b o) (.like a₂ b₂ o₂) := by
  rw [← hx.getD, ← hy.getD, ← hw]
  exact revises_ite (by simp +contextual [-new?_eq_none, -Option.bind_eq_none_iff])

theorem changed_rebuildLike : (rebuildLike a b o x.new? y.new? (w.bind new?)).changed = false ↔
    (x.changed = false ∧ y.changed = false) ∧ w.bind new? = none := by
  simp [rebuildLike, changed_ite]

end Operators

section Lists

variable {name : String} {niladic negated : Bool} {mapping : Option TypeMapping} {item item₂ : Expr}
  {receiver receiver₂ : Option Expr} {values values₂ : List Expr} {orderings orderings₂ : List SortTerm}
  {subquery subquery₂ : Select} {x : Revised Expr} {w : Option (Revised Expr)} {xs : List (Revised Expr)}
  {ts : List (Revised SortTerm)} {s : Revised Select}

theorem revises_rebuildCall (hw : ReviseOption w receiver receiver₂) (hxs : ReviseAll xs values values₂) :
    (rebuildCall name niladic receiver values mapping (w.bind new?) (changedList xs)).Revises
      (.call name niladic receiver values mapping) (.call name niladic receiver₂ values₂ mapping) := by
  rw [← hw, ← hxs.getD]
  exact revises_ite (by simp +contextual [-new?_eq_none, -Option.bind_eq_none_iff])

theorem changed_rebuildCall :
    (rebuildCall name niladic receiver values mapping (w.bind new?) (changedList xs)).changed = false ↔
      w.bind new? = none ∧ changedList xs = none := by
  simp [rebuildCall, changed_ite]

theorem revises_rebuildInValues (hx : x.Revises item item₂) (hxs : ReviseAll xs values values₂) :
    (rebuildInValues item values negated x.new? (changedList xs)).Revises (.inValues item values negated)
      (.inValues item₂ values₂ negated) := by
  rw [← hx.getD, ← hxs.getD]
  exact revises_ite (by simp +contextual [-new?_eq_none, -Option.bind_eq_none_iff])

theorem changed_rebuildInValues : (rebuildInValues item values negated x.new? (changedList xs)).changed = false ↔
    x.changed = false ∧ changedList xs = none := by
  simp [rebuildInValues, changed_ite]

theorem revises_rebuildInSubquery (hx : x.Revises item item₂) (hs : s.Revises subquery subquery₂) :
    (rebuildInSubquery item subquery negated x.new? s.new?).Revises (.inSubquery item subquery negated)
      (.inSubquery item₂ subquery₂ negated) := by
  rw [← hx.getD, ← hs.getD]
  exact revises_ite (by simp +contextual [-new?_eq_none, -Option.bind_eq_none_iff])

theorem changed_rebuildInSubquery : (rebuildInSubquery item subquery negated x.new? s.new?).changed = false ↔
    x.changed = false ∧ s.changed = false := by
  simp [rebuildInSubquery, changed_ite]

theorem revises_rebuildRowNumber (hxs : ReviseAll xs values values₂) (hts : ReviseAll ts orderings orderings₂) :
    (rebuildRowNumber values orderings (changedList xs) (changedList ts)).Revises (.rowNumber values orderings)
      (.rowNumber values₂ orderings₂) := by
  rw [← hxs.getD, ← hts.getD]
  exact revises_ite (by simp +contextual [-new?_eq_none, -Option.bind_eq_none_iff])

theorem changed_rebuildRowNumber : (rebuildRowNumber values orderings (changedList xs) (changedList ts)).changed = false ↔
    changedList xs = none ∧ changedList ts = none := by
  simp [rebuildRowNumber, changed_ite]

end Lists

end Expr

section Clauses

variable {projections projections₂ : List Projection} {sources sources₂ : List Source} {groupBy groupBy₂ : List Expr}
  {orderings orderings₂ : List SortTerm} {predicate predicate₂ having having₂ limit limit₂ offset offset₂ : Option Expr}
  {ps : List (Revised Projection)} {ss : List (Revised Source)} {gs : List (Revised Expr)} {os : List (Revised SortTerm)}
  {w h l o : Option (Revised Expr)} {distinct : Bool}

theorem Select.revises_rebuild (hps : ReviseAll ps projections projections₂) (hss : ReviseAll ss sources sources₂)
    (hw : ReviseOption w predicate predicate₂) (hgs : ReviseAll gs groupBy groupBy₂)
    (hh : ReviseOption h having having₂) (hos : ReviseAll os orderings orderings₂) (hl : ReviseOption l limit limit₂)
    (ho : ReviseOption o offset offset₂) :
    (Select.rebuild ⟨projections, sources, predicate, groupBy, having, orderings, limit, offset, distinct⟩
        (changedList ps) (changedList ss) (changedOption w) (changedList gs) (changedOption h) (changedList os)
        (changedOption l) (changedOption o)).Revises
      ⟨projections, sources, predicate, groupBy, having, orderings, limit, offset, distinct⟩
      ⟨projections₂, sources₂, predicate₂, groupBy₂, having₂, orderings₂, limit₂, offset₂, distinct⟩ := by
  rw [← hps.getD, ← hss.getD, ← hw.getD, ← hgs.getD, ← hh.getD, ← hos.getD, ← hl.getD, ← ho.getD]
  exact revises_ite (by simp +contextual [-new?_eq_none, -Option.bind_eq_none_iff])

theorem Select.changed_rebuild {s : Select} :
    (s.rebuild (changedList ps) (changedList ss) (changedOption w) (changedList gs) (changedOption h) (changedList os)
        (changedOption l) (changedOption o)).changed = false ↔
      ((((((changedList ps = none ∧ changedList ss = none) ∧ w.bind new? = none) ∧ changedList gs = none) ∧
        h.bind new? = none) ∧ changedList os = none) ∧ l.bind new? = none) ∧ o.bind new? = none := by
  simp only [Select.rebuild, changed_ite, Bool.and_eq_true, Option.isNone_iff_eq_none, changedOption_eq_none]

end Clauses

namespace Source

variable {id : TableId} {aliasName : Option String} {answer : Option (Option String)} {op : SetOperator} {distinct : Bool}
  {left right left₂ right₂ : Select} {x y : Revised Select} {s s₂ join : Source} {parts : Option Source}
  {source : Revised Source} {predicate : Option (Revised Expr)}

theorem getD_rebuildSetOperation (hx : x.Revises left left₂) (hy : y.Revises right right₂) :
    (rebuildSetOperation id aliasName op distinct left right x.new? y.new?).getD
      (.setOperation id aliasName op distinct left right) = .setOperation id aliasName op distinct left₂ right₂ := by
  rw [← hx.getD, ← hy.getD]
  unfold rebuildSetOperation
  split
  · simp_all [-new?_eq_none]
  · rfl

theorem rebuildSetOperation_eq_none : rebuildSetOperation id aliasName op distinct left right x.new? y.new? = none ↔
    x.changed = false ∧ y.changed = false := by
  simp [rebuildSetOperation]

/-- A source with another alias and other parts. -/
theorem revises_rebuild (hparts : parts.getD s = s₂) (halias : s₂.withAlias s.aliasName = s₂) :
    (s.rebuild answer parts).Revises s (s₂.withAlias (answer.getD s.aliasName)) := by
  subst hparts
  cases answer with
  | some new => exact ⟨rfl, nofun⟩
  | none =>
    rw [Option.getD_none, halias]
    cases parts with
    | none => exact revises_pure s
    | some rebuilt => exact ⟨rfl, nofun⟩

theorem changed_rebuild : (s.rebuild answer parts).changed = false ↔ answer = none ∧ parts = none := by
  cases answer <;> cases parts <;> simp [rebuild, replaced]

theorem revises_rebuildJoin (hnew : join.rejoin source.value (predicate.map (·.value)) = s₂)
    (hsame : source.changed = false → (∀ y ∈ predicate, y.changed = false) → s₂ = join) :
    (rebuildJoin join source predicate).Revises join s₂ := by
  subst hnew
  refine revises_ite fun hnone => ?_
  rw [Bool.and_eq_true, Bool.not_eq_true', Bool.not_eq_true'] at hnone
  refine hsame hnone.1 fun y hy => ?_
  obtain rfl := Option.mem_def.1 hy
  exact hnone.2

theorem changed_rebuildJoin : (rebuildJoin join source predicate).changed = false ↔
    source.changed = false ∧ ∀ y ∈ predicate, y.changed = false := by
  cases predicate <;> simp [rebuildJoin, changed_ite]

end Source

/-! ## Following the tree -/

/-- What takes the place of each node. -/
def Visitor.nodeMap (v : Visitor) : NodeMap where
  column c u := (v.column c u).getD (.column c)
  key k u := (v.key k u).getD (.keyAccess k)
  aliasName s := (v.aliasName s).getD s.aliasName

section Visit

variable (v : Visitor)

mutual

/-- A visit makes of a part what the answers make of it. -/
theorem Expr.visit_revises : ∀ (e : Expr) (u : Usage), (e.visit v u).Revises e (e.mapNodes v.nodeMap u)
  | .column _, _ => revises_orElseKeep rfl
  | .keyAccess _, _ => revises_orElseKeep rfl
  | .constant _ _, _ => revises_pure _
  | .parameter _ _, _ => revises_pure _
  | .binary op left right, u =>
    Expr.revises_rebuildBinary (left.visit_revises (u.operand op)) (right.visit_revises (u.operand op))
  | .unary op operand, u => (operand.visit_revises (u.unaryOperand op)).map (Expr.unary op)
  | .conditional test ifTrue ifFalse, _ =>
    Expr.revises_rebuildConditional (test.visit_revises .condition) (ifTrue.visit_revises .value)
      (ifFalse.visit_revises .value)
  | .call _ _ receiver arguments _, _ =>
    Expr.revises_rebuildCall (Expr.visitOption_revises receiver .value) (Expr.visitList_revises arguments)
  | .inValues item values _, _ =>
    Expr.revises_rebuildInValues (item.visit_revises .value) (Expr.visitList_revises values)
  | .inSubquery item subquery _, _ =>
    Expr.revises_rebuildInSubquery (item.visit_revises .value) subquery.visit_revises
  | .exists subquery negated, _ => subquery.visit_revises.map (Expr.exists · negated)
  | .like subject pattern escape, _ =>
    Expr.revises_rebuildLike (subject.visit_revises .value) (pattern.visit_revises .value)
      (Expr.visitOption_revises escape .value)
  | .scalarSubquery subquery, _ => subquery.visit_revises.map Expr.scalarSubquery
  | .rowNumber partitions orderings, _ =>
    Expr.revises_rebuildRowNumber (Expr.visitList_revises partitions) (SortTerm.visitList_revises orderings)

theorem Expr.visitOption_revises : ∀ (e : Option Expr) (u : Usage),
    ReviseOption (Expr.visitOption v e u) e (Expr.mapOption v.nodeMap e u)
  | none, _ => rfl
  | some e, u => (e.visit_revises u).some

theorem Expr.visitList_revises : ∀ es : List Expr, ReviseAll (Expr.visitList v es) es (Expr.mapList v.nodeMap es)
  | [] => reviseAll_nil
  | e :: rest => .cons (e.visit_revises .value) (Expr.visitList_revises rest)

theorem SortTerm.visit_revises : ∀ t : SortTerm, (t.visit v).Revises t (t.mapNodes v.nodeMap)
  | ⟨expr, ascending⟩ => (expr.visit_revises .value).map (SortTerm.mk · ascending)

theorem SortTerm.visitList_revises : ∀ ts : List SortTerm,
    ReviseAll (SortTerm.visitList v ts) ts (SortTerm.mapList v.nodeMap ts)
  | [] => reviseAll_nil
  | t :: rest => .cons t.visit_revises (SortTerm.visitList_revises rest)

theorem Projection.visit_revises : ∀ p : Projection, (p.visit v).Revises p (p.mapNodes v.nodeMap)
  | ⟨aliasName, expr⟩ => (expr.visit_revises .value).map (Projection.mk aliasName)

theorem Projection.visitList_revises : ∀ ps : List Projection,
    ReviseAll (Projection.visitList v ps) ps (Projection.mapList v.nodeMap ps)
  | [] => reviseAll_nil
  | p :: rest => .cons p.visit_revises (Projection.visitList_revises rest)

theorem Select.visit_revises : ∀ s : Select, (s.visit v).Revises s (s.mapNodes v.nodeMap)
  | ⟨projections, sources, predicate, groupBy, having, orderings, limit, offset, _⟩ =>
    Select.revises_rebuild (Projection.visitList_revises projections) (Source.visitList_revises sources)
      (Expr.visitOption_revises predicate .condition) (Expr.visitList_revises groupBy)
      (Expr.visitOption_revises having .condition) (SortTerm.visitList_revises orderings)
      (Expr.visitOption_revises limit .value) (Expr.visitOption_revises offset .value)

theorem Source.visit_revises : ∀ s : Source, (s.visit v).Revises s (s.mapNodes v.nodeMap)
  | .table .. => Source.revises_rebuild rfl rfl
  | .derived id aliasName select =>
    Source.revises_rebuild (select.visit_revises.getD_map (Source.derived id aliasName)) rfl
  | .setOperation .. =>
    Source.revises_rebuild (Source.getD_rebuildSetOperation (Select.visit_revises _) (Select.visit_revises _)) rfl
  | .joined kind source =>
    Source.revises_rebuildJoin (congrArg (Source.joined kind) source.visit_revises.value) fun hsource _ =>
      congrArg (Source.joined kind) (source.visit_revises.same hsource)
  | .joinedOn kind source predicate =>
    Source.revises_rebuildJoin
      (congrArg₂ (Source.joinedOn kind) source.visit_revises.value (predicate.visit_revises .condition).value)
      fun hsource hpredicate => congrArg₂ (Source.joinedOn kind) (source.visit_revises.same hsource)
        ((predicate.visit_revises .condition).same (hpredicate _ rfl))

theorem Source.visitList_revises : ∀ ss : List Source,
    ReviseAll (Source.visitList v ss) ss (Source.mapList v.nodeMap ss)
  | [] => reviseAll_nil
  | s :: rest => .cons s.visit_revises (Source.visitList_revises rest)

end

end Visit

/-! ## Changes -/

namespace Visitor

variable (v : Visitor)

/-- Whether the visitor puts something in the place of an expression. -/
def answers : Occurrence → Bool
  | ⟨.column c, p⟩ => (v.column c p.usage).isSome
  | ⟨.keyAccess k, p⟩ => (v.key k p.usage).isSome
  | _ => false

theorem answers_of_other {e : Expr} {p : Position} (he : e.isReference = false) : v.answers ⟨e, p⟩ = false := by
  cases e <;> first | rfl | cases he

/-- Whether the visitor has no answer for some expressions and sources. -/
@[mk_iff]
structure Silent (inside : List Occurrence) (sources : List Source) : Prop where
  exprs : ∀ o ∈ inside, v.answers o = false
  aliases : ∀ s ∈ sources, v.aliasName s = none

/-- Whether something holds exactly where the visitor is silent. -/
def Tells (unchanged : Prop) (inside : List Occurrence) (sources : List Source) : Prop :=
  unchanged ↔ v.Silent inside sources

variable {v} {unchanged unchanged₂ : Prop} {inside inside₂ : List Occurrence} {sources sources₂ : List Source}

theorem tells_nil : v.Tells True [] [] :=
  iff_of_true trivial ⟨List.forall_mem_nil _, List.forall_mem_nil _⟩

theorem Tells.of (h : v.Tells unchanged inside sources) (hiff : unchanged₂ ↔ unchanged) :
    v.Tells unchanged₂ inside sources :=
  hiff.trans h

theorem Tells.append (h : v.Tells unchanged inside sources) (h₂ : v.Tells unchanged₂ inside₂ sources₂) :
    v.Tells (unchanged ∧ unchanged₂) (inside ++ inside₂) (sources ++ sources₂) := by
  refine (and_congr h h₂).trans ⟨fun ⟨a, b⟩ => ⟨?_, ?_⟩, fun a => ⟨⟨?_, ?_⟩, ?_, ?_⟩⟩
  · exact List.forall_mem_append.2 ⟨a.exprs, b.exprs⟩
  · exact List.forall_mem_append.2 ⟨a.aliases, b.aliases⟩
  · exact (List.forall_mem_append.1 a.exprs).1
  · exact (List.forall_mem_append.1 a.aliases).1
  · exact (List.forall_mem_append.1 a.exprs).2
  · exact (List.forall_mem_append.1 a.aliases).2

/-- The visitor is not asked about an expression that is no reference. -/
theorem Tells.node (h : v.Tells unchanged inside sources) {e : Expr} {p : Position}
    (he : v.answers ⟨e, p⟩ = false := by rfl) : v.Tells unchanged (⟨e, p⟩ :: inside) sources :=
  h.trans ⟨fun a => ⟨List.forall_mem_cons.2 ⟨he, a.exprs⟩, a.aliases⟩,
    fun a => ⟨(List.forall_mem_cons.1 a.exprs).2, a.aliases⟩⟩

theorem Tells.source (h : v.Tells unchanged inside sources) (s : Source) :
    v.Tells (v.aliasName s = none ∧ unchanged) inside (s :: sources) :=
  (and_congr_right' h).trans ⟨fun a => ⟨a.2.exprs, List.forall_mem_cons.2 ⟨a.1, a.2.aliases⟩⟩,
    fun a => ⟨(List.forall_mem_cons.1 a.aliases).1, a.exprs, (List.forall_mem_cons.1 a.aliases).2⟩⟩

theorem tells_reference {o : Occurrence} (h : unchanged ↔ v.answers o = false) : v.Tells unchanged [o] [] :=
  h.trans ⟨fun a => ⟨List.forall_mem_singleton.2 a, List.forall_mem_nil _⟩, fun a => a.exprs o List.mem_cons_self⟩

end Visitor

open Visitor QueryShaping.Expr

section Tells

variable (v : Visitor)

mutual

/-- A visit reports no change exactly where the visitor is silent. -/
theorem Expr.visit_tells : ∀ (e : Expr) {u : Usage} {p : Position}, p.usage = u →
    v.Tells ((e.visit v u).changed = false) (e.occurrences p) e.tableSources
  | .column _, _, _, rfl => tells_reference (by rw [Expr.visit, changed_orElseKeep]; rfl)
  | .keyAccess _, _, _, rfl => tells_reference (by rw [Expr.visit, changed_orElseKeep]; rfl)
  | .constant _ _, _, _, _ => (tells_nil.of (iff_true_intro rfl)).node
  | .parameter _ _, _, _, _ => (tells_nil.of (iff_true_intro rfl)).node
  | .binary _ left right, _, _, rfl =>
    ((left.visit_tells rfl).append (right.visit_tells rfl)).node.of changed_rebuildBinary
  | .unary op operand, _, p, rfl => (operand.visit_tells (p.usage_unaryOperand op)).node.of changed_map
  | .conditional test ifTrue ifFalse, _, _, _ =>
    (((test.visit_tells (p := .condition) rfl).append (ifTrue.visit_tells (p := .value) rfl)).append
      (ifFalse.visit_tells (p := .value) rfl)).node.of changed_rebuildConditional
  | .call _ _ receiver arguments _, _, _, _ =>
    ((Expr.visitOption_tells receiver (p := .value) rfl).append (Expr.visitList_tells arguments)).node.of
      changed_rebuildCall
  | .inValues item values _, _, _, _ =>
    ((item.visit_tells (p := .value) rfl).append (Expr.visitList_tells values)).node.of changed_rebuildInValues
  | .inSubquery item subquery _, _, _, _ =>
    ((item.visit_tells (p := .value) rfl).append subquery.visit_tells).node.of changed_rebuildInSubquery
  | .exists subquery _, _, _, _ => subquery.visit_tells.node.of changed_map
  | .like subject pattern escape, _, _, _ =>
    (((subject.visit_tells (p := .value) rfl).append (pattern.visit_tells (p := .value) rfl)).append
      (Expr.visitOption_tells escape (p := .value) rfl)).node.of changed_rebuildLike
  | .scalarSubquery subquery, _, _, _ => subquery.visit_tells.node.of changed_map
  | .rowNumber partitions orderings, _, _, _ =>
    ((Expr.visitList_tells partitions).append (SortTerm.visitList_tells orderings)).node.of changed_rebuildRowNumber

theorem Expr.visitOption_tells : ∀ (e : Option Expr) {u : Usage} {p : Position}, p.usage = u →
    v.Tells ((Expr.visitOption v e u).bind new? = none) (Expr.occurrencesOption e p) (Expr.tableSourcesOption e)
  | none, _, _, _ => tells_nil.of (iff_true_intro rfl)
  | some e, _, _, hu => (e.visit_tells hu).of new?_eq_none

theorem Expr.visitList_tells : ∀ es : List Expr,
    v.Tells (changedList (Expr.visitList v es) = none) (Expr.occurrencesList es) (Expr.tableSourcesList es)
  | [] => tells_nil.of (iff_true_intro rfl)
  | e :: rest => ((e.visit_tells (p := .value) rfl).append (Expr.visitList_tells rest)).of changedList_cons_eq_none

theorem SortTerm.visit_tells : ∀ t : SortTerm, v.Tells ((t.visit v).changed = false) t.occurrences t.tableSources
  | ⟨expr, _⟩ => (expr.visit_tells (p := .value) rfl).of changed_map

theorem SortTerm.visitList_tells : ∀ ts : List SortTerm,
    v.Tells (changedList (SortTerm.visitList v ts) = none) (SortTerm.occurrencesList ts) (SortTerm.tableSourcesList ts)
  | [] => tells_nil.of (iff_true_intro rfl)
  | t :: rest => (t.visit_tells.append (SortTerm.visitList_tells rest)).of changedList_cons_eq_none

theorem Projection.visit_tells : ∀ p : Projection, v.Tells ((p.visit v).changed = false) p.occurrences p.tableSources
  | ⟨_, expr⟩ => (expr.visit_tells (p := .value) rfl).of changed_map

theorem Projection.visitList_tells : ∀ ps : List Projection,
    v.Tells (changedList (Projection.visitList v ps) = none) (Projection.occurrencesList ps)
      (Projection.tableSourcesList ps)
  | [] => tells_nil.of (iff_true_intro rfl)
  | p :: rest => (p.visit_tells.append (Projection.visitList_tells rest)).of changedList_cons_eq_none

theorem Select.visit_tells : ∀ s : Select, v.Tells ((s.visit v).changed = false) s.occurrences s.tableSources
  | ⟨projections, sources, predicate, groupBy, having, orderings, limit, offset, _⟩ =>
    ((((((((Projection.visitList_tells projections).append (Source.visitList_tells sources)).append
      (Expr.visitOption_tells predicate (p := .condition) rfl)).append (Expr.visitList_tells groupBy)).append
      (Expr.visitOption_tells having (p := .condition) rfl)).append (SortTerm.visitList_tells orderings)).append
      (Expr.visitOption_tells limit (p := .value) rfl)).append (Expr.visitOption_tells offset (p := .value) rfl)).of
      Select.changed_rebuild

theorem Source.visit_tells : ∀ s : Source, v.Tells ((s.visit v).changed = false) s.occurrences s.tableSources
  | .table id aliasName name schema =>
    ((tells_nil.of (iff_true_intro rfl)).source (.table id aliasName name schema)).of Source.changed_rebuild
  | .derived id aliasName select =>
    ((select.visit_tells.of (by simp)).source (.derived id aliasName select)).of Source.changed_rebuild
  | .setOperation id aliasName op distinct left right =>
    (((left.visit_tells.append right.visit_tells).of Source.rebuildSetOperation_eq_none).source
      (.setOperation id aliasName op distinct left right)).of Source.changed_rebuild
  | .joined _ source => source.visit_tells.of (Source.changed_rebuildJoin.trans (and_iff_left nofun))
  | .joinedOn _ source predicate =>
    (source.visit_tells.append (predicate.visit_tells (p := .condition) rfl)).of
      (Source.changed_rebuildJoin.trans (and_congr_right' (by simp; rfl)))

theorem Source.visitList_tells : ∀ ss : List Source,
    v.Tells (changedList (Source.visitList v ss) = none) (Source.occurrencesList ss) (Source.tableSourcesList ss)
  | [] => tells_nil.of (iff_true_intro rfl)
  | s :: rest => (s.visit_tells.append (Source.visitList_tells rest)).of changedList_cons_eq_none

end

end Tells

namespace Reviser

variable (r : Reviser)

/-- What takes the place of each node. -/
def nodeMap : NodeMap where
  column c _ := (r.column c).getD (.column c)
  key k _ := (r.key k).getD (.keyAccess k)
  aliasName s := (r.aliasName s).getD s.aliasName

/-- Whether the reviser puts something in the place of an expression. -/
def answers : Expr → Bool
  | .column c => (r.column c).isSome
  | .keyAccess k => (r.key k).isSome
  | _ => false

/-- A reviser with no answers. -/
theorem silent_nothing (inside : List Occurrence) (sources : List Source) :
    ({} : Reviser).visitor.Silent inside sources := by
  refine ⟨fun o _ => ?_, fun _ _ => rfl⟩
  obtain ⟨e, p⟩ := o
  cases e <;> rfl

theorem answers_visitor (o : Occurrence) : r.visitor.answers o = r.answers o.expr := by
  obtain ⟨e, p⟩ := o
  cases e <;> rfl

end Reviser

/-- A tree in which every reference and alias stands for itself is the same tree. -/
theorem Expr.mapNodes_id (e : Expr) (u : Usage) : e.mapNodes {} u = e :=
  (e.visit_revises ({} : Reviser).visitor u).same <|
    (e.visit_tells _ (p := ⟨u.asTruth, false, u.inEquality⟩) rfl).2 (Reviser.silent_nothing _ _)

theorem Select.mapNodes_id (s : Select) : s.mapNodes {} = s :=
  (s.visit_revises ({} : Reviser).visitor).same ((s.visit_tells _).2 (Reviser.silent_nothing _ _))

/-! ## Walking again -/

/-- Whether the visitor has no answer for what it has put into a tree, and puts no sources in. -/
structure Visitor.Settles (v : Visitor) : Prop where
  column : ∀ c {p : Position} {e : Expr}, v.column c p.usage = some e →
    (e.occurrences p).filter v.answers = [] ∧ e.tableSources = []
  key : ∀ k {p : Position} {e : Expr}, v.key k p.usage = some e →
    (e.occurrences p).filter v.answers = [] ∧ e.tableSources = []
  aliasName : ∀ s : Source, v.aliasName (s.mapNodes v.nodeMap) = none

namespace Visitor.Settles

variable {v : Visitor} (hv : v.Settles)

include hv

theorem turns : v.nodeMap.Turns (fun o => [o].filter v.answers) fun _ => [] where
  column c _ p _ hu := by
    subst hu
    show v.nodeMap.Carries _ _ _ (((v.column c p.usage).getD _).occurrences p) _ ((v.column c p.usage).getD _).tableSources
    cases h : v.column c p.usage with
    | none => exact ⟨by simp [Expr.occurrences, answers, h], rfl⟩
    | some e => exact ⟨(flatMap_filter_singleton _ _).trans (hv.column c h).1, (hv.column c h).2⟩
  key k _ p _ hu := by
    subst hu
    show v.nodeMap.Carries _ _ _ (((v.key k p.usage).getD _).occurrences p) _ ((v.key k p.usage).getD _).tableSources
    cases h : v.key k p.usage with
    | none => exact ⟨by simp [Expr.occurrences, answers, h], rfl⟩
    | some e => exact ⟨(flatMap_filter_singleton _ _).trans (hv.key k h).1, (hv.key k h).2⟩
  other p he := ⟨List.filter_eq_nil_iff.2 (List.forall_mem_singleton.2 (by simp [v.answers_of_other he])), rfl⟩

theorem tableSources_visit (s : Select) :
    (s.visit v).value.tableSources = s.tableSources.map (·.mapNodes v.nodeMap) := by
  rw [(s.visit_revises v).value]
  exact (s.mapNodes_carries hv.turns).sources

/-- The visitor is silent on what it has visited. -/
theorem silent_visit (s : Select) : v.Silent (s.visit v).value.occurrences (s.visit v).value.tableSources := by
  rw [(s.visit_revises v).value]
  obtain ⟨hinside, hsources⟩ := s.mapNodes_carries hv.turns
  rw [flatMap_filter_singleton, List.flatMap_eq_nil_iff.2 fun _ _ => rfl, List.filter_eq_nil_iff] at hinside
  rw [hsources]
  exact ⟨fun o ho => eq_false_of_ne_true (hinside o ho), List.forall_mem_map.2 fun t _ => hv.aliasName t⟩

/-- A second visit changes nothing, and the first one tells truly whether it has changed anything. -/
theorem visit_stable (s : Select) : (s.visit v).value.visit v = pure (s.visit v).value ∧
    ((s.visit v).changed ↔ (s.visit v).value ≠ s) := by
  have hsilent := hv.silent_visit s
  refine ⟨((s.visit v).value.visit_revises v).eq_pure (((s.visit v).value.visit_tells v).2 hsilent), ?_⟩
  rw [← Bool.not_eq_false, not_iff_not]
  constructor
  · intro hchanged
    exact (s.visit_revises v).value.trans ((s.visit_revises v).same hchanged)
  · intro hsame
    rw [hsame] at hsilent
    exact (s.visit_tells v).2 hsilent

end Visitor.Settles

/-- A walk gives the tree in which each column and key for which the reviser has an answer is replaced by it, and each
source for which it has one gets the new alias. It reports a change exactly where the reviser has an answer for some
node, and else the tree is the same. -/
theorem Select.walk_eq_mapNodes (r : Reviser) (s : Select) :
    (s.walk r).value = s.mapNodes r.nodeMap ∧
      ((s.walk r).changed = false ↔
        (∀ o ∈ s.occurrences, r.answers o.expr = false) ∧ ∀ t ∈ s.tableSources, r.aliasName t = none) ∧
      ((s.walk r).changed = false → (s.walk r).value = s) := by
  have h := s.visit_revises r.visitor
  refine ⟨h.value, (s.visit_tells r.visitor).trans ?_, fun hsame => h.value.trans (h.same hsame)⟩
  simp only [silent_iff, r.answers_visitor]
  rfl

end QueryShaping
