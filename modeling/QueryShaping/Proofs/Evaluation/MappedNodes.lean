import QueryShaping.Proofs.Evaluation.Truths

/-!
# Mapped trees keep their rows

A tree in which other expressions stand for the references has the same rows, if these expressions keep what the
references evaluate to in all frames that evaluation comes to. Which frames these can be is left open.

A sort term that equals a projection is taken from the projected row. It is kept where a term is sorted by the mapped form
of the expression that it was sorted by before.
-/

namespace QueryShaping

open List

/-! ## Sort keys -/

/-- The expression by which a term is sorted: the first projection that equals it, or else itself. -/
def Expr.sortedBy (projections : List Projection) (e : Expr) : Expr :=
  (projections.find? (·.expr == e)).elim e (·.expr)

theorem Expr.sortedBy_of_place {ps : List Projection} {e : Expr} {i : Nat} (h : ps.findIdx? (·.expr == e) = some i) :
    ∃ p, ps[i]? = some p ∧ e.sortedBy ps = p.expr ∧ (p.expr == e) = true := by
  obtain ⟨hi, hfirst⟩ := List.findIdx?_eq_some_iff_findIdx_eq.1 h
  have hfind : ps.find? (·.expr == e) = some ps[i] := by
    rw [find?_eq_getElem?_findIdx, hfirst, getElem?_eq_getElem hi]
  have hequal := find?_some hfind
  refine ⟨ps[i], getElem?_eq_getElem hi, ?_, hequal⟩
  rw [Expr.sortedBy, hfind]
  rfl

theorem Expr.sortedBy_of_no_place {ps : List Projection} {e : Expr} (h : ps.findIdx? (·.expr == e) = none) :
    e.sortedBy ps = e := by
  have hfind : ps.find? (·.expr == e) = none :=
    find?_eq_none.2 fun p hp => by simp [findIdx?_eq_none_iff.1 h p hp]
  rw [Expr.sortedBy, hfind]
  rfl

/-- Whether every term of the ordering is sorted by the same expression in the mapped tree, but for the map. -/
def Select.SortsAlikeMapped (f : NodeMap) (s : Select) : Prop :=
  ∀ t ∈ s.orderings, (t.expr.mapNodes f .value).sortedBy (s.mapNodes f).projections =
    (t.expr.sortedBy s.projections).mapNodes f .value

section Sorting

variable {f : NodeMap}

-- The induction is on the comparison. It comes to the parts where both sides are of one kind, and the map keeps the kind.
theorem Expr.mapNodes_beq
    (halias : ∀ a b : Source, a.id = b.id → a.aliasName = b.aliasName → f.aliasName a = f.aliasName b)
    (hcolumn : ∀ c u, (f.column c u).ReferenceLike) (hkey : ∀ k u, (f.key k u).ReferenceLike) (a b : Expr) :
    ∀ u, a.beq b → (a.mapNodes f u).beq (b.mapNodes f u) := by
  revert a b
  apply And.left
  apply Expr.beq.mutual_induct _
    (fun a b => SortTerm.beqList a b → SortTerm.beqList (SortTerm.mapList f a) (SortTerm.mapList f b))
    (fun a b => a.beq b → (a.mapNodes f).beq (b.mapNodes f))
    (fun a b => a.beq b → (a.mapNodes f).beq (b.mapNodes f))
    (fun a b => Expr.beqList a b → Expr.beqList (Expr.mapList f a) (Expr.mapList f b))
    (fun a b => ∀ u, Expr.beqOption a b → Expr.beqOption (Expr.mapOption f a u) (Expr.mapOption f b u))
    (fun a b => Source.beqList a b → Source.beqList (Source.mapList f a) (Source.mapList f b))
    (fun a b => a.beq b → (a.mapNodes f).beq (b.mapNodes f))
    (fun a b => Projection.beqList a b → Projection.beqList (Projection.mapList f a) (Projection.mapList f b))
    (fun a b => a.beq b → (a.mapNodes f).beq (b.mapNodes f))
  all_goals intros
  all_goals simp_all [Expr.beq, Expr.beqList, Expr.beqOption, SortTerm.beq, SortTerm.beqList, Projection.beq,
    Projection.beqList, Select.beq, Source.beq, Source.beqList, Expr.mapNodes, Expr.mapList, Expr.mapOption,
    SortTerm.mapNodes, SortTerm.mapList, Projection.mapNodes, Projection.mapList, Select.mapNodes, Source.mapNodes,
    Source.mapList, (hcolumn _ _).equal, (hkey _ _).equal]
  all_goals exact halias _ _ rfl rfl

/-- Where a term that is sorted by the same expression in the mapped tree is looked up there. -/
theorem Select.placeOf_cases {s : Select} {e : Expr}
    (hbeq : ∀ p ∈ s.projections, p.expr.beq e → (p.expr.mapNodes f .value).beq (e.mapNodes f .value))
    (hsorted : (e.mapNodes f .value).sortedBy (s.mapNodes f).projections = (e.sortedBy s.projections).mapNodes f .value) :
    (s.mapNodes f).placeOf (e.mapNodes f .value) = s.placeOf e ∨
      (s.placeOf e = none ∧ ∃ j q, (s.mapNodes f).placeOf (e.mapNodes f .value) = some j ∧
        (s.mapNodes f).projections[j]? = some q ∧ q.expr = e.mapNodes f .value) ∨
      ∃ i j p q, s.placeOf e = some i ∧ (s.mapNodes f).placeOf (e.mapNodes f .value) = some j ∧
        (s.mapNodes f).projections[i]? = some p ∧ (s.mapNodes f).projections[j]? = some q ∧ p.expr = q.expr := by
  have hmapped {i : Nat} {p : Projection} (hp : s.projections[i]? = some p) :
      (s.mapNodes f).projections[i]? = some ⟨p.aliasName, p.expr.mapNodes f .value⟩ := by
    cases s
    rw [Select.mapNodes, Projection.mapList_eq_map, getElem?_map, hp]
    rfl
  cases hplace : s.placeOf e with
  | none =>
    rw [Expr.sortedBy_of_no_place hplace] at hsorted
    cases hplace' : (s.mapNodes f).placeOf (e.mapNodes f .value) with
    | none => exact .inl rfl
    | some j =>
      obtain ⟨q, hq, hsortedBy, -⟩ := Expr.sortedBy_of_place hplace'
      exact .inr (.inl ⟨rfl, j, q, rfl, hq, hsortedBy.symm.trans hsorted⟩)
  | some i =>
    obtain ⟨p, hp, hsortedBy, hequal⟩ := Expr.sortedBy_of_place hplace
    rw [hsortedBy] at hsorted
    cases hplace' : (s.mapNodes f).placeOf (e.mapNodes f .value) with
    | none =>
      have hdiffers := findIdx?_eq_none_iff.1 hplace' _ (mem_of_getElem? (hmapped hp))
      cases hdiffers.symm.trans (hbeq p (mem_of_getElem? hp) hequal)
    | some j =>
      obtain ⟨q, hq, hsortedBy', -⟩ := Expr.sortedBy_of_place hplace'
      exact .inr (.inr ⟨i, j, _, q, rfl, rfl, hmapped hp, hq, hsorted.symm.trans hsortedBy'⟩)

end Sorting

/-! ## What the expressions in the place of references keep -/

section Known

variable {Known : Frame → Prop} {env : Environment}

/-- Every row outside of groups that the scope can see belongs to a known frame. -/
def Scope.Within (Known : Frame → Prop) (scope : Scope) : Prop :=
  ∀ f ∈ scope.frames, Known f

/-- The rows of a source extend known frames to known ones, inside of known frames. -/
def Source.Extends (Known : Frame → Prop) (env : Environment) (s : Source) : Prop :=
  ∀ outer, (∀ f ∈ outer, Known f) → ∀ r, s.rows env outer = .ok r →
    ∀ frame, Known frame → ∀ f ∈ frame.extendAll s.id r, Known f

/-- The other expression keeps the values of this one. -/
def Expr.KeptAs (Known : Frame → Prop) (env : Environment) (e e' : Expr) : Prop :=
  ∀ scope, scope.Within Known → Keeps (e.eval env scope) (e'.eval env scope)

/-- The other expression keeps the truth of this one. -/
def Expr.TruthKeptAs (Known : Frame → Prop) (env : Environment) (e e' : Expr) : Prop :=
  ∀ scope, scope.Within Known →
    Keeps (do truthOf e (← e.eval env scope)) (do truthOf e' (← e'.eval env scope))

/-- The same frames around both evaluations, all of which are known. -/
def Surroundings.within (closed : Frame.Closed Known) : Surroundings where
  Alike outer outer' := outer = outer' ∧ ∀ f ∈ outer, Known f
  Known := Known
  closed := closed
  cons h _ hframe := ⟨congrArg _ h.1, forall_mem_cons.2 ⟨hframe, h.2⟩⟩

theorem Scope.Alike.within {closed : Frame.Closed Known} {a b : Scope} (h : a.Alike (Surroundings.within closed).Alike b) :
    a = b ∧ a.Within Known := by
  obtain ⟨⟨hframes, hknown⟩, hgroup⟩ := h
  obtain ⟨frame, outer, group⟩ := a
  obtain ⟨frame', outer', group'⟩ := b
  cases hframes
  refine ⟨congrArg (Scope.mk frame outer) ?_, hknown⟩
  cases hgroup with
  | none => rfl
  | some hgroup =>
    have heq : Forall₂ Eq _ _ := hgroup.imp fun _ _ h => (cons.inj h.1).1
    rw [forall₂_eq_eq_eq] at heq
    exact congrArg some heq

end Known

/-- What stands for references keeps what they evaluate to, but for those that are changed. There it keeps the truth,
where that is asked for, and what other operators than connectives give. -/
structure NodeMap.Faithful (f : NodeMap) (changes : Usage → Expr → Bool) (Known : Frame → Prop) (env : Environment)
    (Allowed : Occurrence → Prop) : Prop where
  closed : Frame.Closed Known
  aliasLike : ∀ a b : Source, a.id = b.id → a.aliasName = b.aliasName → f.aliasName a = f.aliasName b
  columnLike : ∀ c u, (f.column c u).ReferenceLike
  keyLike : ∀ k u, (f.key k u).ReferenceLike
  value : ∀ e, changes .value e = false
  column : ∀ c u, changes u (.column c) = false → (Expr.column c).KeptAs Known env (f.column c u)
  key : ∀ k u, changes u (.keyAccess k) = false → (Expr.keyAccess k).KeptAs Known env (f.key k u)
  changedTruth : ∀ {e : Expr} {u : Usage} {p : Position}, u.Marks p → p.decides → Allowed ⟨e, p⟩ → changes u e →
    e.TruthKeptAs Known env (e.mapNodes f u)
  changedOperands : ∀ {op : BinaryOp} {left right : Expr} {u : Usage} {p : Position}, u.Marks p → op.isLogical = false →
    Allowed ⟨left, p.operand op⟩ → Allowed ⟨right, p.operand op⟩ → Allowed ⟨.binary op left right, p⟩ →
    (changes (u.operand op) left || changes (u.operand op) right) →
    (Expr.binary op left right).KeptAs Known env ((Expr.binary op left right).mapNodes f u)

namespace NodeMap.Faithful

variable {f : NodeMap} {changes : Usage → Expr → Bool} {Known : Frame → Prop} {env : Environment}
  {Allowed : Occurrence → Prop} (hf : f.Faithful changes Known env Allowed)

include hf

/-- A term that is sorted by the same expression in the mapped tree keeps its key. -/
theorem keeps_sortKey {s : Select} {e : Expr} {numbers : List (Option Nat)} {row : Row} {scope : Scope}
    (hsorted : (e.mapNodes f .value).sortedBy (s.mapNodes f).projections = (e.sortedBy s.projections).mapNodes f .value)
    (heval : Keeps (e.eval env scope) ((e.mapNodes f .value).eval env scope))
    (hnumbers : Projection.Numbered (s.mapNodes f).projections numbers)
    (hrow : Projection.evalAll env (s.mapNodes f).projections numbers scope = .ok row) :
    Keeps (e.sortKey env (s.placeOf e) row scope)
      ((e.mapNodes f .value).sortKey env ((s.mapNodes f).placeOf (e.mapNodes f .value)) row scope) := by
  have hbeq (p : Projection) (_ : p ∈ s.projections) :=
    Expr.mapNodes_beq hf.aliasLike hf.columnLike hf.keyLike p.expr e .value
  obtain hsame | ⟨hplace, j, q, hplace', hq, hqe⟩ | ⟨i, j, p, q, hplace, hplace', hp, hq, hpq⟩ :=
    Select.placeOf_cases hbeq hsorted
  · rw [hsame]
    cases s.placeOf e with
    | none => exact heval
    | some i => exact .refl _
  · -- The key is taken from the row now, where it is the value of the term.
    rw [hplace, hplace']
    intro v hv
    have hqv : q.expr.eval env scope = .ok v := by
      rw [hqe]
      exact heval v hv
    exact congrArg Except.ok (Projection.cell_eq_of_eval hnumbers hrow hq hqv)
  · rw [hplace, hplace']
    exact .of_eq (congrArg Except.ok (Projection.cells_eq hnumbers hrow hp hq hpq))

/-- A tree beside the mapped one, in known frames. -/
def simulation : Simulation env where
  toComparison := Keeps.comparison
  toSurroundings := .within hf.closed
  reading := .stored
  map := f
  changes := changes
  Allowed := Allowed
  Sorted := Select.SortsAlikeMapped f
  columnLike := hf.columnLike
  keyLike := hf.keyLike
  value := hf.value
  column {c u p} _ _ hchanges a b hab := by
    obtain ⟨rfl, hscope⟩ := hab.within
    rw [Expr.evalWith_stored]
    exact hf.column c u hchanges a hscope
  key {k u p} _ _ hchanges a b hab := by
    obtain ⟨rfl, hscope⟩ := hab.within
    rw [Expr.evalWith_stored]
    exact hf.key k u hchanges a hscope
  truthOf _ _ _ v := .truthOf _ _ v
  ungrouped _ _ := .refl _
  changedTruth hmarks hdecides hallowed hchanges a b hab := by
    obtain ⟨rfl, hscope⟩ := hab.within
    simp only [Expr.evalWith_stored]
    exact hf.changedTruth hmarks hdecides hallowed hchanges a hscope
  changedOperands hmarks hlogical hleft hright hself hchanged a b hab := by
    obtain ⟨rfl, hscope⟩ := hab.within
    rw [Expr.evalWith_stored]
    exact hf.changedOperands hmarks hlogical hleft hright hself hchanged a hscope
  sorts {s} hsorted t ht hvalue numbers row a b hab hnumbers hrow := by
    have hvalue := hvalue a b hab
    obtain ⟨rfl, -⟩ := hab.within
    rw [Expr.evalWith_stored] at hvalue
    rw [Expr.sortKeyRead_stored]
    exact hf.keeps_sortKey (hsorted t ht) hvalue hnumbers hrow

end NodeMap.Faithful

/-- A mapped select keeps the rows, inside of known frames. -/
theorem Select.mapNodes_keeps {f : NodeMap} {changes : Usage → Expr → Bool} {Known : Frame → Prop} {env : Environment}
    {Allowed : Occurrence → Prop} (hf : f.Faithful changes Known env Allowed) (s : Select)
    (hallowed : ∀ o ∈ s.occurrences, Allowed o) (hsorts : ∀ q ∈ s.selects, q.SortsAlikeMapped f)
    (hsources : ∀ t ∈ s.tableSources, t.Extends Known env) {outer : List Frame} (houter : ∀ f ∈ outer, Known f) :
    Keeps (s.run env outer) ((s.mapNodes f).run env outer) := by
  rw [← s.runWith_stored]
  refine s.simulated hf.simulation ⟨hallowed, hsorts, fun t ht outer outer' halike r hr => ?_⟩ ⟨rfl, houter⟩
  exact hsources t ht outer halike.2 r (t.rowsWith_stored env outer ▸ hr)

end QueryShaping
