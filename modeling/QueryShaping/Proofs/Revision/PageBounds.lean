import Mathlib
import QueryShaping.Proofs.Evaluation.Comparison
import QueryShaping.Proofs.Evaluation.Rows
import QueryShaping.Proofs.Revision.CollectionJoin

/-!
# Bounds of a page

A limit and an offset of an element query become bounds on the numbers of its rows. The upper bound is the sum of both.
Literals are added when the query is prepared, and their sum is clamped to 64 bits; all other bounds are added for each
row, where a sum that does not fit is an error. Main statement: whatever rows parameters cut out, literals of the same
values cut out too, and the other way round if their sum fits.

The two queries are prepared in the same steps and differ in their bounds alone. So it is enough to compare the
conditions, row by row.
-/

namespace QueryShaping

open Joining

theorem Keeps.toOption_eq {α : Type} {x y : Except Error α} (h : Keeps x y) (h' : Keeps y x) : x.toOption = y.toOption := by
  cases hx : x with
  | ok a => rw [h a hx]
  | error e =>
    cases hy : y with
    | ok b => cases hx.symm.trans (h' b hy)
    | error e' => rfl

/-! ## Sums of bounds -/

section Sums

variable {vo vl : Value} {o l : Int64}

theorem fits64_iff {n : Int} : fits64 n = true ↔ Int64.minValue.toInt ≤ n ∧ n ≤ Int64.maxValue.toInt := by
  simp [fits64]

theorem int64?_narrow {n : Int} (h : fits32 n = true) : (Value.int32 (Int32.ofInt n)).int64? = some (Int64.ofInt n) := by
  simp only [fits32, Bool.and_eq_true, decide_eq_true_eq] at h
  have hn : (Int32.ofInt n).toInt = n := Int32.toInt_ofInt_of_le h.1 (Int.lt_add_one_of_le h.2)
  rw [Value.int64?, ← Int64.ofInt_int32ToInt, hn]

/-- Integers are added up if their sum fits. -/
theorem arithmetic_add_of_fits (ho : vo.int64? = some o) (hl : vl.int64? = some l)
    (hfits : fits64 (o.toInt + l.toInt) = true) :
    ∃ w, arithmetic .add vo vl = .ok w ∧ w.int64? = some (Int64.ofInt (o.toInt + l.toInt)) := by
  have hsum : arithmetic .add vo vl =
      if vo.int32?.isSome && vl.int32?.isSome && fits32 (o.toInt + l.toInt) then
        .ok (.int32 (Int32.ofInt (o.toInt + l.toInt)))
      else .ok (.int64 (Int64.ofInt (o.toInt + l.toInt))) := by
    cases vo <;> cases ho <;> cases vl <;> cases hl <;> simp only [arithmetic, Value.int64?, integerResult?, if_pos hfits]
  rw [hsum]
  split
  · rename_i hnarrow
    exact ⟨_, rfl, int64?_narrow (Bool.and_eq_true_iff.1 hnarrow).2⟩
  · exact ⟨_, rfl, rfl⟩

theorem arithmetic_add_of_not_fits (ho : vo.int64? = some o) (hl : vl.int64? = some l)
    (hfits : fits64 (o.toInt + l.toInt) = false) :
    arithmetic .add vo vl = .error (.evaluation (.outOfRange .add o.toInt l.toInt)) := by
  have hnot : ¬fits64 (o.toInt + l.toInt) = true := by simp [hfits]
  cases vo <;> cases ho <;> cases vl <;> cases hl <;> simp only [arithmetic, Value.int64?, integerResult?, if_neg hnot]

/-- Literal bounds are added up to the largest or the least integer. -/
theorem eval_addBounds_literals (ho : vo.int64? = some o) (hl : vl.int64? = some l) (env : Environment) (scope : Scope) :
    (addBounds (.constant vo none) (.constant vl none)).eval env scope =
      .ok (.int64 (Int64.ofInt (max Int64.minValue.toInt (min Int64.maxValue.toInt (o.toInt + l.toInt))))) := by
  rw [addBounds, ho, hl]
  rfl

theorem eval_addBounds_literals_of_fits (ho : vo.int64? = some o) (hl : vl.int64? = some l)
    (hfits : fits64 (o.toInt + l.toInt) = true) (env : Environment) (scope : Scope) :
    (addBounds (.constant vo none) (.constant vl none)).eval env scope =
      .ok (.int64 (Int64.ofInt (o.toInt + l.toInt))) := by
  obtain ⟨hmin, hmax⟩ := fits64_iff.1 hfits
  rw [eval_addBounds_literals ho hl, Int.min_eq_right hmax, Int.max_eq_right hmin]

/-- Bounds that are parameters are added up when they are evaluated. -/
theorem eval_addBounds_parameters {env : Environment} {nameO nameL : String} {mapO mapL : Option TypeMapping}
    (ho : vo.int64? = some o) (hl : vl.int64? = some l) (hnameO : env.parameter nameO mapO = .ok vo)
    (hnameL : env.parameter nameL mapL = .ok vl) (scope : Scope) :
    (addBounds (.parameter nameO mapO) (.parameter nameL mapL)).eval env scope = arithmetic .add vo vl := by
  have heval : (Expr.binary .add (.parameter nameO mapO) (.parameter nameL mapL)).eval env scope =
      applyBinary .add vo vl := by
    simp only [Expr.eval, hnameO, hnameL, bind, Except.bind]
    rfl
  have hnull : (vo.isNull || vl.isNull) = false := by
    cases vo <;> cases ho <;> cases vl <;> cases hl <;> rfl
  refine heval.trans ?_
  rw [applyBinary, hnull]
  rfl

/-- A comparison with an integer does not depend on its width. -/
theorem compare?_integer {w : Value} {n : Int64} (h : w.int64? = some n) (v : Value) :
    v.compare? w = if v.isFloat then (do (← v.double?).compare? (.ofInt64 n))
      else (do return Ord.compare (← v.int64?).toInt n.toInt) := by
  cases w <;> cases h <;> cases v <;> rfl

end Sums

/-! ## Conditions on numbers -/

/-- An expression that has an integer where the other one has it, of the same size, and maybe of another width. -/
def Expr.SizedAs (env : Environment) (e e' : Expr) : Prop :=
  ∀ scope w, e.eval env scope = .ok w →
    ∃ w' n, e'.eval env scope = .ok w' ∧ w.int64? = some n ∧ w'.int64? = some n

variable {env : Environment}

theorem applyBinary_keeps_integer {op : BinaryOp} (hop : op.isComparison = true) {w w' : Value} {n : Int64}
    (hw : w.int64? = some n) (hw' : w'.int64? = some n) (v : Value) :
    Keeps (applyBinary op v w) (applyBinary op v w') := by
  have hnull {w : Value} (h : w.int64? = some n) : w.isNull = false := by cases w <;> first | rfl | cases h
  rw [applyBinary, applyBinary, hnull hw, hnull hw', compare?_integer hw, compare?_integer hw', if_pos hop, if_pos hop]
  split
  · exact .refl _
  · split
    · exact .refl _
    · exact .of_error _ _

/-- Only the size of a bound counts in a comparison. -/
theorem Expr.SizedAs.comparison_keeps {op : BinaryOp} (hlogical : op.isLogical = false) (hop : op.isComparison = true)
    {bound bound' : Expr} (h : bound.SizedAs env bound') (number : Expr) (scope : Scope) :
    Keeps ((Expr.binary op number bound).eval env scope) ((Expr.binary op number bound').eval env scope) := by
  simp only [Expr.eval, hlogical, Bool.false_eq_true, if_false]
  refine (Keeps.refl _).bind fun a => ?_
  intro x hx
  obtain ⟨w, hw, hx⟩ := Except.bind_eq_ok_iff.1 hx
  obtain ⟨w', n, hw', hn, hn'⟩ := h scope w hw
  rw [hw']
  exact applyBinary_keeps_integer hop hn hn' a x hx

/-- The condition that a number is behind an offset and not behind its sum with a limit. -/
def inPage (number offset limit : Expr) : Expr :=
  (Expr.binary .greaterThan number offset).both (.binary .lessThanOrEqual number (addBounds offset limit))

/-- Bounds of which the second ones cut out all that the first ones cut out. -/
structure BoundsKept (env : Environment) (offset limit offset' limit' : Expr) : Prop where
  offset_keeps : ∀ scope, Keeps (offset.eval env scope) (offset'.eval env scope)
  sum_sizedAs : (addBounds offset limit).SizedAs env (addBounds offset' limit')

theorem BoundsKept.inPage_keeps {offset limit offset' limit' : Expr} (h : BoundsKept env offset limit offset' limit')
    (number : Expr) (scope : Scope) :
    Keeps ((inPage number offset limit).eval env scope) ((inPage number offset' limit').eval env scope) :=
  Expr.binary_keeps .andAlso (Expr.binary_keeps .greaterThan (.refl _) (h.offset_keeps scope))
    (h.sum_sizedAs.comparison_keeps rfl rfl number scope)

section Literals

variable {vo vl : Value} {o l : Int64} {nameO nameL : String} {mapO mapL : Option TypeMapping}

/-- A sum of parameters that does not fit has no value, so that nothing is asked of the literals. -/
theorem boundsKept_literals (ho : vo.int64? = some o) (hl : vl.int64? = some l)
    (hnameO : env.parameter nameO mapO = .ok vo) (hnameL : env.parameter nameL mapL = .ok vl) :
    BoundsKept env (.parameter nameO mapO) (.parameter nameL mapL) (.constant vo none) (.constant vl none) where
  offset_keeps _ := .of_eq hnameO
  sum_sizedAs scope w hw := by
    rw [eval_addBounds_parameters ho hl hnameO hnameL] at hw
    cases hfits : fits64 (o.toInt + l.toInt) with
    | true =>
      obtain ⟨w', hsum, hw'⟩ := arithmetic_add_of_fits ho hl hfits
      cases hsum.symm.trans hw
      exact ⟨_, _, eval_addBounds_literals_of_fits ho hl hfits env scope, hw', rfl⟩
    | false => cases (arithmetic_add_of_not_fits ho hl hfits).symm.trans hw

theorem boundsKept_parameters (ho : vo.int64? = some o) (hl : vl.int64? = some l)
    (hnameO : env.parameter nameO mapO = .ok vo) (hnameL : env.parameter nameL mapL = .ok vl)
    (hfits : fits64 (o.toInt + l.toInt) = true) :
    BoundsKept env (.constant vo none) (.constant vl none) (.parameter nameO mapO) (.parameter nameL mapL) where
  offset_keeps _ := .of_eq hnameO.symm
  sum_sizedAs scope w hw := by
    rw [eval_addBounds_literals_of_fits ho hl hfits] at hw
    cases hw
    obtain ⟨w', hsum, hw'⟩ := arithmetic_add_of_fits ho hl hfits
    exact ⟨w', _, (eval_addBounds_parameters ho hl hnameO hnameL scope).trans hsum, rfl, hw'⟩

end Literals

/-! ## Queries that differ in their bounds -/

namespace Select

variable {s base : Select} {key identifier : List Nat} {innerKey : List Expr} {fresh fresh' : Fresh}
  {offset limit offset' limit' : Expr}

/-- A condition that is kept keeps the rows. -/
theorem run_filter_keeps {condition condition' : Expr}
    (h : ∀ scope, Keeps (condition.eval env scope) (condition'.eval env scope)) (outer : List Frame) :
    Keeps ((s.filter condition).run env outer) ((s.filter condition').run env outer) := by
  have hpredicate (scope : Scope) : Keeps (Expr.holdsOption env (s.filter condition).predicate scope)
      (Expr.holdsOption env (s.filter condition').predicate scope) := by
    unfold filter
    cases s.predicate with
    | none => exact (h scope).bind fun v => .holdsWith _ _ v
    | some present => exact (Expr.binary_keeps .andAlso (.refl _) (h scope)).bind fun v => .holdsWith _ _ v
  rw [run_eq, run_eq]
  refine Keeps.bind ?_ fun frames => .refl _
  exact (Keeps.refl _).bind fun frames => Keeps.comparison.filterM fun frame _ => hpredicate _

/-- The select with this offset and this limit. -/
def bounded (s : Select) (offset limit : Option Expr) : Select :=
  { s with limit := limit, offset := offset }

/-- What the limit and the offset of an element query have to do with its key: nothing. -/
theorem projectKey_bounded (s : Select) (offset limit : Option Expr) (innerKey : List Expr) :
    (s.bounded offset limit).projectKey innerKey =
      ((s.projectKey innerKey).1.bounded offset limit, (s.projectKey innerKey).2) := by
  induction innerKey generalizing s with
  | nil => rfl
  | cons expr rest ih =>
    have hgroup : (s.bounded offset limit).extendGrouping expr = (s.extendGrouping expr).bounded offset limit := by
      unfold extendGrouping bounded
      split <;> rfl
    have hadd (s : Select) : (s.bounded offset limit).addProjection expr "key" =
        ((s.addProjection expr "key").1.bounded offset limit, (s.addProjection expr "key").2) := by
      have hindex : (s.bounded offset limit).projectionIndex? expr = s.projectionIndex? expr := rfl
      unfold addProjection
      rw [hindex]
      cases s.projectionIndex? expr <;> rfl
    simp only [projectKey, hgroup, hadd, ih]

/-- The numbered rows are put into a derived table, and their numbers bounded. Whatever the bounds are, the table and the
column of the numbers are the same. -/
theorem keepNumbered_steps_filter {q : Select}
    (h : Steps (base.keepNumbered key identifier (some offset) (some limit)) fresh q fresh') :
    ∃ table number, q = { filter table (inPage number offset limit) with orderings := [⟨number, true⟩] } ∧
      ∀ offset' limit', Steps (base.keepNumbered key identifier (some offset') (some limit')) fresh
        { filter table (inPage number offset' limit') with orderings := [⟨number, true⟩] } fresh' := by
  simp only [keepNumbered, steps_bind, steps_ofExcept, steps_pure] at h ⊢
  obtain ⟨table, mid, htable, number, mid', ⟨hnumber, rfl⟩, rfl, rfl⟩ := h
  exact ⟨table, number, rfl, fun _ _ => ⟨table, mid, htable, number, mid, ⟨hnumber, rfl⟩, rfl, rfl⟩⟩

theorem addProjection_filter (s : Select) (condition e : Expr) (hint : String) :
    (s.filter condition).addProjection e hint =
      ((s.addProjection e hint).1.filter condition, (s.addProjection e hint).2) := by
  have hindex : (s.filter condition).projectionIndex? e = s.projectionIndex? e := rfl
  unfold addProjection
  rw [hindex]
  cases s.projectionIndex? e <;> rfl

/-- A limited element query is prepared alike whatever its bounds are, but for the condition on the numbers. -/
theorem prepareElement_steps_filter {element : Element}
    (h : Steps ((s.bounded (some offset) (some limit)).prepareElement innerKey identifier) fresh element fresh') :
    ∃ query number, element.query = filter query (inPage number offset limit) ∧
      ∀ offset' limit', ∃ element',
        Steps ((s.bounded (some offset') (some limit')).prepareElement innerKey identifier) fresh element' fresh' ∧
          element'.query = filter query (inPage number offset' limit') := by
  have hjoinable (s : Select) (key : List Nat) (offset limit : Expr) :
      (s.bounded (some offset) (some limit)).makeJoinable key identifier = (do
        let base ← (s.bounded none none).pushDownWhen (s.bounded none none).isCollapsed
        base.keepNumbered key identifier (some offset) (some limit)) := rfl
  simp only [prepareElement, projectKey_bounded, hjoinable, steps_bind, steps_ofExcept, steps_pure] at h ⊢
  obtain ⟨⟨⟩, mid, ⟨hcheck, rfl⟩, joinable, mid, ⟨base, mid', hbase, hkept⟩, rfl, rfl⟩ := h
  obtain ⟨table, number, rfl, hall⟩ := keepNumbered_steps_filter hkept
  have hadded (condition : Expr) : addProjections (filter { table with orderings := [] } condition) [(number, "c")] =
      ((addProjection { table with orderings := [] } number "c").1.filter condition,
        [(addProjection { table with orderings := [] } number "c").2]) := by
    simp only [addProjections, addProjection_filter]
  refine ⟨_, number, congrArg Prod.fst (hadded _), fun offset' limit' => ?_⟩
  refine ⟨_, ⟨(), fresh, ⟨hcheck, rfl⟩, _, _, ⟨base, mid', hbase, hall offset' limit'⟩, rfl, rfl⟩, ?_⟩
  exact congrArg Prod.fst (hadded _)

/-- The rows of an element query after it was prepared. -/
def preparedRows (env : Environment) (s : Select) (innerKey : List Expr) (identifier : List Nat) (fresh : Fresh)
    (outer : List Frame) : Except Error Relation := do
  let element ← (Id.run ((s.prepareElement innerKey identifier).run.run fresh)).1
  element.query.run env outer

theorem preparedRows_keeps (h : BoundsKept env offset limit offset' limit') (s : Select) (innerKey : List Expr)
    (identifier : List Nat) (fresh : Fresh) (outer : List Frame) :
    Keeps ((s.bounded (some offset) (some limit)).preparedRows env innerKey identifier fresh outer)
      ((s.bounded (some offset') (some limit')).preparedRows env innerKey identifier fresh outer) := by
  intro r hr
  obtain ⟨element, helement, hr⟩ := Except.bind_eq_ok_iff.1 hr
  obtain ⟨query, number, hquery, hall⟩ := prepareElement_steps_filter (Prod.ext helement rfl)
  obtain ⟨element', hsteps, hquery'⟩ := hall offset' limit'
  rw [hquery] at hr
  rw [preparedRows, hsteps]
  show element'.query.run env outer = .ok r
  rw [hquery']
  exact run_filter_keeps (h.inPage_keeps number) outer r hr

/-- Bounds that are parameters cut out the rows that literals of the same values cut out, or fail, which they do not if
the sum of both fits into 64 bits. The sum of literals is clamped to that range beforehand. -/
theorem preparedRows_parameters_literals (env : Environment) (s : Select) (innerKey : List Expr) (identifier : List Nat)
    (fresh : Fresh) (outer : List Frame) {vo vl : Value} {o l : Int64} {nameO nameL : String}
    {mapO mapL : Option TypeMapping} (ho : vo.int64? = some o) (hl : vl.int64? = some l)
    (hnameO : env.parameter nameO mapO = .ok vo) (hnameL : env.parameter nameL mapL = .ok vl) :
    let literals := (s.bounded (some (.constant vo none)) (some (.constant vl none))).preparedRows env innerKey identifier
      fresh outer
    let parameters := (s.bounded (some (.parameter nameO mapO)) (some (.parameter nameL mapL))).preparedRows env innerKey
      identifier fresh outer
    (∀ r, parameters = .ok r → literals = .ok r) ∧
      (fits64 (o.toInt + l.toInt) = true → literals.toOption = parameters.toOption) := by
  have hliterals := preparedRows_keeps (boundsKept_literals ho hl hnameO hnameL) s innerKey identifier fresh outer
  refine ⟨hliterals, fun hfits => ?_⟩
  exact (preparedRows_keeps (boundsKept_parameters ho hl hnameO hnameL hfits) s innerKey identifier fresh outer).toOption_eq
    hliterals

/-- Two posts of one blog, and how many to skip and to take. -/
def skipAndTake (skip take : Value) : Environment where
  tables := [("Posts", ⟨["Id", "BlogId"], [[.int32 10, .int32 1], [.int32 11, .int32 1]]⟩)]
  parameters := .ofList [("skip", skip), ("take", take)]

/-- The posts in the order of their keys. -/
def postsByKey : Select :=
  { empty with
    projections := [⟨"Id", .column ⟨1, none, "Id", none, true⟩⟩], sources := [.table 1 none "Posts" none]
    orderings := [⟨.column ⟨1, none, "Id", none, true⟩, true⟩] }

/-- The rows of these posts within each blog. -/
def postsOfBlogs (skip take : Value) (offset limit : Option Expr) : Except Error Relation :=
  (postsByKey.bounded offset limit).preparedRows (skipAndTake skip take) [.column ⟨1, none, "BlogId", none, true⟩] [0]
    ⟨0, 2⟩ []

/-- The second post is found with literals and with parameters, one of them of the wider type. -/
theorem postsOfBlogs_second :
    (postsOfBlogs (.int32 1) (.int64 1) (some (.parameter "skip" none)) (some (.parameter "take" none))).toOption.map
        Relation.rows = some [[.int32 11, .int32 1, .int64 2]] ∧
      (postsOfBlogs (.int32 1) (.int64 1) (some (.constant (.int32 1) none)) (some (.constant (.int64 1) none))).toOption =
        (postsOfBlogs (.int32 1) (.int64 1) (some (.parameter "skip" none)) (some (.parameter "take" none))).toOption := by
  have hskip : (skipAndTake (.int32 1) (.int64 1)).parameter "skip" none = .ok (.int32 1) := by cbv
  have htake : (skipAndTake (.int32 1) (.int64 1)).parameter "take" none = .ok (.int64 1) := by cbv
  refine ⟨by cbv, ?_⟩
  exact (preparedRows_parameters_literals _ postsByKey [.column ⟨1, none, "BlogId", none, true⟩] [0] ⟨0, 2⟩ [] rfl rfl
    hskip htake).2 (by decide)

/-- The second post is found with literals, but not with parameters of the same values. -/
theorem postsOfBlogs_literals_ne_parameters :
    (postsOfBlogs (.int32 1) (.int64 Int64.maxValue) (some (.constant (.int32 1) none))
      (some (.constant (.int64 Int64.maxValue) none))).toOption.map Relation.rows =
        some [[.int32 11, .int32 1, .int64 2]] ∧
    postsOfBlogs (.int32 1) (.int64 Int64.maxValue) (some (.parameter "skip" none)) (some (.parameter "take" none)) =
      .error (.evaluation (.outOfRange .add 1 Int64.maxValue.toInt)) := by
  exact ⟨by cbv, by cbv⟩

end Select

end QueryShaping
