import QueryShaping.Proofs.Evaluation.Comparison
import QueryShaping.Proofs.Evaluation.Rows

/-!
# Expressions and their parts

An expression is evaluated from the values of its parts in the same scope and from the rows of the selects that are
nested in it. Only an aggregate looks at the group of the scope. So two evaluations of an expression compare if those of
its parts and nested selects do, whatever the groups are, unless the expression is an aggregate itself.
-/

namespace QueryShaping.Expr

open List

/-- The operands in which aggregates are looked for. -/
def operands : Expr → List Expr
  | .binary _ left right => [left, right]
  | .unary _ operand => [operand]
  | .conditional test ifTrue ifFalse => [test, ifTrue, ifFalse]
  | .call _ _ receiver arguments _ => receiver.toList ++ arguments
  | .inValues item _ _ => [item]
  | .inSubquery item _ _ => [item]
  | .like subject pattern _ => [subject, pattern]
  | _ => []

/-- What else is evaluated with an expression, where aggregates are overlooked. -/
def overlooked : Expr → List Expr
  | .inValues _ values _ => values
  | .like _ _ escape => escape.toList
  | .rowNumber partitions orderings => partitions ++ orderings.map (·.expr)
  | _ => []

/-- The selects that are nested in an expression by itself. -/
def nested : Expr → List Select
  | .inSubquery _ subquery _ | .exists subquery _ | .scalarSubquery subquery => [subquery]
  | _ => []

def isAggregateCall : Expr → Bool
  | .call name _ _ _ _ => isAggregateName name
  | _ => false

theorem sizeOf_part {e part : Expr} (h : part ∈ e.operands ++ e.overlooked) : sizeOf part < sizeOf e := by
  have hterm (t : SortTerm) : sizeOf t.expr < sizeOf t := by
    cases t
    simp only [SortTerm.mk.sizeOf_spec]
    omega
  cases e <;> simp only [operands, overlooked, mem_append, mem_cons, not_mem_nil, or_false, Option.mem_toList, mem_map] at h
  all_goals grind [→ List.sizeOf_lt_of_mem]

theorem induction_parts {P : Expr → Prop} (h : ∀ e, (∀ part ∈ e.operands ++ e.overlooked, P part) → P e) (e : Expr) :
    P e :=
  h e fun part hpart =>
    have := sizeOf_part hpart
    induction_parts h part
termination_by sizeOf e

theorem eval_of_isAggregateCall (env : Environment) {scope : Scope} (hscope : scope.group = none) {e : Expr}
    (h : e.isAggregateCall) : ∃ name, e.eval env scope = .error (.evaluation (.aggregateOutsideGroup name)) := by
  cases e with
  | call name =>
    rw [Expr.eval, hscope, if_pos (show isAggregateName name from h)]
    exact ⟨name, rfl⟩
  | _ => cases h

/-- Evaluations in scopes with different groups are compared part by part. -/
theorem eval_of_parts (R : Comparison) {env : Environment} {scope : Scope} {group : Option (List Frame)} {e : Expr}
    (hpart : ∀ part ∈ e.operands ++ e.overlooked, R.Holds (part.eval env scope) (part.eval env { scope with group }))
    (hnested : ∀ q ∈ e.nested, R.Holds (q.run env scope.frames) (q.run env scope.frames))
    (htruth : ∀ (e : Expr) (v : Value), R.Holds (truthOf e v) (truthOf e v))
    (haggregate : e.isAggregateCall → R.Holds (e.eval env scope) (e.eval env { scope with group })) :
    R.Holds (e.eval env scope) (e.eval env { scope with group }) := by
  have hall {es : List Expr} (h : ∀ e ∈ es, R.Holds (e.eval env scope) (e.eval env { scope with group })) :
      R.Holds (evalAll env es scope) (evalAll env es { scope with group }) := by
    rw [evalAll_eq_mapM, evalAll_eq_mapM]
    exact R.mapM_same h
  have hoption {o : Option Expr} (h : ∀ e ∈ o, R.Holds (e.eval env scope) (e.eval env { scope with group })) :
      R.Holds (evalOption env o scope) (evalOption env o { scope with group }) := by
    cases o with
    | none => exact R.ok none
    | some e => exact R.bind_pure (h e rfl) some
  cases e with
  | column c => exact R.plain (.scopeColumn scope c)
  | keyAccess k => exact R.plain (.scopeKey scope k)
  | constant value mapping => exact R.plain (.storedValue mapping value)
  | parameter name mapping => exact R.plain (.parameter env name mapping)
  | binary op left right =>
    have hright := hpart right (by simp [operands])
    rw [Expr.eval, Expr.eval]
    refine R.bind (hpart left (by simp [operands])) fun a _ _ => ?_
    split
    · refine R.bind (htruth left a) fun a _ _ => ?_
      split
      · exact R.ok _
      · exact R.bind hright fun b _ _ => R.bind_pure (htruth right b) fun b => Truth.toValue (op.connect a b)
    · exact R.bind hright fun b _ _ => R.plain (.applyBinary op a b)
  | unary op operand =>
    refine R.bind (hpart operand (by simp [operands])) fun v _ _ => ?_
    cases op with
    | not => exact R.bind_pure (htruth operand v) fun truth => Truth.toValue (truth.map (!·))
    | negate => exact R.plain (.negate v)
    | isNull | isNotNull => exact R.ok _
  | conditional test ifTrue ifFalse =>
    rw [Expr.eval, Expr.eval]
    refine R.bind (hpart test (by simp [operands])) fun v _ _ => R.bind (R.bind_pure (htruth test v) _) fun b _ _ => ?_
    cases b with
    | true => exact hpart ifTrue (by simp [operands])
    | false => exact hpart ifFalse (by simp [operands])
  | call name niladic receiver arguments mapping =>
    by_cases hname : isAggregateName name
    · exact haggregate hname
    · rw [Expr.eval, Expr.eval, if_neg hname, if_neg hname]
      refine R.bind (hoption fun e he => hpart e (by simp_all [operands])) fun r _ _ => ?_
      refine R.bind (hall fun e he => hpart e (by simp [operands, he])) fun as _ _ => R.plain (.applyFunction _ _)
  | inValues item values negated =>
    rw [Expr.eval, Expr.eval]
    refine R.bind (hpart item (by simp [operands])) fun v _ _ => ?_
    split
    · exact R.ok _
    · exact R.bind_pure (hall fun e he => hpart e (by simp [overlooked, he])) _
  | inSubquery item subquery negated =>
    rw [Expr.eval, Expr.eval]
    refine R.bind (hpart item (by simp [operands])) fun v _ _ => ?_
    split
    · exact R.ok _
    · exact R.bind_pure (hnested subquery (.head _)) _
  | «exists» subquery negated => exact R.bind_pure (hnested subquery (.head _)) _
  | like subject pattern escape =>
    rw [Expr.eval, Expr.eval]
    refine R.bind (hpart subject (by simp [operands])) fun s _ _ => ?_
    refine R.bind (hpart pattern (by simp [operands])) fun t _ _ => ?_
    exact R.bind (hoption fun e he => hpart e (by simp_all [overlooked])) fun e _ _ => R.plain (.applyLike _ _ _)
  | scalarSubquery subquery => exact R.bind (hnested subquery (.head _)) fun r _ _ => R.plain (.scalarOf r)
  | rowNumber partitions orderings => exact R.plain (.error rfl)

end QueryShaping.Expr
