import Mathlib
import QueryShaping.Proofs.Evaluation.Parts
import QueryShaping.Proofs.Evaluation.Truths

/-!
# Aggregates outside of groups

An aggregate needs a group, and a select has groups if one of its projections is found to call an aggregate. The search
goes through the operands of an expression. It does not look into lists of candidates, escapes and windows, although
they are evaluated in the same scope. So an aggregate that stands there alone is evaluated without a group and fails.
Every other aggregate is found, and a projection without any can only fail in this way inside of a nested select.
-/

namespace QueryShaping

open List

theorem Faults.weaken {α : Type} {x : Except Error α} {who who' : Culprits} (h : Faults who x)
    (htruth : ∀ e, who.truth e → who'.truth e) (haggregate : ∀ name, who.aggregate name → who'.aggregate name) :
    Faults who' x := by
  intro e hx
  have he := h e hx
  unfold Error.Arises at *
  split at he
  · exact htruth _ he
  · exact haggregate _ he
  all_goals trivial

namespace Expr

/-- Whether something holds of an expression or in it, outside of nested selects. -/
inductive Somewhere (P : Expr → Prop) : Expr → Prop
  | here {e : Expr} (h : P e) : Somewhere P e
  | inside {e part : Expr} (hpart : part ∈ e.operands ++ e.overlooked) (h : Somewhere P part) : Somewhere P e

/-- Whether an aggregate is called in an expression, outside of nested selects. -/
def CallsAggregate (e : Expr) : Prop :=
  e.Somewhere (·.isAggregateCall)

/-- Whether an aggregate is called where none is looked for. -/
def Overlooks (e : Expr) : Prop :=
  e.Somewhere fun e => ∃ part ∈ e.overlooked, part.CallsAggregate

/-! ## The search for aggregates -/

theorem containsAggregateList_iff {es : List Expr} : containsAggregateList es ↔ ∃ e ∈ es, e.containsAggregate := by
  induction es with
  | nil => simp [containsAggregateList]
  | cons e es ih => simp [containsAggregateList, ih]

theorem containsAggregate_iff_operands (e : Expr) :
    e.containsAggregate ↔ e.isAggregateCall ∨ ∃ part ∈ e.operands, part.containsAggregate := by
  cases e with
  | call name niladic receiver arguments mapping =>
    cases receiver <;>
      simp [containsAggregate, containsAggregateOption, containsAggregateList_iff, isAggregateCall, operands, or_assoc]
  | _ => simp [containsAggregate, isAggregateCall, operands, or_assoc]

theorem CallsAggregate.found {e : Expr} (h : e.CallsAggregate) : e.containsAggregate ∨ e.Overlooks := by
  induction h with
  | here h => exact .inl ((containsAggregate_iff_operands _).2 (.inl h))
  | inside hpart h ih =>
    obtain hoperand | hoverlooked := mem_append.1 hpart
    · exact ih.imp (fun hfound => (containsAggregate_iff_operands _).2 (.inr ⟨_, hoperand, hfound⟩)) (.inside hpart)
    · exact .inr (.here ⟨_, hoverlooked, h⟩)

theorem callsAggregate_of_containsAggregate (e : Expr) (h : e.containsAggregate) : e.CallsAggregate := by
  induction e using induction_parts with
  | h e ih =>
    obtain hcall | ⟨part, hpart, hfound⟩ := (containsAggregate_iff_operands e).1 h
    · exact .here hcall
    · exact .inside (mem_append_left _ hpart) (ih part (mem_append_left _ hpart) hfound)

theorem Overlooks.callsAggregate {e : Expr} (h : e.Overlooks) : e.CallsAggregate := by
  induction h with
  | here h =>
    obtain ⟨part, hpart, hcalls⟩ := h
    exact .inside (mem_append_right _ hpart) hcalls
  | inside hpart _ ih => exact .inside hpart ih

theorem callsAggregate_iff (e : Expr) : e.CallsAggregate ↔ e.containsAggregate ∨ e.Overlooks :=
  ⟨CallsAggregate.found, fun h => h.elim (callsAggregate_of_containsAggregate e) Overlooks.callsAggregate⟩

/-! ## Aggregates without a group -/

/-- What fails for want of a group in an expression: an aggregate, or a nested select. -/
def wantsGroup (env : Environment) (frames : List Frame) (e : Expr) : Culprits where
  truth _ := True
  aggregate name := e.Somewhere fun e =>
    e.isAggregateCall ∨ ∃ q ∈ e.nested, q.run env frames = .error (.evaluation (.aggregateOutsideGroup name))

variable {env : Environment}

theorem nested_faults {e : Expr} {q : Select} (hq : q ∈ e.nested) (frames : List Frame) :
    Faults (e.wantsGroup env frames) (q.run env frames) := by
  intro err herr
  have h := q.run_faults env frames err herr
  unfold Error.Arises at *
  split at h
  · trivial
  · exact .here (.inr ⟨q, hq, herr⟩)
  all_goals trivial

theorem eval_wantsGroup {scope : Scope} (hscope : scope.group = none) (e : Expr) :
    Faults (e.wantsGroup env scope.frames) (e.eval env scope) := by
  induction e using induction_parts with
  | h e ih =>
    let R := Comparison.same (e.wantsGroup env scope.frames)
    suffices h : R.Holds (e.eval env scope) (e.eval env scope) from h.2
    refine eval_of_parts R (fun part hmem => ⟨rfl, ?_⟩) (fun q hq => ⟨rfl, nested_faults hq scope.frames⟩)
      (fun e v => ⟨rfl, .truthOf trivial v⟩) fun hcall => ⟨rfl, ?_⟩
    · exact (ih part hmem).weaken (fun _ _ => trivial) fun _ h => .inside hmem h
    · obtain ⟨name, herror⟩ := eval_of_isAggregateCall env hscope hcall
      rw [herror]
      exact .error (.here (.inl hcall))

theorem windowColumn_wantsGroup (e : Expr) (frames outer : List Frame) :
    Faults ⟨fun _ => True, fun name => ∃ frame ∈ frames, (e.wantsGroup env (frame :: outer)).aggregate name⟩
      (e.windowColumn env frames outer) := by
  cases e with
  | rowNumber partitions orderings =>
    let R := Comparison.same ⟨fun _ => True, fun name =>
      ∃ frame ∈ frames, ((rowNumber partitions orderings).wantsGroup env (frame :: outer)).aggregate name⟩
    have hpart {part : Expr} (hmem : part ∈ partitions ++ orderings.map (·.expr)) {frame : Frame} (hframe : frame ∈ frames) :
        R.Holds (part.eval env (.ofRow frame outer)) (part.eval env (.ofRow frame outer)) :=
      ⟨rfl, (eval_wantsGroup rfl part).weaken (fun _ _ => trivial) fun _ h => ⟨frame, hframe, .inside hmem h⟩⟩
    suffices h : R.Holds ((rowNumber partitions orderings).windowColumn env frames outer)
      ((rowNumber partitions orderings).windowColumn env frames outer) from h.2
    simp only [windowColumn, evalAll_eq_mapM, SortTerm.evalAll_eq_mapM]
    refine R.bind_pure (R.mapM_same fun frame hframe => ?_) _
    refine R.bind (R.mapM_same fun e he => hpart (mem_append_left _ he) hframe) fun partition _ _ => ?_
    refine R.bind_pure (R.mapM_same fun t ht => hpart ?_ hframe) fun keys => (Key.ofValues partition, keys)
    exact mem_append_right _ (mem_map_of_mem ht)
  | _ => exact (Plain.ok _).faults

/-- Whether a select that is nested in the expression fails inside of these frames, for want of a group. -/
def NestedFails (env : Environment) (frames : List Frame) (name : String) (e : Expr) : Prop :=
  e.Somewhere fun e => ∃ q ∈ e.nested, q.run env frames = .error (.evaluation (.aggregateOutsideGroup name))

theorem nestedFails_of_wantsGroup {e : Expr} {frames : List Frame} {name : String} (hcalls : ¬e.CallsAggregate)
    (h : (e.wantsGroup env frames).aggregate name) : e.NestedFails env frames name := by
  induction h with
  | here h => exact .here (h.resolve_left fun hcall => hcalls (.here hcall))
  | inside hpart _ ih => exact .inside hpart (ih fun hcall => hcalls (.inside hpart hcall))

end Expr

/-- An aggregate that is called in an expression is found or stands where none is looked for. If none of a projection
stands there, then a select has groups if the projection calls any. If the select has no groups, the projection comes to
want one only inside of a nested select, in itself and in the numbers of its rows. -/
theorem Select.groups_unless_overlooked {s : Select} {p : Projection} (hp : p ∈ s.projections)
    (hseen : ¬p.expr.Overlooks) :
    (∀ e : Expr, e.CallsAggregate ↔ e.containsAggregate ∨ e.Overlooks) ∧
      (p.expr.CallsAggregate → s.grouped) ∧
      (s.grouped = false → ∀ env outer name,
        (∀ frame, p.expr.eval env (.ofRow frame outer) = .error (.evaluation (.aggregateOutsideGroup name)) →
          p.expr.NestedFails env (frame :: outer) name) ∧
        ∀ frames, p.expr.windowColumn env frames outer = .error (.evaluation (.aggregateOutsideGroup name)) →
          ∃ frame ∈ frames, p.expr.NestedFails env (frame :: outer) name) := by
  have hgroups : p.expr.CallsAggregate → s.grouped := by
    intro hcalls
    have hfound := ((Expr.callsAggregate_iff _).1 hcalls).resolve_right hseen
    have hany : s.projections.any (·.expr.containsAggregate) = true := any_eq_true.2 ⟨p, hp, hfound⟩
    rw [Select.grouped, Select.isGrouped, hany, Bool.or_true]
  refine ⟨Expr.callsAggregate_iff, hgroups, fun hgrouped env outer name => ⟨fun frame h => ?_, fun frames h => ?_⟩⟩
  all_goals have hcalls : ¬p.expr.CallsAggregate := fun hcalls => Bool.false_ne_true (hgrouped.symm.trans (hgroups hcalls))
  · exact Expr.nestedFails_of_wantsGroup hcalls (Expr.eval_wantsGroup rfl p.expr _ h)
  · obtain ⟨frame, hframe, hwants⟩ := p.expr.windowColumn_wantsGroup frames outer _ h
    exact ⟨frame, hframe, Expr.nestedFails_of_wantsGroup hcalls hwants⟩

/-- The number of rows. -/
def countCall : Expr := .call "COUNT" false none [] none

/-- Whether one of two numbers is the other, asked as for one among several. -/
def isAmong (number other : Expr) : Select :=
  { Select.empty with projections := [⟨"Found", .inValues number [other] false⟩] }

theorem Select.groups_unless_overlooked_isAmong :
    ¬(Expr.inValues countCall [.literal (.int64 1)] false).Overlooks ∧
      (isAmong countCall (.literal (.int64 1))).grouped ∧
      evaluate ⟨[], .empty⟩ (isAmong countCall (.literal (.int64 1))) = .ok ⟨["Found"], [[.bool true]]⟩ := by
  have hleaf {P : Expr → Prop} {e : Expr} (hparts : e.operands ++ e.overlooked = []) (hself : ¬P e) : ¬e.Somewhere P := by
    rintro (h | ⟨hpart, -⟩)
    · exact hself h
    · rw [hparts] at hpart
      cases hpart
  have hnone {P : Expr → Prop} : ¬∃ part ∈ ([] : List Expr), P part := by simp
  have hseen : ¬(Expr.inValues countCall [.literal (.int64 1)] false).Overlooks := by
    rintro (⟨part, hpart, h⟩ | ⟨hpart, h⟩)
    · obtain rfl := mem_singleton.1 hpart
      exact hleaf rfl Bool.false_ne_true h
    · obtain rfl | rfl : _ = countCall ∨ _ = Expr.literal (.int64 1) := by simpa [Expr.operands, Expr.overlooked] using hpart
      all_goals exact hleaf rfl hnone h
  exact ⟨hseen, (groups_unless_overlooked (s := isAmong countCall _) (.head _) hseen).2.1
    (.inside (.head _) (.here (by cbv))), by cbv⟩

/-- An aggregate among the candidates is evaluated without a group. -/
theorem Select.ungrouped_of_overlooked :
    (Expr.inValues (.literal (.int64 1)) [countCall] false).CallsAggregate ∧
      (isAmong (.literal (.int64 1)) countCall).grouped = false ∧
      evaluate ⟨[], .empty⟩ (isAmong (.literal (.int64 1)) countCall) =
        .error (.evaluation (.aggregateOutsideGroup "COUNT")) :=
  ⟨.inside (.tail _ (.head _)) (.here (by cbv)), by decide, by cbv⟩

end QueryShaping
