import QueryShaping.Query.Pushdown

/-!
# Selects get wider

Whatever is projected in addition comes after the projections that are there, so the places of these stay what they
are. A select that is pushed down keeps the number of its columns; what it needs besides is hidden in the derived table.
-/

namespace QueryShaping

open List

/-- Whether all indices are below a count, most often that of the columns of a select. -/
abbrev Below (count : Nat) (indices : List Nat) : Prop :=
  ∀ i ∈ indices, i < count

theorem Below.mono {count count' : Nat} {indices : List Nat} (h : Below count indices) (hle : count ≤ count') :
    Below count' indices :=
  fun i hi => Nat.lt_of_lt_of_le (h i hi) hle

namespace Select

/-- The number of columns. -/
abbrev width (s : Select) : Nat := s.projections.length

/-- The select with more projections behind its own. -/
def widen (s : Select) (new : List Projection) : Select :=
  { s with projections := s.projections ++ new }

variable (s : Select)

@[simp] theorem widen_nil : s.widen [] = s := by
  cases s
  simp [widen]

@[simp] theorem widen_widen (new more : List Projection) : (s.widen new).widen more = s.widen (new ++ more) := by
  simp [widen, append_assoc]

theorem width_widen (new : List Projection) : (s.widen new).width = s.width + new.length := by
  simp [width, widen]

theorem width_le_widen (new : List Projection) : s.width ≤ (s.widen new).width := by
  rw [width_widen]
  exact Nat.le_add_right _ _

theorem addProjection_eq (expr : Expr) (hint : String) :
    ∃ new, (s.addProjection expr hint).1 = s.widen new ∧
      (s.addProjection expr hint).2 < (s.addProjection expr hint).1.width := by
  unfold addProjection
  split
  · rename_i index h
    exact ⟨[], s.widen_nil.symm, (List.findIdx?_eq_some_iff_findIdx_eq.1 h).1⟩
  · exact ⟨_, rfl, by simp [width, project]⟩

theorem exposeOrderings_eq (terms : List SortTerm) :
    ∃ new, (s.exposeOrderings terms).1 = s.widen new := by
  induction terms generalizing s with
  | nil => exact ⟨[], s.widen_nil.symm⟩
  | cons t rest ih =>
    obtain ⟨expr, ascending⟩ := t
    obtain ⟨one, hone⟩ : ∃ new, (s.exposeOrdering expr).1 = s.widen new := by
      unfold exposeOrdering
      split
      · exact ⟨[], s.widen_nil.symm⟩
      · split
        · exact ⟨[], s.widen_nil.symm⟩
        · obtain ⟨new, hnew, -⟩ := s.addProjection_eq expr "c"
          exact ⟨new, hnew⟩
    obtain ⟨others, hothers⟩ := ih (s.exposeOrdering expr).1
    refine ⟨one ++ others, ?_⟩
    show ((s.exposeOrdering expr).1.exposeOrderings rest).1 = _
    rw [hothers, hone, widen_widen]

theorem width_pushDown (id : TableId) (aliasName : String) : (s.pushDown id aliasName).width = s.width := by
  obtain ⟨new, hnew⟩ := exposeOrderings_eq { s with orderings := [] } s.orderings
  have hcolumns : ∀ i ∈ List.range s.projections.length, ∃ p,
      ({ s with orderings := [] }.exposeOrderings s.orderings).1.projections[i]? = some p := by
    intro i hi
    rw [mem_range] at hi
    rw [hnew]
    exact ⟨_, getElem?_eq_getElem (Nat.lt_of_lt_of_le hi (width_le_widen _ _))⟩
  unfold width pushDown
  simp only [Source.columnAt?, Option.map_map]
  rw [length_filterMap_eq_countP, List.countP_eq_length.2, length_range]
  intro i hi
  obtain ⟨p, hp⟩ := hcolumns i hi
  rw [hp]
  rfl

end Select

end QueryShaping
