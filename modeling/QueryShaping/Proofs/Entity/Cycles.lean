import Mathlib.Data.Finset.Card
import Mathlib.Data.Finset.Range
import QueryShaping.Entity.Json

/-!
# Entities written through cycles

An entity is written with its navigations, and these lead to further entities, perhaps back to one that is being
written. What decides is the path: the entities that are being written when an entity is reached. It grows by an entity
of the graph that was not on it, so the entities that are not on it become fewer with each step, and there is an end to
it however the graph is connected. The fuel of `renderEntity` counts exactly these entities and is never missed.
-/

namespace QueryShaping.Graph

variable (g : Graph)

/-- The fields of the entity at a place. -/
def fieldsOf (id : EntityId) : List (String × Json) :=
  (g.get? id).elim [] Entity.fieldMembers

/-- The navigations of the entity at a place. -/
def navigationsOf (id : EntityId) : List (String × Result) :=
  (g.get? id).elim [] Entity.navigations

/-- The rule by which an entity is written that is reached through a path: with its fields only if it is on the path, and
else with its fields and all its navigations, in which it is on the path itself. -/
def CutsCycles (write : (path : List EntityId) → EntityId → Json) : Prop :=
  ∀ path id, write path id =
    if id ∈ path then .objectOf (g.fieldsOf id)
    else .objectOf (g.fieldsOf id ++ Result.renderMembers (write (id :: path)) (g.navigationsOf id))

/-- Whether an entity may be reached, through a path, as a part of what is written for the current one. -/
def WrittenWithin (next current : List EntityId × EntityId) : Prop :=
  current.2 ∉ current.1 ∧ g.navigationsOf current.2 ≠ [] ∧ next.1 = current.2 :: current.1

/-- The entities that are not on a path. -/
def offPath (path : List EntityId) : Finset EntityId :=
  Finset.range g.size \ path.toFinset

variable {g}

theorem card_offPath_nil : (g.offPath []).card = g.size := by
  simp [offPath]

theorem card_offPath_cons {path : List EntityId} {id : EntityId} {e : Entity} (he : g.get? id = some e)
    (hpath : id ∉ path) : (g.offPath path).card = (g.offPath (id :: path)).card + 1 := by
  have hlt : id < g.size := (Array.getElem?_eq_some_iff.1 he).1
  have hmem : id ∈ g.offPath path := by simp [offPath, hlt, hpath]
  rw [← Finset.card_erase_add_one hmem, offPath, offPath, List.toFinset_cons, Finset.sdiff_insert]

theorem writtenWithin_wf : WellFounded g.WrittenWithin := by
  refine Subrelation.wf (fun {next current} h => ?_) (measure fun x => (g.offPath x.1).card).wf
  obtain ⟨hpath, hnavigations, hnext⟩ := h
  cases he : g.get? current.2 with
  | none => exact absurd (by simp [navigationsOf, he]) hnavigations
  | some e =>
    show (g.offPath next.1).card < (g.offPath current.1).card
    rw [hnext, card_offPath_cons he hpath]
    exact Nat.lt_succ_self _

/-- There is only one way to write by the rule. -/
theorem CutsCycles.unique {write write' : List EntityId → EntityId → Json} (h : g.CutsCycles write)
    (h' : g.CutsCycles write') (x : List EntityId × EntityId) : write x.1 x.2 = write' x.1 x.2 := by
  induction x using writtenWithin_wf (g := g) |>.induction with
  | _ x ih =>
    obtain ⟨path, id⟩ := x
    show write path id = write' path id
    rw [h, h']
    by_cases hpath : id ∈ path
    · rw [if_pos hpath, if_pos hpath]
    · rw [if_neg hpath, if_neg hpath]
      by_cases hnavigations : g.navigationsOf id = []
      · rw [hnavigations, Result.renderMembers, Result.renderMembers]
      · have hbelow : write (id :: path) = write' (id :: path) := by
          funext next
          exact ih (id :: path, next) ⟨hpath, hnavigations, rfl⟩
        rw [hbelow]

/-- With as much fuel as there are entities off the path, writing follows the rule. -/
theorem cutsCycles_renderEntity : g.CutsCycles fun path => g.renderEntity (g.offPath path).card path := by
  intro path id
  show g.renderEntity (g.offPath path).card path id = _
  cases he : g.get? id with
  | none =>
    have hempty : g.renderEntity (g.offPath path).card path id = .objectOf [] := by
      cases (g.offPath path).card <;> simp [renderEntity, he]
    simp [hempty, fieldsOf, navigationsOf, he, Result.renderMembers]
  | some e =>
    by_cases hpath : id ∈ path
    · rw [if_pos hpath]
      cases (g.offPath path).card <;> simp [renderEntity, he, hpath, fieldsOf]
    · rw [if_neg hpath, card_offPath_cons he hpath]
      simp [renderEntity, he, hpath, fieldsOf, navigationsOf]

end QueryShaping.Graph
