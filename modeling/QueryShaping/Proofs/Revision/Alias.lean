import Mathlib
import QueryShaping.Proofs.Evaluation.MappedNodes
import QueryShaping.Proofs.Revision.Walk

/-!
# Unique aliases keep the rows

A column is found by the identity of its source, so the name of the source is read nowhere in an evaluation but in the
texts of errors, and a select that succeeds has the same rows under new names. The one place where names count is the
ordering: a sort term that equals a projection is taken from the projected row. Equal expressions stay equal under new
names, but expressions that differed may become equal, and then the row has to hold what the term would evaluate to.
It does where the two are the same expression. Equal literals need not be: zeros of either sign are equal.
-/

namespace QueryShaping

namespace AliasScope

variable (names : AliasScope)

/-- The name that stands for an identity, the present one where none was given. -/
def nameOf (id : TableId) (current : Option String) : Option String :=
  (names.aliases.lookup id).or current

theorem renamed_eq (id : TableId) (current : Option String) :
    ((names.renamed id current).map some).getD current = names.nameOf id current := by
  unfold renamed nameOf
  cases names.aliases.lookup id with
  | none => rfl
  | some name =>
    by_cases h : some name = current
    · subst h
      simp [Option.filter]
    · simp [Option.filter, h]

end AliasScope

/-- New names as a map of trees. -/
def AliasScope.naming (names : AliasScope) : NodeMap where
  column c _ := .column { c with qualifier := names.nameOf c.table c.qualifier }
  key k _ := .keyAccess { k with qualifier := names.nameOf k.table k.qualifier }
  aliasName s := names.nameOf s.id s.aliasName

theorem AliasScope.nodeMap_reviser (names : AliasScope) : names.reviser.nodeMap = names.naming := by
  simp only [Reviser.nodeMap, naming, reviser, ← renamed_eq, NodeMap.mk.injEq]
  refine ⟨funext fun c => funext fun _ => ?_, funext fun k => funext fun _ => ?_, trivial⟩
  · cases names.renamed c.table c.qualifier <;> rfl
  · cases names.renamed k.table k.qualifier <;> rfl

theorem Select.mapNodes_naming (names : AliasScope) (s : Select) :
    s.mapNodes names.naming = (s.walk names.reviser).value := by
  rw [← names.nodeMap_reviser]
  exact (s.visit_revises names.reviser.visitor).value.symm

theorem Expr.mapNodes_naming (names : AliasScope) (e : Expr) :
    e.mapNodes names.naming .value = (e.walk names.reviser).value := by
  rw [← names.nodeMap_reviser]
  exact (e.visit_revises names.reviser.visitor .value).value.symm

/-! ## Sort keys -/

/-- Whether every term of the ordering is sorted by the same expression after renaming, but for the names. -/
def Select.SortsAlike (names : AliasScope) (s : Select) : Prop :=
  ∀ t ∈ s.orderings, (t.expr.walk names.reviser).value.sortedBy (s.walk names.reviser).value.projections =
    ((t.expr.sortedBy s.projections).walk names.reviser).value

/-! ## Renaming against evaluation -/

/-- References are looked up by identity, so that new names change nothing. -/
theorem AliasScope.faithful_naming (names : AliasScope) (env : Environment) :
    names.naming.Faithful (fun _ _ => false) (fun _ => True) env (fun _ => True) where
  closed := Frame.closed_all
  aliasLike a b hid hname := by simp only [naming, hid, hname]
  columnLike c _ := Expr.referenceLike_column _
  keyLike k _ := Expr.referenceLike_keyAccess _
  value _ := rfl
  column c _ _ scope _ := by
    simp only [naming, Expr.eval, Scope.column]
    cases scope.bound? c.table with
    | some bound => exact .refl _
    | none => exact .of_error _ _
  key k _ _ scope _ := by
    simp only [naming, Expr.eval, Scope.key]
    cases scope.bound? k.table with
    | some bound => exact .refl _
    | none => exact .of_error _ _
  changedTruth _ _ _ h := by cases h
  changedOperands _ _ _ _ _ h := by cases h

/-- Unique aliases do not change what a select returns, as long as its terms are sorted by the same expressions. -/
theorem Select.run_uniquifyAliases (s : Select) (env : Environment) (outer : List Frame)
    (hs : ∀ q ∈ s.selects, q.SortsAlike (AliasScope.empty.assign s)) {r : Relation} (hr : s.run env outer = .ok r) :
    s.uniquifyAliases.value.run env outer = .ok r := by
  have hsorts : ∀ q ∈ s.selects, q.SortsAlikeMapped (AliasScope.empty.assign s).naming := by
    simpa only [SortsAlike, SortsAlikeMapped, mapNodes_naming, Expr.mapNodes_naming] using hs
  rw [uniquifyAliases, AliasScope.apply, ← mapNodes_naming]
  exact mapNodes_keeps (AliasScope.faithful_naming _ env) s (fun _ _ => trivial) hsorts
    (fun _ _ _ _ _ _ _ _ _ _ => trivial) (fun _ _ => trivial) r hr

/-- Two rows whose values differ in the sign of a zero only. -/
def signedZeros : Environment where
  tables := [("Rows", ⟨["Id", "X"], [[.int32 1, .float64 ⟨0x8000000000000000⟩], [.int32 2, .float64 ⟨0⟩]]⟩)]
  parameters := .empty

/-- The first column of a select over two sources of one alias, sorted by that column under the alias of another. -/
def sortedUnderOldAlias : Select :=
  let column (id : TableId) (qualifier name : String) : Expr := .column ⟨id, some qualifier, name, none, true⟩
  { Select.empty with
    projections := [⟨"Id", column 1 "r" "Id"⟩, ⟨"Other", column 2 "R" "Id"⟩]
    sources := [.table 1 (some "r") "Rows" none, .joinedOn .inner (.derived 2 (some "R") { Select.empty with
      projections := [⟨"Id", column 3 "r" "Id"⟩, ⟨"N", .rowNumber [] [⟨column 3 "old" "Id", false⟩]⟩]
      sources := [.table 3 (some "r") "Rows" none]
      orderings := [⟨column 3 "old" "Id", false⟩] }) (column 2 "old" "N" |>.equalTo (column 1 "r" "Id"))]
    orderings := [⟨column 2 "old" "Id", true⟩] }

theorem Select.run_uniquifyAliases_sortedUnderOldAlias :
    (∀ q ∈ sortedUnderOldAlias.selects, q.SortsAlike (AliasScope.empty.assign sortedUnderOldAlias)) ∧
      sortedUnderOldAlias.uniquifyAliases.changed ∧
      sortedUnderOldAlias.uniquifyAliases.value.run signedZeros [] =
        .ok ⟨["Id", "Other"], [[.int32 2, .int32 1], [.int32 1, .int32 2]]⟩ := by
  have hs : ∀ q ∈ sortedUnderOldAlias.selects, q.SortsAlike (AliasScope.empty.assign sortedUnderOldAlias) := by
    rintro q (_ | ⟨_, _ | ⟨_, ⟨⟩⟩⟩) t (_ | ⟨_, ⟨⟩⟩) <;> rfl
  exact ⟨hs, by cbv, run_uniquifyAliases _ _ _ hs (by cbv)⟩

/-- Whether the column `X` differs from a number, in the sign of a zero too. -/
def differsFrom (zero : Double) (qualifier : String) : Expr :=
  .exists { Select.empty with sources := [.setOperation 2 (some "e") .except false
    { Select.empty with projections := [⟨"v", .literal (.float64 zero)⟩] }
    { Select.empty with projections := [⟨"v", .column ⟨1, some qualifier, "X", none, true⟩⟩] }] } false

/-- A select that is sorted by a comparison with one zero and projects the comparison with the other. -/
def sortedBySignedZero : Select :=
  { Select.empty with
    projections := [⟨"Id", .column ⟨1, some "r", "Id", none, true⟩⟩, ⟨"V", differsFrom ⟨0x8000000000000000⟩ "old"⟩]
    sources := [.table 1 (some "r") "Rows" none]
    orderings := [⟨differsFrom ⟨0⟩ "r", true⟩] }

/-- Zeros of either sign are equal literals, so that a sort term may become equal to a projection of another value. -/
theorem Select.run_uniquifyAliases_ne_of_signed_zeros :
    (sortedBySignedZero.run signedZeros []).toOption.map Relation.rows =
        some [[.int32 2, .bool true], [.int32 1, .bool false]] ∧
      (sortedBySignedZero.uniquifyAliases.value.run signedZeros []).toOption.map Relation.rows =
        some [[.int32 1, .bool false], [.int32 2, .bool true]] := by
  refine ⟨by cbv, by cbv⟩

end QueryShaping
