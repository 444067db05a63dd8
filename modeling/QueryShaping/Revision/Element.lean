import QueryShaping.Error
import QueryShaping.Query.Pushdown

/-!
# Element queries

Before the query of a collection's elements is joined to the query of their parents, it is made safe to join: its
correlation key is projected, and a query whose rows a join would change is put into a derived table. A limit or an
offset then holds for the elements of each parent, which is done by numbering the rows within each key.
-/

namespace QueryShaping

/-- The numbers that are handed out while collections are joined. -/
structure Fresh where
  nextCollection : Nat
  nextTable : TableId

/-- A computation that hands out numbers, also when it fails in the end. -/
abbrev Joining := ExceptT Error (StateM Fresh)

namespace Joining

def freshTable : Joining TableId := do
  let fresh ← get
  set { fresh with nextTable := fresh.nextTable + 1 }
  return fresh.nextTable

def freshCollection : Joining Nat := do
  let fresh ← get
  set { fresh with nextCollection := fresh.nextCollection + 1 }
  return fresh.nextCollection

def ofExcept (x : Except Error α) : Joining α :=
  match x with
  | .ok a => pure a
  | .error e => throw e

end Joining

/-- The alias of the derived tables that joining brings in. -/
def elementAlias : String := "t"

def Select.pushDownFresh (s : Select) : Joining Select := do
  let id ← Joining.freshTable
  return s.pushDown id elementAlias

def Select.pushDownWhen (s : Select) (needed : Bool) : Joining Select :=
  if needed then s.pushDownFresh else pure s

def Select.projectionExpr (s : Select) (index : Nat) : Except Error Expr :=
  match s.projections[index]? with
  | some p => .ok p.expr
  | none => .error (.shape (.projectionOutOfRange index))

/-- Projects expressions in turn, and gives their places. -/
def Select.addProjections (s : Select) : List (Expr × String) → Select × List Nat
  | [] => (s, [])
  | (expr, hint) :: rest =>
    let (s, index) := s.addProjection expr hint
    let (s, indices) := s.addProjections rest
    (s, index :: indices)

/-- An element query that is ready to be joined. -/
structure Element where
  query : Select
  /-- Where the correlation key is projected. -/
  key : List Nat
  /-- Where the orderings are projected, with their directions. -/
  orderings : List (Nat × Bool)

/-- Groups by an expression as well, if there is a grouping at all. -/
def Select.extendGrouping (s : Select) (expr : Expr) : Select :=
  if s.groupBy.isEmpty || s.groupBy.contains expr then s else { s with groupBy := s.groupBy ++ [expr] }

/-- Projects the correlation key. -/
def Select.projectKey (s : Select) : List Expr → Select × List Nat
  | [] => (s, [])
  | expr :: rest =>
    let (s, index) := (s.extendGrouping expr).addProjection expr "key"
    let (s, indices) := s.projectKey rest
    (s, index :: indices)

/-- The sum of an offset and a limit. Two integers are added at once, up to the largest there is. -/
def addBounds (offset limit : Expr) : Expr :=
  match offset, limit with
  | .constant o _, .constant l _ =>
    match o.int64?, l.int64? with
    | some o, some l =>
      let sum := max Int64.minValue.toInt (min Int64.maxValue.toInt (o.toInt + l.toInt))
      .constant (.int64 (Int64.ofInt sum)) none
    | _, _ => .binary .add offset limit
  | _, _ => .binary .add offset limit

/-- Whether joining would change the rows of a select that has no limit and no offset. -/
def Select.isCollapsed (s : Select) : Bool :=
  s.distinct || !s.groupBy.isEmpty

/-- Bounds on a row number that stand for an offset and a limit. -/
def rowBounds (row : Expr) (offset limit : Option Expr) : List Expr :=
  let lower := offset.map fun o => Expr.binary .greaterThan row o
  let upper := limit.map fun l => Expr.binary .lessThanOrEqual row (offset.elim l fun o => addBounds o l)
  lower.toList ++ upper.toList

/-- Numbers the rows within each key and keeps those whose numbers are in bounds. Rows without an ordering are numbered
by the identifier of the element. -/
def Select.keepNumbered (s : Select) (key identifier : List Nat) (offset limit : Option Expr) : Joining Select := do
  let projected (index : Nat) : Option Expr := s.projections[index]?.map (·.expr)
  let orderings :=
    if s.orderings.isEmpty then (identifier.filterMap projected).map (SortTerm.mk · true) else s.orderings
  let (numbered, row) :=
    { s with orderings := [] }.addProjection (.rowNumber (key.filterMap projected) orderings) "row"
  let outer ← numbered.pushDownFresh
  let rowColumn ← Joining.ofExcept (outer.projectionExpr row)
  let bounded := (Expr.conjunction? (rowBounds rowColumn offset limit)).elim outer outer.filter
  return { bounded with orderings := [⟨rowColumn, true⟩] }

/-- Turns a limit and an offset into conditions on the number of a row among those with its key. -/
def Select.paginate (s : Select) (key identifier : List Nat) : Joining Select := do
  let unlimited := { s with limit := none, offset := none }
  let base ← unlimited.pushDownWhen unlimited.isCollapsed
  base.keepNumbered key identifier s.offset s.limit

/-- Makes a select with a projected key safe to join. -/
def Select.makeJoinable (s : Select) (key identifier : List Nat) : Joining Select :=
  if s.limit.isSome || s.offset.isSome then s.paginate key identifier else s.pushDownWhen s.isCollapsed

def Select.checkIdentifier (s : Select) (identifier : List Nat) : Except Error Unit :=
  match identifier.find? (s.projections.length ≤ ·) with
  | some index => .error (.shape (.elementIdentifierOutOfRange index))
  | none => .ok ()

/-- Makes an element query ready to be joined. -/
def Select.prepareElement (s : Select) (innerKey : List Expr) (identifier : List Nat) : Joining Element := do
  let (keyed, key) := s.projectKey innerKey
  Joining.ofExcept (keyed.checkIdentifier identifier)
  let joinable ← keyed.makeJoinable key identifier
  let terms : List SortTerm := joinable.orderings
  let (query, places) := Select.addProjections { joinable with orderings := [] } (terms.map fun t => (t.expr, "c"))
  return ⟨query, key, places.zip (terms.map (·.ascending))⟩

end QueryShaping
