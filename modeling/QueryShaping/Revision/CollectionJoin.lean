import QueryShaping.Revision.Element
import QueryShaping.Shape.Remap

/-!
# Joining collections

Every collection that is not joined yet is brought into reach of the rows. In a single query its element query becomes
a left-joined derived table, whose columns are added to the projections. In split mode it gets a query of its own, made
of the sources of its parents and the element query, which repeats the identifiers of the parents.

In both cases rows are ordered by the identifiers of the parents, so that those of one parent are next to each other,
and by the identifier of the element last.

Inside an element query, indices move: what was a projection of the element query is another projection of the query it
was joined into. Shapes are joined along such a move.
-/

namespace QueryShaping

/-- Adds to a list what is not in it yet. -/
def mergeIndices (indices new : List Nat) : List Nat :=
  new.foldl (fun acc i => if acc.contains i then acc else acc ++ [i]) indices

/-- Orders by the projections at these places as well. -/
def Select.orderByProjections (s : Select) : List Nat → Except Error Select
  | [] => .ok s
  | index :: rest => do
    let expr ← s.projectionExpr index
    (s.appendOrdering ⟨expr, true⟩).orderByProjections rest

/-- A column of a joined element query. -/
def elementColumn (kind : ConditionalJoinKind) (source : Source) (index : Nat) : Except Error Expr :=
  match source.columnAt? index with
  | some c => .ok (.column (if kind = .left then c.madeNullable else c))
  | none => .error (.shape (.elementProjectionOutOfRange index))

/-- Joins an element query to a query on equal keys, with its columns and orderings. Gives the places of its
columns. -/
def Select.joinElement (s : Select) (kind : ConditionalJoinKind) (source : Source) (outerKey : List Expr)
    (element : Element) (identifier : List Nat) : Except Error (Select × List Nat) := do
  let innerKey ← element.key.mapM (elementColumn kind source)
  let columns ← (List.range element.query.projections.length).mapM (elementColumn kind source)
  let ordered ← element.orderings.mapM fun (index, ascending) => do
    let expr ← elementColumn kind source index
    return SortTerm.mk expr ascending
  let identified ← identifier.mapM fun index => do
    let expr ← elementColumn kind source index
    return SortTerm.mk expr true
  let (s, places) := s.addProjections (columns.zip (element.query.projections.map (·.aliasName)))
  let s := (ordered ++ identified).foldl Select.appendOrdering s
  let conditions := List.zipWith Expr.equalTo outerKey innerKey
  let predicate := (Expr.conjunction? conditions).getD (.literal (.bool true))
  return (s.addSource (.joinedOn kind source predicate), places)

/-- The places to which the identifier of an element moves. -/
def moveIdentifier (places identifier : List Nat) : Except Error (List Nat) :=
  identifier.mapM fun index =>
    match places[index]? with
    | some place => .ok place
    | none => .error (.shape (.projectionOutOfRange index))

/-- The query of its own for a collection, before the elements are joined: the sources and conditions of the parents,
projecting their identifiers. -/
def Select.splitBase (target : Select) (parent : List Nat) : Except Error (Select × List Nat) := do
  let projections ← parent.mapM fun index =>
    match target.projections[index]? with
    | some p => .ok (p.expr, p.aliasName)
    | none => .error (.shape (.parentIdentifierOutOfRange index))
  let base := { Select.empty with
    sources := target.sources
    predicate := target.predicate
    orderings := target.orderings }
  return base.addProjections projections

/-- A collection's query after its elements have been joined. -/
structure JoinedElement where
  /-- The query that has the rows of the elements. -/
  query : Select
  /-- Where the projections of the element query are now. -/
  places : List Nat
  child : List Nat
  /-- What identifies an element together with its parents. -/
  identifier : List Nat
  /-- Where a query of its own repeats the identifier of the parent. -/
  splitParent : Option (List Nat)

/-- Joins a prepared element query in the given mode. -/
def joinPrepared (split : Bool) (target : Select) (parent : List Nat) (outerKey : List Expr) (element : Element)
    (identifier : List Nat) : Joining JoinedElement := do
  if split then
    let (base, splitParent) ← Joining.ofExcept (target.splitBase parent)
    let id ← Joining.freshTable
    let source := Source.derived id (some elementAlias) element.query
    let (query, places) ← Joining.ofExcept (base.joinElement .inner source outerKey element identifier)
    let child ← Joining.ofExcept (moveIdentifier places identifier)
    return ⟨query, places, child, mergeIndices splitParent child, some splitParent⟩
  else
    let id ← Joining.freshTable
    let source := Source.derived id (some elementAlias) element.query
    let (query, places) ← Joining.ofExcept (target.joinElement .left source outerKey element identifier)
    let child ← Joining.ofExcept (moveIdentifier places identifier)
    return ⟨query, places, child, parent ++ child, none⟩

/-- A collection whose element query has been joined, while the collections inside its elements have not. -/
structure Attached where
  id : Nat
  /-- What identifies the parent. -/
  parent : List Nat
  /-- The query of the parents, ordered by what identifies them. -/
  target : Select
  joined : JoinedElement

/-- Checks that the parents of a collection can be told apart and that its keys can be compared. -/
def checkKeys (id : Nat) (parent outerKey : List Nat) (innerKey : List Expr) : Except Error Unit :=
  if parent.isEmpty then .error (.shape (.noParentIdentifier id))
  else if outerKey.length ≠ innerKey.length || outerKey.isEmpty then .error (.shape (.mismatchedKeys id))
  else .ok ()

/-- Joins the element query of a collection to the query of its parents. -/
def attachElement (split : Bool) (p : PendingCollection) (move : IndexMove) (outer : List Nat) (target : Select) :
    Joining Attached := do
  let id ← Joining.freshCollection
  let own ← Joining.ofExcept (p.parentIdentifier.mapM move)
  let outerKey ← Joining.ofExcept (p.outerKey.mapM move)
  let parent := mergeIndices outer own
  Joining.ofExcept (checkKeys id parent outerKey p.innerKey)
  let target ← Joining.ofExcept (target.orderByProjections parent)
  let outerKey ← Joining.ofExcept (outerKey.mapM target.projectionExpr)
  let element ← p.inner.query.prepareElement p.innerKey p.innerIdentifier
  let joined ← joinPrepared split target parent outerKey element p.innerIdentifier
  return ⟨id, parent, target, joined⟩

/-- The collection and the query of its parents, when `query` has the collections inside the elements too. -/
def Attached.complete (a : Attached) (navigation : Option String) (elementType : String) (element : Shape)
    (query : Select) : CollectionShape × Select :=
  let collection (split : Option SplitQuery) : CollectionShape :=
    ⟨a.id, navigation, elementType, a.parent, a.joined.child, element, split⟩
  match a.joined.splitParent with
  | some splitParent => (collection (some ⟨query, splitParent⟩), a.target)
  | none => (collection none, query)

mutual

/-- Joins the collections of a shape whose indices move into `target`. The rows of the target are told apart by
`outer`, and `name` is the navigation that the shape is the target of. -/
def Shape.join (split : Bool) : Shape → (name : Option String) → (move : IndexMove) → (outer : List Nat) →
    (target : Select) → Joining (Shape × Select)
  | .scalar index nullable, _, move, _, target => do
    let index ← Joining.ofExcept (move index)
    return (.scalar index nullable, target)
  | .collection c, _, move, _, target => do
    let c ← Joining.ofExcept (c.remap move)
    return (.collection c, target)
  | .entity e, _, move, outer, target => do
    let (e, target) ← e.join split move outer target
    return (.entity e, target)
  | .pending p, name, move, outer, target => do
    let (c, target) ← p.join split name move outer target
    return (.collection c, target)
  | .record members, _, move, outer, target => do
    let (members, target) ← Member.joinAll split members move outer target
    return (.record members, target)

def EntityShape.join (split : Bool) : EntityShape → (move : IndexMove) → (outer : List Nat) → (target : Select) →
    Joining (EntityShape × Select)
  | ⟨entityType, key, properties, navigations, nullable⟩, move, outer, target => do
    let key ← Joining.ofExcept (key.mapM move)
    let properties ← Joining.ofExcept (properties.mapM (PropertyShape.remap move))
    let (navigations, target) ← Navigation.joinAll split navigations move outer target
    return (⟨entityType, key, properties, navigations, nullable⟩, target)

def PendingCollection.join (split : Bool) : PendingCollection → (name : Option String) → (move : IndexMove) →
    (outer : List Nat) → (target : Select) → Joining (CollectionShape × Select)
  | ⟨navigation, elementType, parentIdentifier, outerKey, ⟨query, shape⟩, innerKey, identifier⟩, name, move, outer,
      target => do
    let attached ← attachElement split
      ⟨navigation, elementType, parentIdentifier, outerKey, ⟨query, shape⟩, innerKey, identifier⟩ move outer target
    let joined := attached.joined
    let move := IndexMove.ofList joined.places
    let _ ← Joining.ofExcept (shape.remap move)
    let (shape, query) ← shape.join split none move joined.identifier joined.query
    return attached.complete (navigation.or name) elementType shape query

def Navigation.join (split : Bool) : Navigation → (move : IndexMove) → (outer : List Nat) → (target : Select) →
    Joining (Navigation × Select)
  | ⟨name, shape⟩, move, outer, target => do
    let (shape, target) ← shape.join split (some name) move outer target
    return (⟨name, shape⟩, target)

def Navigation.joinAll (split : Bool) : List Navigation → (move : IndexMove) → (outer : List Nat) →
    (target : Select) → Joining (List Navigation × Select)
  | [], _, _, target => return ([], target)
  | n :: rest, move, outer, target => do
    let (n, target) ← n.join split move outer target
    let (rest, target) ← Navigation.joinAll split rest move outer target
    return (n :: rest, target)

def Member.join (split : Bool) : Member → (move : IndexMove) → (outer : List Nat) → (target : Select) →
    Joining (Member × Select)
  | ⟨name, shape⟩, move, outer, target => do
    let (shape, target) ← shape.join split none move outer target
    return (⟨name, shape⟩, target)

def Member.joinAll (split : Bool) : List Member → (move : IndexMove) → (outer : List Nat) →
    (target : Select) → Joining (List Member × Select)
  | [], _, _, target => return ([], target)
  | m :: rest, move, outer, target => do
    let (m, target) ← m.join split move outer target
    let (rest, target) ← Member.joinAll split rest move outer target
    return (m :: rest, target)

end

/-- Joins all collections of a shaped query, if it has any that are not joined yet. -/
def ShapedQuery.joinCollections (shaped : ShapedQuery) (split : Bool) : Joining ShapedQuery := do
  if shaped.shape.hasPending then
    let target ← shaped.query.pushDownWhen shaped.query.requiresPushdown
    let (shape, query) ← shaped.shape.join split none .ok [] target
    return ⟨query, shape⟩
  else return shaped

end QueryShaping
