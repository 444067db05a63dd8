import QueryShaping.Proofs.Shaping.Decoding

/-!
# Runs of rows

Where collections are joined into the query, a value takes all rows up to the first one that belongs to another parent.
A row belongs to the same parents as the first row of a value if it repeats the parent keys of all collections that the
first row gives the value, those inside of elements apart. A value without such collections takes one row.
-/

namespace QueryShaping

open List Binding

mutual

/-- The identifiers of the parents of the collections that a row gives its value. -/
def Node.parentsOn : Node → Row → List (List Binding)
  | .scalar _, _ => []
  | .entity e, row => e.parentsOn row
  | .collection c, _ => [c.parent]
  | .record members, row => Node.memberParentsOn members row

def EntityNode.parentsOn : EntityNode → Row → List (List Binding)
  | ⟨_, key, _, references, collections, _⟩, row =>
    if keyOnRow key row then
      EntityNode.referenceParentsOn references row ++ collections.map fun (_, c) => c.parent
    else []

def Node.memberParentsOn : List (String × Node) → Row → List (List Binding)
  | [], _ => []
  | (_, member) :: rest, row => member.parentsOn row ++ Node.memberParentsOn rest row

def EntityNode.referenceParentsOn : List (String × EntityNode) → Row → List (List Binding)
  | [], _ => []
  | (_, target) :: rest, row => target.parentsOn row ++ EntityNode.referenceParentsOn rest row

end

/-- Whether a row belongs to the value that the first row starts. -/
def Node.agrees (n : Node) (first row : Row) : Bool :=
  !(n.parentsOn first).isEmpty && (n.parentsOn first).all fun p => keyOn p row = keyOn p first

/-- The rows of each value. -/
def Node.runs (n : Node) : List Row → List (List Row)
  | [] => []
  | row :: rest => (row :: rest.takeWhile (n.agrees row)) :: n.runs (rest.dropWhile (n.agrees row))
termination_by rows => rows.length
decreasing_by
  have := (dropWhile_sublist (n.agrees row) (l := rest)).length_le
  simp only [length_cons]
  omega

/-- No row is lost and none is in two runs. -/
theorem Node.flatten_runs (n : Node) (rows : List Row) : (n.runs rows).flatten = rows := by
  induction rows using Node.runs.induct (n := n) with
  | case1 => simp [Node.runs]
  | case2 row rest ih =>
    rw [Node.runs, flatten_cons, ih, cons_append, takeWhile_append_dropWhile]

/-! ## The slots of a draft -/

variable {choice : RowChoice} {unshared : Bool} {g : Graph} {first : Row} {rows : List Row}

theorem CollectionPlace.branch_parentKey (c : CollectionPlace) :
    (c.branch choice first rows).parentKey = keyOn c.parent first := by
  cases c with
  | here c =>
    obtain ⟨id, navigation, elementType, parent, child, element, splitParent⟩ := c
    simp only [CollectionPlace.branch, CollectionNode.branch]
    rfl
  | again id parent =>
    simp only [CollectionPlace.branch]
    rfl

theorem Slot.ShowCollections.parentKeys {id : Nat} : ∀ {slots : List Slot}
    {collections : List (String × CollectionPlace)},
    Slot.ShowCollections unshared g id slots (CollectionPlace.branches choice collections first rows) →
      slots.map (·.parentKey) = collections.map fun (_, c) => keyOn c.parent first
  | [], [], _ => rfl
  | [], _ :: _, h => by simp only [CollectionPlace.branches, Slot.ShowCollections] at h
  | _ :: _, [], h => by simp only [CollectionPlace.branches, Slot.ShowCollections] at h
  | s :: slots, (name, c) :: collections, h => by
    rw [CollectionPlace.branches, Slot.ShowCollections, Slot.shows_iff, CollectionPlace.branch_parentKey] at h
    rw [map_cons, map_cons, h.2.1.1, Slot.ShowCollections.parentKeys h.2.2]

/-- The slots of an entity are those that its first row gives it, with the keys of that row. -/
theorem EntityNode.parents_of_shows :
    (∀ (e : EntityNode) first {d : Draft}, d.Shows unshared g (e.tree choice first rows) →
      e.parents d = e.parentsOn first ∧
        d.slots.map (·.parentKey) = (e.parentsOn first).map fun p => keyOn p first) ∧
    ∀ references first {ds : List Draft},
      Draft.ShowReferences unshared g ds (EntityNode.referenceTrees choice references first rows) →
      EntityNode.referenceParents references ds = EntityNode.referenceParentsOn references first ∧
        (Draft.listSlots ds).map (·.parentKey) =
          (EntityNode.referenceParentsOn references first).map fun p => keyOn p first := by
  apply EntityNode.parentsOn.mutual_induct
  · intro entityType key properties references collections nullable first hkey hrefs d h
    rw [EntityNode.tree, if_pos hkey] at h
    obtain ⟨id, ds, slots, rfl⟩ := h.entity
    obtain ⟨-, -, -, hds, hslots⟩ := h
    simp [EntityNode.parents, EntityNode.parentsOn, Draft.slots, hkey, hrefs hds, hslots.parentKeys]
  · intro entityType key properties references collections nullable first hkey d h
    rw [EntityNode.tree, if_neg hkey] at h
    obtain rfl := h.null
    simp [EntityNode.parents, EntityNode.parentsOn, Draft.slots, hkey]
  · intro first ds h
    obtain rfl := h.nil
    exact ⟨rfl, rfl⟩
  · intro name target rest first htarget hrest ds h
    obtain ⟨d, ds, rfl⟩ := h.cons
    simp [EntityNode.referenceParents, EntityNode.referenceParentsOn, Draft.listSlots, htarget h.1, hrest h.2.2]

/-- The slots of a draft are those that its first row gives it, with the keys of that row. -/
theorem Node.parents_of_shows_all :
    (∀ (n : Node) first {d : Draft}, d.Shows unshared g (n.tree choice first rows) →
      n.parents d = n.parentsOn first ∧
        d.slots.map (·.parentKey) = (n.parentsOn first).map fun p => keyOn p first) ∧
    ∀ members first {ds : List (String × Draft)},
      Draft.ShowMembers unshared g ds (Node.memberTrees choice members first rows) →
      Node.memberParents members ds = Node.memberParentsOn members first ∧
        (Draft.memberSlots ds).map (·.parentKey) =
          (Node.memberParentsOn members first).map fun p => keyOn p first := by
  apply Node.parentsOn.mutual_induct
  · intro b first d h
    rw [Node.tree] at h
    split at h
    all_goals cases d <;> first | exact h.elim | exact ⟨rfl, rfl⟩
  · exact fun e first d h => EntityNode.parents_of_shows.1 e first h
  · intro c first d h
    obtain ⟨slot, rfl⟩ := h.collection
    simp [Node.parents, Node.parentsOn, Draft.slots, (Slot.shows_iff.1 h.2).1, CollectionPlace.branch_parentKey]
  · intro members first hmembers d h
    obtain ⟨ds, rfl⟩ := h.record
    exact hmembers h
  · intro first ds h
    obtain rfl := h.nil
    exact ⟨rfl, rfl⟩
  · intro name member rest first hmember hrest ds h
    obtain ⟨d, ds, rfl⟩ := h.cons
    simp [Node.memberParents, Node.memberParentsOn, Draft.memberSlots, hmember h.2.1, hrest h.2.2]

theorem Node.parents_of_shows (n : Node) {d : Draft} (h : d.Shows unshared g (n.tree choice first rows)) :
    n.parents d = n.parentsOn first ∧
      d.slots.map (·.parentKey) = (n.parentsOn first).map fun p => keyOn p first :=
  parents_of_shows_all.1 n first h

/-- Whether the slots have their parents on a row, where the parent keys can be read. -/
theorem sameParents_eq {reader : Reader} {row : Row} (hr : reader.current = some row) :
    ∀ {parents : List (List Binding)} {slots : List Slot},
      slots.map (·.parentKey) = parents.map (fun p => keyOn p first) →
      (∀ p ∈ parents, ∀ b ∈ p, b.ReadableOn row) →
      sameParents reader parents slots = .ok (parents.all fun p => keyOn p row = keyOn p first)
  | [], [], _, _ => rfl
  | [], _ :: _, h, _ => by cases h
  | _ :: _, [], h, _ => by cases h
  | p :: parents, s :: slots, h, hread => by
    rw [map_cons, map_cons, List.cons.injEq] at h
    have hkey := (readKey_onRow hr).trans (readKey_of_readable (hread p mem_cons_self))
    have ih := sameParents_eq hr h.2 fun p' hp' => hread p' (mem_cons_of_mem _ hp')
    show (readKey p reader >>= _) = _
    rw [hkey, all_cons, h.1]
    by_cases heq : keyOn p row = keyOn p first
    · simpa [heq, bind, Except.bind] using ih
    · simp [heq, bind, Except.bind]
      rfl

/-! ## Values without collections -/

mutual

/-- A value without collections of its own is read from one row. -/
theorem Node.tree_of_parentsOn_eq_nil {choice' : RowChoice} {rows' : List Row} : ∀ (n : Node),
    n.parentsOn first = [] → n.tree choice first rows = n.tree choice' first rows'
  | .scalar b, _ => by rw [Node.tree, Node.tree]
  | .entity e, h => by
    rw [Node.parentsOn] at h
    rw [Node.tree, Node.tree]
    exact EntityNode.tree_of_parentsOn_eq_nil e h
  | .collection c, h => by
    rw [Node.parentsOn] at h
    cases h
  | .record members, h => by
    rw [Node.parentsOn] at h
    rw [Node.tree, Node.tree, Node.memberTrees_of_parentsOn_eq_nil members h]

theorem EntityNode.tree_of_parentsOn_eq_nil {choice' : RowChoice} {rows' : List Row} : ∀ (e : EntityNode),
    e.parentsOn first = [] → e.tree choice first rows = e.tree choice' first rows'
  | ⟨entityType, key, properties, references, collections, nullable⟩, h => by
    rw [EntityNode.parentsOn] at h
    rw [EntityNode.tree, EntityNode.tree]
    split
    · next hkey =>
      rw [if_pos hkey, append_eq_nil_iff, map_eq_nil_iff] at h
      rw [h.2, EntityNode.referenceTrees_of_parentsOn_eq_nil references h.1, CollectionPlace.branches,
        CollectionPlace.branches]
    · rfl

theorem Node.memberTrees_of_parentsOn_eq_nil {choice' : RowChoice} {rows' : List Row} :
    ∀ (members : List (String × Node)), Node.memberParentsOn members first = [] →
      Node.memberTrees choice members first rows = Node.memberTrees choice' members first rows'
  | [], _ => by rw [Node.memberTrees, Node.memberTrees]
  | (name, member) :: rest, h => by
    rw [Node.memberParentsOn, append_eq_nil_iff] at h
    rw [Node.memberTrees, Node.memberTrees, Node.tree_of_parentsOn_eq_nil member h.1,
      Node.memberTrees_of_parentsOn_eq_nil rest h.2]

theorem EntityNode.referenceTrees_of_parentsOn_eq_nil {choice' : RowChoice} {rows' : List Row} :
    ∀ (references : List (String × EntityNode)), EntityNode.referenceParentsOn references first = [] →
      EntityNode.referenceTrees choice references first rows = EntityNode.referenceTrees choice' references first rows'
  | [], _ => by rw [EntityNode.referenceTrees, EntityNode.referenceTrees]
  | (name, target) :: rest, h => by
    rw [EntityNode.referenceParentsOn, append_eq_nil_iff] at h
    rw [EntityNode.referenceTrees, EntityNode.referenceTrees, EntityNode.tree_of_parentsOn_eq_nil target h.1,
      EntityNode.referenceTrees_of_parentsOn_eq_nil rest h.2]

end

end QueryShaping
