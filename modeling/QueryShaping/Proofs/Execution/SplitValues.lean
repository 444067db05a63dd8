import QueryShaping.Proofs.Execution.Serving
import QueryShaping.Proofs.Execution.SplitLoading
import QueryShaping.Proofs.Execution.JoinedLoading

/-!
# Values from queries of their own

A query whose collections all have queries of their own gives one value for each of its rows. If the rows of a collection
come in the order in which its slots are loaded, every slot has all the rows of its parent, and when the last value has
been given no row is left.

A collection that is part of its own elements breaks this: the slots of an element are loaded while the rows of the
enclosing slot are still being read, and these rows stand in their way.
-/

namespace QueryShaping

open List

variable {results : Nat → List Row}

/-- The tables of a store supply what the queries of the collections evaluate to. -/
theorem Fetch.supplied_of_answers {f : Fetch} {ids : List Nat}
    {tables : List (String × Relation)} {selects : List Select}
    (h : ∀ id ∈ ids, ∃ place select found, f.splits.lookup id = some place ∧ selects[place]? = some select ∧
      evaluate ⟨tables, f.context.parameters⟩ select = .ok found ∧ found.rows = results id) :
    f.Supplied ids results fun w => w.Answers tables selects ∧ f.context.Calm w := by
  refine ⟨fun hw => hw.2, fun hlike hw => ⟨hw.1.like hlike, hlike.calm hw.2⟩, fun {id} hid => ?_⟩
  obtain ⟨place, select, found, hplace, hselect, heval, hrows⟩ := h id hid
  refine ⟨place, hplace, fun {w} hw => ?_⟩
  obtain ⟨w', hopen, hanswers, hw'⟩ := Context.openCached_runs hw.1 hw.2 hselect heval
  refine ⟨_, w', hopen, ⟨rfl, rfl⟩, hrows, ?_, ?_, hanswers, ?_⟩ <;> rw [hw']
  exact hw.2

/-! ## Values without collections -/

section NoSlots

variable {choice : RowChoice} {first : Row} {rows : List Row} {id : Nat}

mutual

theorem Tree.slotKeys_of_branches_eq_nil : ∀ {t : Tree}, t.branches = [] → t.slotKeys id = []
  | .null, _ | .scalar _, _ => by rw [Tree.slotKeys]
  | .entity _ _ _ references collections, h => by
    rw [Tree.branches, append_eq_nil_iff, map_eq_nil_iff] at h
    rw [Tree.slotKeys, Tree.memberSlotKeys_of_branches_eq_nil h.1, h.2, Branch.memberSlotKeys, append_nil]
  | .record members, h => by
    rw [Tree.branches] at h
    rw [Tree.slotKeys, Tree.memberSlotKeys_of_branches_eq_nil h]
  | .collection b, h => by
    rw [Tree.branches] at h
    cases h

theorem Tree.memberSlotKeys_of_branches_eq_nil : ∀ {ts : List (String × Tree)}, Tree.memberBranches ts = [] →
    Tree.memberSlotKeys id ts = []
  | [], _ => by rw [Tree.memberSlotKeys]
  | (_, t) :: rest, h => by
    rw [Tree.memberBranches, append_eq_nil_iff] at h
    rw [Tree.memberSlotKeys, Tree.slotKeys_of_branches_eq_nil h.1, Tree.memberSlotKeys_of_branches_eq_nil h.2,
      append_nil]

end

theorem CollectionPlace.length_branches (collections : List (String × CollectionPlace)) :
    (CollectionPlace.branches choice collections first rows).length = collections.length := by
  induction collections with
  | nil => rw [CollectionPlace.branches, length_nil, length_nil]
  | cons c collections ih => rw [CollectionPlace.branches, length_cons, length_cons, ih]

mutual

/-- A tree has as many branches as its first row has parents. -/
theorem Node.length_branches : ∀ (n : Node), (n.tree choice first rows).branches.length = (n.parentsOn first).length
  | .scalar b => by
    rw [Node.tree, Node.parentsOn]
    split <;> rw [Tree.branches, length_nil, length_nil]
  | .entity e => by
    rw [Node.tree, Node.parentsOn]
    exact EntityNode.length_branches e
  | .collection c => by
    rw [Node.tree, Node.parentsOn, Tree.branches]
    rfl
  | .record members => by
    rw [Node.tree, Node.parentsOn, Tree.branches]
    exact Node.length_memberBranches members

theorem EntityNode.length_branches : ∀ (e : EntityNode),
    (e.tree choice first rows).branches.length = (e.parentsOn first).length
  | ⟨entityType, key, properties, references, collections, nullable⟩ => by
    rw [EntityNode.tree, EntityNode.parentsOn]
    split
    · rw [Tree.branches, length_append, length_append, length_map, length_map,
        EntityNode.length_memberBranches references, CollectionPlace.length_branches]
    · rw [Tree.branches, length_nil, length_nil]

theorem Node.length_memberBranches : ∀ (members : List (String × Node)),
    (Tree.memberBranches (Node.memberTrees choice members first rows)).length =
      (Node.memberParentsOn members first).length
  | [] => by rw [Node.memberTrees, Tree.memberBranches, Node.memberParentsOn, length_nil, length_nil]
  | (name, member) :: rest => by
    rw [Node.memberTrees, Tree.memberBranches, Node.memberParentsOn, length_append, length_append,
      Node.length_branches member, Node.length_memberBranches rest]

theorem EntityNode.length_memberBranches : ∀ (references : List (String × EntityNode)),
    (Tree.memberBranches (EntityNode.referenceTrees choice references first rows)).length =
      (EntityNode.referenceParentsOn references first).length
  | [] => by rw [EntityNode.referenceTrees, Tree.memberBranches, EntityNode.referenceParentsOn, length_nil, length_nil]
  | (name, target) :: rest => by
    rw [EntityNode.referenceTrees, Tree.memberBranches, EntityNode.referenceParentsOn, length_append,
      length_append, EntityNode.length_branches target, EntityNode.length_memberBranches rest]

end

end NoSlots

/-! ## The next value -/

/-- The trees of the values of some rows, where collections have queries of their own. -/
def Node.splitTrees (n : Node) (results : Nat → List Row) (rows : List Row) : List Tree :=
  rows.map fun row => n.tree (.split results) row [row]

/-- The parent keys of the slots of a collection in some values, in the order in which they are loaded. -/
def slotKeysOf (ts : List Tree) (id : Nat) : List Key :=
  ts.flatMap fun t => t.slotKeys id

theorem slotKeysOf_of_notMem {n : Node} {rows : List Row} {id : Nat}
    (h : id ∉ n.collectionIds) : slotKeysOf (n.splitTrees results rows) id = [] := by
  rw [slotKeysOf, flatMap_eq_nil_iff]
  intro t ht
  obtain ⟨row, -, rfl⟩ := mem_map.1 ht
  exact Node.slotKeys_tree n h

section Values

variable {f : Fetch} {p : Program} {due : List Nat} {Served : World → Prop} {row : Row} {left : Nat → List Key}

section Feed

variable {q : SplitFeed} (hq : q.Given f p.root.collectionIds due Served) (hsplit : p.root.SplitBy q.copies)
  (hhas : p.root.collectionIds ≠ [] → p.hasSplit = true) (hread : p.root.Readable (.split q.results) row [row])
include hq hsplit hhas hread

/-- Loading a draft gives every slot the rows of its parent. -/
theorem Program.load_feed {c : Cursor} {w : World} {d : Draft} (h : c.Awaits w q due Served p.root.collectionIds
      (fun id => (p.root.tree (.split q.results) row [row]).slotKeys id) left)
    (hd : d.Shows (c.shapeState w).unshared w.graph (p.root.tree .joined row [])) :
    ∃ d' c' w', (p.load f.loader d).Runs c w d' c' w' ∧ Loaded c w d (p.root.tree (.split q.results) row [row]) d' c' w' ∧
      c.Serves q p.root.collectionIds left c' ∧ Served w' ∧
      c'.Starts [] fun id => (p.root.tree (.split q.results) row [row]).slotKeys id := by
  obtain ⟨-, hslots⟩ := Node.parents_of_shows p.root hd
  unfold Program.load
  by_cases hnil : p.root.parentsOn row = []
  · have hempty : d.slots.isEmpty = true := by
      rw [hnil] at hslots
      exact List.isEmpty_iff.2 (map_eq_nil_iff.1 hslots)
    have hbranches := @Node.length_branches (.split q.results) row [row] p.root
    rw [hnil] at hbranches
    have hkeys : ∀ id, (p.root.tree (.split q.results) row [row]).slotKeys id = [] := fun id =>
      Tree.slotKeys_of_branches_eq_nil (length_eq_zero_iff.1 hbranches)
    rw [if_pos hempty]
    refine ⟨d, c, w, Pull.runs_pure _ _ _, ⟨.refl _ _, ?_⟩, .refl fun id hid => ?_, h.served, fun id hid => ?_⟩
    · rw [Node.tree_of_parentsOn_eq_nil p.root hnil] at hd
      exact hd
    · simpa only [hkeys, nil_append] using h.ready id hid
    · exact absurd (hkeys id) hid
  · have hempty : ¬ d.slots.isEmpty = true := fun h => by
      rw [List.isEmpty_iff.1 h] at hslots
      exact hnil (map_eq_nil_iff.1 hslots.symm)
    -- A slot belongs to a collection of the program.
    have hids : p.root.collectionIds ≠ [] := by
      intro hids
      have hbranches := @Node.length_branches (.split q.results) row [row] p.root
      obtain ⟨b, hb⟩ := exists_mem_of_length_pos (hbranches ▸ List.length_pos_iff.2 hnil)
      have hmem := Node.id_mem_of_mem_branches hb
      rw [hids] at hmem
      cases hmem
    rw [if_neg hempty, if_pos (hhas hids)]
    obtain ⟨d', c', w', hrun, hgives, hserves, hw', -, hstarted⟩ := Node.loadSplit_runs hq p.root hsplit
      (List.Subset.refl _) hread h hd
    exact ⟨d', c', w', hrun, ⟨hgives.grows, hgives.shows⟩, hserves, hw', hstarted⟩

/-- The next value is made of the next row and of the rows of its slots. -/
theorem Program.next_feed {rest : List Row} {c : Cursor} {w : World} (hopen : c.reader.Open)
    (hbefore : c.Before (row :: rest)) (h : c.Awaits w q due Served p.root.collectionIds
      (fun id => (p.root.tree (.split q.results) row [row]).slotKeys id) left) :
    ∃ v c' w', (p.next f.loader).Runs c w (some v) c' w' ∧
      v.MadeFor (c.shapeState w).unshared w'.graph (p.root.tree (.split q.results) row [row]) ∧
      (c'.shapeState w').Sound ∧ (c'.shapeState w').unshared = (c.shapeState w).unshared ∧ c'.Before rest ∧
      c'.reader.Open ∧ Served w' ∧ c'.ReadyFor q p.root.collectionIds left ∧ (∀ id, c.Opened id → c'.Opened id) ∧
      c'.Starts [] fun id => (p.root.tree (.split q.results) row [row]).slotKeys id := by
  obtain ⟨r, hnext, hropen, hrcur, hrrest, hexh⟩ := Fetch.nextValue_row (hq.supplied.calm h.served) hopen hbefore
  let c₀ : Cursor := { c with reader := r, ahead := false, nextSlot := 0 }
  have hsound₀ : (c₀.shapeState w).Sound := h.sound.extend (.refl (fun _ => True) _) rfl rfl
  have hload : ∀ {c₁ : Cursor} {w₁ : World} {d : Draft}, c₀.Like c₁ → w.Like w₁ → (c₁.shapeState w₁).Sound →
      d.Shows (c₁.shapeState w₁).unshared w₁.graph (p.root.tree .joined row []) →
      ∃ d' c' w', (p.load f.loader d).Runs c₁ w₁ d' c' w' ∧
        Loaded c₁ w₁ d (p.root.tree (.split q.results) row [row]) d' c' w' ∧
        (c'.Before rest ∧ c'.reader.Open ∧ Served w' ∧ c'.ReadyFor q p.root.collectionIds left ∧
          (∀ id, c.Opened id → c'.Opened id) ∧
          c'.Starts [] fun id => (p.root.tree (.split q.results) row [row]).slotKeys id) := by
    intro c₁ w₁ d hc₁ hw₁ hsound₁ hd
    have hopened₁ : ∀ id, c.Opened id → c₁.Opened id := fun id => (Cursor.opened_congr (by rw [hc₁.splits])).2
    obtain ⟨d', c', w', hrun, hloaded, hserves, hw', hstarted⟩ := load_feed hq hsplit hhas hread
      ⟨hq.supplied.like hw₁ h.served, hsound₁, h.starts.mono hopened₁ fun _ _ h => h, h.fits, fun id hid =>
        (Cursor.splitBefore_congr (by rw [hc₁.splits])).2 (h.ready id hid)⟩ hd
    have hreader : c'.reader = r := hserves.moves.reader.trans hc₁.reader
    refine ⟨d', c', w', hrun, hloaded, Cursor.before_of_rest ?_ ?_ (hreader ▸ hrrest), hreader ▸ hropen, hw',
      hserves.ready, fun id hid => hserves.moves.opened id (hopened₁ id hid), hstarted⟩
    · exact hserves.moves.ahead.trans hc₁.ahead
    · exact hserves.moves.exhausted.trans (hc₁.exhausted.trans hexh)
  obtain ⟨v, c', w', hrun, hmade, -, hsound', hun, hkept⟩ := shapeValue_runs (c := c₀) hrcur hsound₀ hread
    (fun _ => rfl) hload fun h => ⟨h.1, h.2.1, hq.supplied.like rfl h.2.2.1, h.2.2.2⟩
  exact ⟨v, c', w', hnext.bind (hrun.bind (Pull.runs_pure _ _ _)), hmade, hsound', hun, hkept⟩

end Feed

theorem SplitRows.Given.feed {q : SplitRows} {ids : List Nat} (h : q.Given f ids Served) :
    q.feed.Given f ids ids Served := by
  have hall : q.feed.all = q.results := funext fun id => append_nil _
  refine ⟨hall ▸ h.supplied, fun id hid row hrow => h.readable id hid row ?_⟩
  exact (mem_append.1 hrow).resolve_right not_mem_nil

/-- When all rows of collections are taken, those of the parents that come later are all that is left. -/
theorem Program.next_split {q : SplitRows} (hq : q.Given f p.root.collectionIds Served)
    (hsplit : p.root.SplitBy q.copies) (hhas : p.root.collectionIds ≠ [] → p.hasSplit = true)
    (hread : p.root.Readable (.split q.results) row [row]) {rest : List Row} {c : Cursor} {w : World} (hw : Served w)
    (hopen : c.reader.Open) (hbefore : c.Before (row :: rest)) (hsound : (c.shapeState w).Sound)
    (hnodup : ∀ id, ((p.root.tree (.split q.results) row [row]).slotKeys id ++ left id).Nodup)
    (hready : c.Ready q p.root.collectionIds
      fun id => (p.root.tree (.split q.results) row [row]).slotKeys id ++ left id) :
    ∃ v c' w', (p.next f.loader).Runs c w (some v) c' w' ∧
      v.MadeFor (c.shapeState w).unshared w'.graph (p.root.tree (.split q.results) row [row]) ∧
      (c'.shapeState w').Sound ∧ (c'.shapeState w').unshared = (c.shapeState w).unshared ∧ c'.Before rest ∧
      c'.reader.Open ∧ Served w' ∧ c'.Ready q p.root.collectionIds left := by
  have hstarts : c.Starts p.root.collectionIds fun id => (p.root.tree (.split q.results) row [row]).slotKeys id := by
    intro id hid
    by_contra hnone
    exact hid (Node.slotKeys_tree p.root fun hmem => hnone (.inl hmem))
  obtain ⟨v, c', w', hnext, hmade, hsound', hun, hbefore', hopen', hw', hready', -, -⟩ :=
    next_feed hq.feed hsplit hhas hread hopen hbefore ⟨hw, hsound, hstarts,
      fun id => ⟨hnodup id, fun _ hrow => nomatch hrow⟩, Cursor.readyFor_feed.2 hready⟩
  exact ⟨v, c', w', hnext, hmade, hsound', hun, hbefore', hopen', hw', Cursor.readyFor_feed.1 hready'⟩

end Values

/-! ## Enumerations -/

/-- Where a cursor is when the values of some rows are still to come, and the rows of their slots. -/
structure Cursor.StandsBeforeSplit (c : Cursor) (w : World) (q : SplitRows) (n : Node) (Served : World → Prop)
    (unshared : Bool) (rows : List Row) : Prop where
  before : c.Before rows
  reader : c.reader.Open
  served : Served w
  sound : (c.shapeState w).Sound
  unshared_eq : (c.shapeState w).unshared = unshared
  readable : ∀ row ∈ rows, n.Readable (.split q.results) row [row]
  nodup : ∀ id, (slotKeysOf (n.splitTrees q.results rows) id).Nodup
  ready : c.Ready q n.collectionIds (slotKeysOf (n.splitTrees q.results rows))

/-- Slots with different parents, and rows in the order of the slots. -/
structure SplitRows.Ordered (q : SplitRows) (ids : List Nat) (ts : List Tree) : Prop where
  nodup : ∀ id ∈ ids, (slotKeysOf ts id).Nodup
  sublist : ∀ id ∈ ids,
    (((q.results id).map (Binding.keyOn (q.copies id))).destutter (· ≠ ·)).Sublist (slotKeysOf ts id)

/-- A query whose collections have queries of their own gives one value for each of its rows. Every slot has exactly the
rows that repeat its parent, the rows of the parents that come later are left where they are, and in the end no row is
left: the rows of all slots, one after the other, are the rows of the collection. -/
theorem Enumeration.yields_splitTrees (q : CompiledQuery) (context : Context) (mode : Mode) (w w₁ : World)
    (reader : Reader) (rows : SplitRows) (Served : World → Prop) (hsplit : q.program.root.SplitBy rows.copies)
    (hhas : q.program.root.collectionIds ≠ [] → q.program.hasSplit = true) (hfree : (start q context mode).Free w)
    (hopen : (context.openCached mode q.commands).Runs ((start q context mode).enter w) reader w₁)
    (hreader : reader.Open) (hserved : Served w₁) (hknown : (w₁.manager context.manager).known.Sound w₁.graph)
    (hgiven : rows.Given (start q context mode).fetch q.program.root.collectionIds Served)
    (hread : ∀ row ∈ reader.rest, q.program.root.Readable (.split rows.results) row [row])
    (hordered : rows.Ordered q.program.root.collectionIds (q.program.root.splitTrees rows.results reader.rest)) :
    (∀ id ∈ q.program.root.collectionIds,
        rows.rowsOf id (slotKeysOf (q.program.root.splitTrees rows.results reader.rest) id) = rows.results id) ∧
      (start q context mode).Yields (q.options.tracking = .none)
        (fun ts c => c.Ready rows q.program.root.collectionIds (slotKeysOf ts))
        (q.program.root.splitTrees rows.results reader.rest) w := by
  let n := q.program.root
  let f := (start q context mode).fetch
  have hrows : ∀ id ∈ n.collectionIds,
      rows.rowsOf id (slotKeysOf (n.splitTrees rows.results reader.rest) id) = rows.results id := fun id hid =>
    rowsOf_eq (hordered.nodup id hid) (hordered.sublist id hid)
  refine ⟨hrows, ?_⟩
  obtain ⟨identity, managers, hreach, hsound, hunshared⟩ := reaches_start hopen hknown
  have hready : (Cursor.start reader identity).Ready rows n.collectionIds
      (slotKeysOf (n.splitTrees rows.results reader.rest)) := fun id hid => hrows id hid
  have hnodup : ∀ id, (slotKeysOf (n.splitTrees rows.results reader.rest) id).Nodup := by
    intro id
    by_cases hid : id ∈ n.collectionIds
    · exact hordered.nodup id hid
    · rw [slotKeysOf_of_notMem hid]
      exact nodup_nil
  refine @yields_of_next (start q context mode) _ _ (fun ts c w => ∃ left, ts = n.splitTrees rows.results left ∧
    c.StandsBeforeSplit w rows n Served (decide (q.options.tracking = .none)) left) ?_ ?_ ?_ ?_ _ _ _ _ _ rfl rfl rfl
    hfree hreach ⟨reader.rest, rfl, Cursor.before_of_rest rfl rfl rfl, hreader, hgiven.supplied.like rfl hserved, hsound,
      hunshared, hread, hnodup, hready⟩
  · rintro ts c w detectors ⟨left, hts, h⟩
    exact ⟨left, hts, h.before, h.reader, hgiven.supplied.like rfl h.served, h.sound, h.unshared_eq, h.readable, h.nodup,
      h.ready⟩
  · rintro ts c w ⟨left, rfl, h⟩
    exact h.ready
  · rintro c w ⟨left, hts, h⟩
    obtain rfl : left = [] := map_eq_nil_iff.1 hts.symm
    obtain ⟨c', hnext, -, hsplits⟩ := Fetch.nextValue_end (f := f) (hgiven.supplied.calm h.served) h.reader h.before
    exact ⟨c', hnext.bind (Pull.runs_pure _ _ _), fun id hid =>
      (Cursor.splitBefore_congr (by rw [hsplits])).2 (h.ready id hid)⟩
  · rintro t ts c w ⟨left, hts, h⟩
    cases left with
    | nil => cases hts
    | cons row left =>
      rw [Node.splitTrees, map_cons, List.cons.injEq] at hts
      obtain ⟨v, c', w', hnext, hmade, hsound', hun, hbefore, hopen', hserved', hready'⟩ :=
        Program.next_split hgiven hsplit hhas (h.readable row mem_cons_self) h.served h.reader h.before h.sound
          h.nodup h.ready
      rw [h.unshared_eq] at hmade
      exact ⟨v, c', w', hnext, hts.1 ▸ hmade, left, hts.2, hbefore, hopen', hserved', hsound', hun.trans h.unshared_eq,
        fun r hr => h.readable r (mem_cons_of_mem _ hr), fun id => (nodup_append.1 (h.nodup id)).2.1, hready'⟩

/-- Collections inside each other, each with a query of its own. -/
def nestedCollections : Program :=
  let inner : CollectionNode := ⟨1, none, "", [.field 1], [.field 1], .scalar (.field 1), some [.field 0]⟩
  let outer : CollectionNode := ⟨0, none, "", [.field 0], [.field 1],
    .record [("V", .scalar (.field 1)), ("Bs", .collection (.here inner))], some [.field 0]⟩
  ⟨.record [("V", .scalar (.field 0)), ("As", .collection (.here outer))], [outer, inner]⟩

def nestedTables : List (String × Relation) :=
  [("P", ⟨["V"], [[.int32 1], [.int32 2], [.int32 3]]⟩),
    ("A", ⟨["P", "V"], [[.int32 1, .int32 10], [.int32 1, .int32 11], [.int32 1, .int32 10], [.int32 3, .int32 30]]⟩),
    ("B", ⟨["A", "V"], [[.int32 10, .int32 100], [.int32 10, .int32 101], [.int32 30, .int32 300]]⟩)]

def nestedRows : SplitRows where
  results id := (nestedTables[id + 1]?).elim [] fun t => t.2.rows
  copies _ := [.field 0]

theorem splitBy_nested : nestedCollections.root.SplitBy fun _ => [.field 0] := by
  simp [nestedCollections, Node.Each, Node.EachMember, CollectionPlace.Each, CollectionNode.Each, CollectionNode.SplitAs,
    CollectionNode.Acyclic, Node.collectionIds, Node.memberCollectionIds, CollectionPlace.collectionIds,
    CollectionNode.collectionIds]

theorem readable_nested : ∀ row ∈ [[Value.int32 1], [.int32 2], [.int32 3]],
    nestedCollections.root.Readable (.split nestedRows.results) row [row] := by
  simp only [nestedCollections, Node.Readable, Node.ReadableMembers, CollectionPlace.Readable, CollectionNode.Readable]
  decide +kernel

def nestedSelects : List Select :=
  [.all "P" ["V"], .all "A" ["P", "V"], .all "B" ["A", "V"]]

theorem ordered_nested : nestedRows.Ordered nestedCollections.root.collectionIds
    (nestedCollections.root.splitTrees nestedRows.results [[.int32 1], [.int32 2], [.int32 3]]) := by
  constructor <;> decide +kernel

theorem Enumeration.yields_splitTrees_nested :
    (start (.prepared nestedCollections .none [(0, 1), (1, 2)]) .plain .blocking).Yields true
      (fun ts c => c.Ready nestedRows nestedCollections.root.collectionIds (slotKeysOf ts))
      (nestedCollections.root.splitTrees nestedRows.results [[.int32 1], [.int32 2], [.int32 3]])
      (.offering nestedTables nestedSelects) := by
  let e := start (.prepared nestedCollections .none [(0, 1), (1, 2)]) .plain .blocking
  have hanswers := (World.answers_offering nestedTables nestedSelects).like
    (rfl : World.Like _ (e.enter (.offering nestedTables nestedSelects)))
  have hroot : evaluate ⟨nestedTables, .empty⟩ (.all "P" ["V"]) =
      .ok ⟨["V"], [[.int32 1], [.int32 2], [.int32 3]]⟩ := by cbv
  have houter : evaluate ⟨nestedTables, .empty⟩ (.all "A" ["P", "V"]) = .ok ⟨["P", "V"], nestedRows.results 0⟩ := by cbv
  have hinner : evaluate ⟨nestedTables, .empty⟩ (.all "B" ["A", "V"]) = .ok ⟨["A", "V"], nestedRows.results 1⟩ := by cbv
  obtain ⟨w₁, hopen, hanswers₁, hw₁⟩ :=
    @Context.openCached_runs .plain .blocking _ _ _ hanswers rfl 0 (.all "P" ["V"]) rfl _ hroot
  have hgiven : nestedRows.Given e.fetch nestedCollections.root.collectionIds
      fun w => w.Answers nestedTables nestedSelects ∧ Context.plain.Calm w := by
    refine ⟨Fetch.supplied_of_answers fun id hid => ?_, by decide +kernel⟩
    rcases List.mem_pair.1 hid with rfl | rfl
    · exact ⟨1, _, _, rfl, rfl, houter, rfl⟩
    · exact ⟨2, _, _, rfl, rfl, hinner, rfl⟩
  refine (yields_splitTrees (.prepared nestedCollections .none [(0, 1), (1, 2)]) .plain .blocking _ w₁ _ nestedRows _
    splitBy_nested (fun _ => rfl) (fun _ => rfl) hopen ⟨rfl, rfl⟩ ⟨hanswers₁, rfl⟩ ?_ hgiven readable_nested
    ordered_nested).2
  rw [hw₁]
  exact IdentityMap.sound_empty _

/-- A collection that is part of its own elements. -/
def selfNested : Program :=
  let c : CollectionNode := ⟨0, none, "", [.field 1], [.field 1],
    .record [("V", .scalar (.field 1)), ("Cs", .collection (.again 0 [.field 1]))], some [.field 0]⟩
  ⟨.record [("Cs", .collection (.here c))], [c]⟩

def selfNestedTables : List (String × Relation) :=
  [("Roots", ⟨["Tag", "Id"], [[.int32 0, .int32 1]]⟩),
    ("Edges", ⟨["Parent", "Child"], [[.int32 1, .int32 10], [.int32 1, .int32 11], [.int32 10, .int32 20]]⟩)]

def selfNestedSelects : List Select :=
  [.all "Roots" ["Tag", "Id"], .all "Edges" ["Parent", "Child"]]

def selfNestedRows : SplitRows where
  results _ := [[.int32 1, .int32 10], [.int32 1, .int32 11], [.int32 10, .int32 20]]
  copies _ := [.field 0]

theorem readable_selfNested : selfNested.root.Readable (.split selfNestedRows.results) [.int32 0, .int32 1]
    [[.int32 0, .int32 1]] := by
  simp only [selfNested, Node.Readable, Node.ReadableMembers, CollectionPlace.Readable, CollectionNode.Readable]
  decide +kernel

theorem ordered_selfNested : selfNestedRows.Ordered selfNested.root.collectionIds
    (selfNested.root.splitTrees selfNestedRows.results [[.int32 0, .int32 1]]) := by
  constructor <;> decide +kernel

/-- The rows for an element of a collection that is part of its own elements can be left over: when the slot of the
element is loaded, the reader still stands before rows of the enclosing slot. -/
theorem Enumeration.not_yields_splitTrees_of_again :
    ¬ ∀ (q : CompiledQuery) (context : Context) (mode : Mode) (w w₁ : World) (reader : Reader) (rows : SplitRows)
      (Served : World → Prop), (∀ c ∈ q.program.collections, c.splitParent = some (rows.copies c.id)) →
      (q.program.root.collectionIds ≠ [] → q.program.hasSplit = true) → (start q context mode).Free w →
      (context.openCached mode q.commands).Runs ((start q context mode).enter w) reader w₁ → reader.Open → Served w₁ →
      (w₁.manager context.manager).known.Sound w₁.graph →
      rows.Given (start q context mode).fetch q.program.root.collectionIds Served →
      (∀ row ∈ reader.rest, q.program.root.Readable (.split rows.results) row [row]) →
      rows.Ordered q.program.root.collectionIds (q.program.root.splitTrees rows.results reader.rest) →
      (start q context mode).Yields (q.options.tracking = .none)
        (fun ts c => c.Ready rows q.program.root.collectionIds (slotKeysOf ts))
        (q.program.root.splitTrees rows.results reader.rest) w := by
  intro h
  let q : CompiledQuery := .prepared selfNested .none [(0, 1)]
  let e := start q .plain .blocking
  have hanswers := (World.answers_offering selfNestedTables selfNestedSelects).like
    (rfl : World.Like _ (e.enter (.offering selfNestedTables selfNestedSelects)))
  have hroot : evaluate ⟨selfNestedTables, .empty⟩ (.all "Roots" ["Tag", "Id"]) =
      .ok ⟨["Tag", "Id"], [[.int32 0, .int32 1]]⟩ := by cbv
  have hedges : evaluate ⟨selfNestedTables, .empty⟩ (.all "Edges" ["Parent", "Child"]) =
      .ok ⟨["Parent", "Child"], selfNestedRows.results 0⟩ := by cbv
  obtain ⟨w₁, hopen, hanswers₁, hw₁⟩ :=
    @Context.openCached_runs .plain .blocking _ _ _ hanswers rfl 0 (.all "Roots" ["Tag", "Id"]) rfl _ hroot
  have hgiven : selfNestedRows.Given e.fetch selfNested.root.collectionIds
      fun w => w.Answers selfNestedTables selfNestedSelects ∧ Context.plain.Calm w := by
    refine ⟨Fetch.supplied_of_answers fun id hid => ?_, by decide +kernel⟩
    obtain rfl : id = 0 := (List.mem_pair.1 hid).elim (fun h => h) fun h => h
    exact ⟨1, _, _, rfl, rfl, hedges, rfl⟩
  have hknown : (w₁.manager 0).known.Sound w₁.graph := by
    rw [hw₁]
    exact IdentityMap.sound_empty _
  have hyields := h q .plain .blocking _ w₁ _ selfNestedRows _ (fun c hc => by rw [mem_singleton.1 hc]; rfl)
    (fun _ => rfl) (fun _ => rfl) hopen ⟨rfl, rfl⟩ ⟨hanswers₁, rfl⟩ hknown hgiven
    (fun row hrow => by rw [mem_singleton.1 hrow]; exact readable_selfNested) ordered_selfNested
  obtain ⟨v, e₁, w₁, hpull₁, -, -, e₂, w₂, hpull₂, -, c, hc, hready⟩ := hyields
  -- The last row is still ahead in the end.
  have hleft : (e₂.cursor.bind fun c => c.splits.lookup 0).map (fun r => (r.exhausted, r.ahead)) = some (false, true) := by
    have hactual : (let first := e.pull.run (.offering selfNestedTables selfNestedSelects)
        let second := first.1.2.pull.run first.2
        (second.1.2.cursor.bind fun c => c.splits.lookup 0).map fun r => (r.exhausted, r.ahead)) =
        some (false, true) := by
      cbv
    simp only [e, hpull₁, hpull₂] at hactual
    exact hactual
  rw [hc] at hleft
  obtain ⟨r, hr, hstate⟩ := Option.map_eq_some_iff.1 hleft
  obtain ⟨hexh, hahead⟩ := Prod.mk.inj hstate
  have hbefore := (Cursor.splitBefore_some hr).1 (hready 0 mem_cons_self)
  rcases hbefore.rows with ⟨hexh', -⟩ | ⟨-, -, row, -, hrows⟩ | ⟨-, hahead', -⟩
  · rw [hexh] at hexh'
    cases hexh'
  · cases hrows
  · rw [hahead] at hahead'
    cases hahead'

end QueryShaping
