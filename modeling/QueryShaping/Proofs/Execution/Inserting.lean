import QueryShaping.Proofs.Execution.SplitValues

/-!
# Values while rows are inserted

A reader holds the rows that there were when it was opened. The reader of a query is opened by the first pull, that of a
collection when its first slot is loaded, so the rows that an enumeration puts together can be of different times. What
a collection gets is then still what its own reader holds: each slot has the rows that repeat its parent, as far as the
rows come in the order of the slots.

A row whose parent has no slot ends this. It is read ahead and belongs to nobody, so the reader stays before it, and the
rows behind it are lost to the slots that come later.
-/

namespace QueryShaping

open List

/-! ## Inserting rows -/

namespace Store

variable {s s' : Store}

/-- The store after so many turns, in each of which rows have been appended. -/
def after (s : Store) (inserts : Nat → List (String × Row)) : Nat → Store
  | 0 => s
  | turns + 1 => (s.after inserts turns).insertEach (inserts turns)

theorem insertAll_singleton (s : Store) (name : String) (row : Row) :
    ∃ tables, (s.insertAll name [row]).1 = { s with tables := tables } ∧
      ∀ s' : Store, s'.tables = s.tables → (s'.insertAll name [row]).1.tables = tables := by
  unfold insertAll insert
  cases hfind : s.tables.lookup name with
  | none => exact ⟨s.tables, rfl, fun s' h => by rw [h, hfind]; exact h⟩
  | some table =>
    by_cases hwidth : row.length = table.columns.length
    · refine ⟨putTable name { table with rows := table.rows ++ [row] } s.tables, ?_, fun s' h => ?_⟩
      · simp only [if_pos hwidth, insertAll]
      · simp only [h, hfind, if_pos hwidth, insertAll]
    · refine ⟨s.tables, ?_, fun s' h => ?_⟩
      · simp only [if_neg hwidth]
      · simp only [h, hfind, if_neg hwidth]

/-- Nothing but the tables changes, and these depend on the tables only. -/
theorem insertEach_eq (rows : List (String × Row)) : ∀ s : Store,
    s.insertEach rows = { s with tables := (s.insertEach rows).tables } ∧
      ∀ s' : Store, s'.tables = s.tables → (s'.insertEach rows).tables = (s.insertEach rows).tables := by
  induction rows with
  | nil => exact fun s => ⟨rfl, fun s' h => h⟩
  | cons r rows ih =>
    intro s
    obtain ⟨tables, hone, hsame⟩ := s.insertAll_singleton r.1 r.2
    obtain ⟨hrest, hrestSame⟩ := ih (s.insertAll r.1 [r.2]).1
    refine ⟨?_, fun s' h => hrestSame _ ((hsame s' h).trans (by rw [hone]))⟩
    show (s.insertAll r.1 [r.2]).1.insertEach rows =
      { s with tables := ((s.insertAll r.1 [r.2]).1.insertEach rows).tables }
    rw [hrest, hone]

end Store

theorem World.Answers.insertEach {w : World} {tables : List (String × Relation)} {selects : List Select}
    (h : w.Answers tables selects) {s : Store} (hs : s.tables = tables) (rows : List (String × Row)) :
    (w.insertEach rows).Answers (s.insertEach rows).tables selects := by
  obtain ⟨hstore, hsame⟩ := Store.insertEach_eq rows w.store
  refine ⟨(hsame s (hs.trans h.tables_eq.symm)).symm, ?_, ?_, h.caches⟩
  · show (w.store.insertEach rows).script = none
    rw [hstore]
    exact h.script
  · show (w.store.insertEach rows).pendingFailures = 0
    rw [hstore]
    exact h.failures

/-! ## Readers that are opened at different times -/

theorem slotKeysOf_append (ts ts' : List Tree) (id : Nat) :
    slotKeysOf (ts ++ ts') id = slotKeysOf ts id ++ slotKeysOf ts' id :=
  flatMap_append

theorem SplitFeed.fits_nil (q : SplitFeed) (id : Nat) : q.Fits id [] :=
  ⟨nodup_nil, fun _ _ => not_mem_nil⟩

/-- Slots with different parents, and rows in the order of the slots as far as the first one whose parent has no slot. -/
structure SplitFeed.Ordered (q : SplitFeed) (ids : List Nat) (ts : List Tree) : Prop where
  fits : ∀ id ∈ ids, q.Fits id (slotKeysOf ts id)
  sublist : ∀ id ∈ ids,
    (((q.results id).map (Binding.keyOn (q.copies id))).destutter (· ≠ ·)).Sublist (slotKeysOf ts id)

/-- Whether these are the rows of collections at the time when their readers are opened: the query of a collection gives
them on the tables of the turn whose value has the first slot of the collection. -/
def Fetch.OpensAmid (f : Fetch) (selects : List Select) (tables : Nat → List (String × Relation))
    (all : Nat → List Row) (ts : List Tree) : Prop :=
  ∀ (id turn : Nat) (t : Tree), ts[turn]? = some t → slotKeysOf (ts.take turn) id = [] → t.slotKeys id ≠ [] →
    ∃ place select found, f.splits.lookup id = some place ∧ selects[place]? = some select ∧
      evaluate ⟨tables turn, f.context.parameters⟩ select = .ok found ∧ found.rows = all id

/-- Where a cursor is in its turn when the values of some rows have been given and those of others are still to come. -/
structure Cursor.StandsAmid (c : Cursor) (w : World) (q : SplitFeed) (n : Node) (unshared : Bool)
    (given rows : List Row) : Prop where
  before : c.Before rows
  reader : c.reader.Open
  sound : (c.shapeState w).Sound
  unshared_eq : (c.shapeState w).unshared = unshared
  readable : ∀ row ∈ rows, n.Readable (.split q.results) row [row]
  fits : ∀ id, q.Fits id (slotKeysOf (n.splitTrees q.results rows) id)
  ready : c.ReadyFor q n.collectionIds (slotKeysOf (n.splitTrees q.results rows))
  opened : c.Starts [] (slotKeysOf (n.splitTrees q.results given))

section Turns

variable {f : Fetch} {p : Program} {q : SplitFeed} {selects : List Select} {tables : Nat → List (String × Relation)}
  {c : Cursor} {w : World} {unshared : Bool} {given rest : List Row} {row : Row}

/-- The collections whose first slot is in a value. -/
def Tree.due (ids : List Nat) (given : List Tree) (t : Tree) : List Nat :=
  ids.filter fun id => (slotKeysOf given id).isEmpty && !(t.slotKeys id).isEmpty

/-- In its turn a value gets its rows from the readers that are open and from those that are opened for it. -/
theorem Cursor.StandsAmid.next (h : c.StandsAmid w q p.root unshared given (row :: rest))
    (hsplit : p.root.SplitBy q.copies) (hhas : p.root.collectionIds ≠ [] → p.hasSplit = true)
    (hcopies : ∀ id ∈ p.root.collectionIds, ∀ row ∈ q.results id ++ (q.behind id).take 1, ∀ b ∈ q.copies id,
      b.ReadableOn row)
    (hopens : f.OpensAmid selects tables q.all (p.root.splitTrees q.results (given ++ row :: rest)))
    (hanswers : w.Answers (tables given.length) selects) (hcalm : f.context.Calm w) :
    ∃ v c' w', (p.next f.loader).Runs c w (some v) c' w' ∧
      v.MadeFor unshared w'.graph (p.root.tree (.split q.results) row [row]) ∧
      c'.StandsAmid w' q p.root unshared (given ++ [row]) rest ∧ w'.Answers (tables given.length) selects ∧
      f.context.Calm w' := by
  let t := p.root.tree (.split q.results) row [row]
  let ts := p.root.splitTrees q.results given
  let due := t.due p.root.collectionIds ts
  have hgiven : q.Given f p.root.collectionIds due
      fun w => w.Answers (tables given.length) selects ∧ f.context.Calm w := by
    refine ⟨Fetch.supplied_of_answers fun id hid => ?_, hcopies⟩
    obtain ⟨-, hfirst⟩ := mem_filter.1 hid
    obtain ⟨hbefore, hnow⟩ := Bool.and_eq_true_iff.1 hfirst
    have hlength : given.length = ts.length := (length_map _).symm
    have hall : p.root.splitTrees q.results (given ++ row :: rest) = ts ++ t :: p.root.splitTrees q.results rest :=
      map_append
    rw [hall] at hopens
    refine hopens id given.length t ?_ ?_ fun hnil => ?_
    · rw [hlength, getElem?_append_right (Nat.le_refl _), Nat.sub_self]
      rfl
    · rw [hlength, take_left]
      exact List.isEmpty_iff.1 hbefore
    · rw [hnil] at hnow
      cases hnow
  have hstarts : c.Starts due fun id => t.slotKeys id := by
    intro id hid
    by_cases hbefore : slotKeysOf ts id = []
    · refine .inl (mem_filter.2 ⟨?_, ?_⟩)
      · by_contra hmem
        exact hid (Node.slotKeys_tree p.root hmem)
      · rw [hbefore, List.isEmpty_eq_false_iff.2 hid]
        rfl
    · exact .inr ((h.opened id hbefore).resolve_left not_mem_nil)
  obtain ⟨v, c', w', hnext, hmade, hsound, hun, hbefore, hopen, hserved, hready, hopened, hstarted⟩ :=
    Program.next_feed hgiven hsplit hhas (h.readable row mem_cons_self) h.reader h.before
      ⟨⟨hanswers, hcalm⟩, h.sound, hstarts, h.fits, h.ready⟩
  rw [h.unshared_eq] at hmade
  refine ⟨v, c', w', hnext, hmade, ⟨hbefore, hopen, hsound, hun.trans h.unshared_eq,
    fun r hr => h.readable r (mem_cons_of_mem _ hr), fun id => (h.fits id).append_right, hready, ?_⟩, hserved⟩
  have hboth := (h.opened.mono hopened fun _ _ h => h).append hstarted
  refine hboth.mono (fun _ ho => ho) fun id => ?_
  rw [Node.splitTrees, map_append, slotKeysOf_append, slotKeysOf, slotKeysOf]
  simp [slotKeysOf, Node.splitTrees]

end Turns

/-- Parents of which the first has no elements, and elements that have no elements yet. -/
def lateTables : List (String × Relation) :=
  [("P", ⟨["V"], [[.int32 1], [.int32 2], [.int32 3]]⟩),
    ("A", ⟨["P", "V"], [[.int32 2, .int32 20], [.int32 3, .int32 30]]⟩), ("B", ⟨["A", "V"], []⟩)]

/-- Rows that come before the second pull. One of them is for a parent that was not there when its reader was opened. -/
def lateInserts : Nat → List (String × Row)
  | 1 => [("A", [.int32 1, .int32 10]), ("B", [.int32 20, .int32 200]), ("B", [.int32 10, .int32 100]),
      ("B", [.int32 30, .int32 300])]
  | _ => []

/-- The rows of the outer collection, with those of the inner one. -/
def lateResults (inner : List Row) : Nat → List Row
  | 0 => [[.int32 2, .int32 20], [.int32 3, .int32 30]]
  | 1 => inner
  | _ => []

def lateFeed : SplitFeed where
  results := lateResults [[.int32 20, .int32 200]]
  copies _ := [.field 0]
  behind
    | 1 => [[.int32 10, .int32 100], [.int32 30, .int32 300]]
    | _ => []

/-- The reader of the outer collection is opened by the first pull, that of the inner one by the second. -/
theorem opensAmid_late (inner : List Row) :
    (Enumeration.start (.prepared nestedCollections .none [(0, 1), (1, 2)]) .plain .blocking).fetch.OpensAmid
      nestedSelects
      (fun turn => ((World.offering lateTables nestedSelects).store.after lateInserts (turn + 1)).tables) lateFeed.all
      (nestedCollections.root.splitTrees (lateResults inner) [[.int32 1], [.int32 2], [.int32 3]]) := by
  intro id turn t ht hbefore hnow
  have hid : id ∈ [0, 1] := by
    by_contra hmem
    obtain ⟨row, -, rfl⟩ := mem_map.1 (mem_of_getElem? ht)
    exact hnow (Node.slotKeys_tree nestedCollections.root hmem)
  rcases List.mem_pair.1 hid with rfl | rfl
  · cases turn with
    | zero =>
      refine ⟨1, _, ⟨["P", "V"], lateFeed.all 0⟩, rfl, rfl, ?_, rfl⟩
      cbv
    | succ turn => cases hbefore
  · cases turn with
    | zero =>
      cases ht
      exact absurd rfl hnow
    | succ turn =>
      cases turn with
      | zero =>
        refine ⟨2, _, ⟨["A", "V"], lateFeed.all 1⟩, rfl, rfl, ?_, rfl⟩
        cbv
      | succ turn => cases hbefore

theorem ordered_late : lateFeed.Ordered nestedCollections.root.collectionIds
    (nestedCollections.root.splitTrees (lateResults [[.int32 20, .int32 200]]) [[.int32 1], [.int32 2], [.int32 3]]) := by
  refine ⟨fun id hid => ⟨?_, ?_⟩, by decide +kernel⟩
  all_goals
    revert id
    decide +kernel

/-- The values can be read from the rows at any time. -/
theorem readable_late : ∀ inner ∈ [[[.int32 20, .int32 200]], lateFeed.all 1],
    ∀ row ∈ [[Value.int32 1], [.int32 2], [.int32 3]],
      nestedCollections.root.Readable (.split (lateResults inner)) row [row] := by
  simp only [nestedCollections, Node.Readable, Node.ReadableMembers, CollectionPlace.Readable, CollectionNode.Readable]
  decide +kernel

theorem nodup_late (id : Nat) : (slotKeysOf (nestedCollections.root.splitTrees (lateResults (lateFeed.all 1))
    [[.int32 1], [.int32 2], [.int32 3]]) id).Nodup := by
  by_cases hid : id ∈ nestedCollections.root.collectionIds
  · revert id
    decide +kernel
  · rw [slotKeysOf_of_notMem hid]
    exact nodup_nil

end QueryShaping
