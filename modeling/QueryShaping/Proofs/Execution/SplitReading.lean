import QueryShaping.Proofs.Execution.Values
import QueryShaping.Proofs.Shaping.SlotKeys

/-!
# The readers of collections

A collection with a query of its own has a reader that is opened at its first use. It stands before the rows that no
parent has taken, the first of which may have been read ahead: `Cursor.SplitBefore` says which rows these are, whether
the reader has been opened or not. Moving one reader leaves the others and the reader of the query where they are.
-/

namespace QueryShaping

open List Pull

variable {r : SplitReader}

/-- The reader of a collection before so many rows, of which it may have read the first one ahead. -/
structure SplitReader.Before (r : SplitReader) (rows : List Row) : Prop where
  reader : r.reader.Open
  rows : r.exhausted = true ∧ rows = [] ∨
    r.exhausted = false ∧ r.ahead = true ∧ (∃ row, r.reader.current = some row ∧ rows = row :: r.reader.rest) ∨
    r.exhausted = false ∧ r.ahead = false ∧ rows = r.reader.rest

theorem SplitReader.Before.length_le {rows : List Row} (h : r.Before rows) :
    rows.length ≤ r.reader.rest.length + 1 := by
  rcases h.rows with ⟨-, rfl⟩ | ⟨-, -, row, -, rfl⟩ | ⟨-, -, rfl⟩
  · exact Nat.zero_le _
  · exact Nat.le_refl _
  · exact Nat.le_succ _

namespace Cursor

variable {c c' c'' : Cursor} {id : Nat} {ids ids' : List Nat}

theorem lookup_filter_ne {α : Type} (l : List (Nat × α)) {j : Nat} (h : j ≠ id) :
    (l.filter (·.1 ≠ id)).lookup j = l.lookup j := by
  induction l with
  | nil => rfl
  | cons e l ih =>
    obtain ⟨k, a⟩ := e
    by_cases hk : k = id
    · subst hk
      have hne : (j == k) = false := beq_eq_false_iff_ne.2 h
      simp only [filter_cons, lookup_cons, hne]
      simpa using ih
    · simp only [filter_cons, lookup_cons]
      simp only [ne_eq, hk, not_false_eq_true, decide_true, if_true, lookup_cons, ih]

theorem lookup_setSplit (c : Cursor) (id : Nat) (r : SplitReader) (j : Nat) :
    (c.setSplit id r).splits.lookup j = if j = id then some r else c.splits.lookup j := by
  show List.lookup j ((id, r) :: c.splits.filter (·.1 ≠ id)) = _
  rw [lookup_cons]
  by_cases h : j = id
  · rw [if_pos h, beq_iff_eq.2 h]
  · rw [if_neg h, beq_eq_false_iff_ne.2 h]
    exact lookup_filter_ne _ h

theorem lookup_setSplit_self (c : Cursor) (id : Nat) (r : SplitReader) :
    (c.setSplit id r).splits.lookup id = some r := by
  rw [lookup_setSplit, if_pos rfl]

/-- The rows of a collection that no parent has taken, out of all its rows. -/
def SplitBefore (c : Cursor) (id : Nat) (all rows : List Row) : Prop :=
  match c.splits.lookup id with
  | none => rows = all
  | some r => r.Before rows

theorem splitBefore_some {all rows : List Row} (h : c.splits.lookup id = some r) :
    c.SplitBefore id all rows ↔ r.Before rows := by
  unfold SplitBefore
  rw [h]

theorem splitBefore_congr (h : c'.splits.lookup id = c.splits.lookup id) {all rows : List Row} :
    c'.SplitBefore id all rows ↔ c.SplitBefore id all rows := by
  unfold SplitBefore
  rw [h]

/-- Whether the reader of a collection has stopped: behind its last row, or on one that it has read ahead. -/
def Stopped (c : Cursor) (id : Nat) : Prop :=
  ∃ r, c.splits.lookup id = some r ∧ (r.exhausted = true ∨ r.ahead = true)

/-- Whether the reader of a collection has been opened. -/
def Opened (c : Cursor) (id : Nat) : Prop :=
  ∃ r, c.splits.lookup id = some r

theorem opened_congr (h : c'.splits.lookup id = c.splits.lookup id) : c'.Opened id ↔ c.Opened id := by
  unfold Opened
  rw [h]

theorem Opened.setSplit {j : Nat} (h : c.Opened j) (r : SplitReader) : (c.setSplit id r).Opened j := by
  by_cases heq : j = id
  · subst heq
    exact ⟨r, lookup_setSplit_self c j r⟩
  · exact (opened_congr (by rw [lookup_setSplit, if_neg heq])).2 h

/-- A step that moves no readers but those of some collections. -/
structure Moves (ids : List Nat) (c c' : Cursor) : Prop where
  reader : c'.reader = c.reader
  ahead : c'.ahead = c.ahead
  exhausted : c'.exhausted = c.exhausted
  others : ∀ id ∉ ids, c'.splits.lookup id = c.splits.lookup id
  opened : ∀ id, c.Opened id → c'.Opened id
  stopped : ∀ id, c.Stopped id → c'.Stopped id

theorem Moves.refl (ids : List Nat) (c : Cursor) : c.Moves ids c :=
  ⟨rfl, rfl, rfl, fun _ _ => rfl, fun _ h => h, fun _ h => h⟩

theorem Moves.trans (h : Moves ids c c') (h' : Moves ids c' c'') : Moves ids c c'' :=
  ⟨h'.reader.trans h.reader, h'.ahead.trans h.ahead, h'.exhausted.trans h.exhausted,
    fun id hid => (h'.others id hid).trans (h.others id hid), fun id ho => h'.opened id (h.opened id ho),
    fun id hs => h'.stopped id (h.stopped id hs)⟩

theorem Moves.mono (h : Moves ids c c') (hids : ids ⊆ ids') : Moves ids' c c' :=
  ⟨h.reader, h.ahead, h.exhausted, fun id hid => h.others id fun hmem => hid (hids hmem), h.opened, h.stopped⟩

theorem stopped_congr (h : c'.splits.lookup id = c.splits.lookup id) : c'.Stopped id ↔ c.Stopped id := by
  unfold Stopped
  rw [h]

theorem Like.moves (h : c.Like c') : c.Moves ids c' :=
  ⟨h.reader, h.ahead, h.exhausted, fun _ _ => by rw [h.splits], fun id => (opened_congr (by rw [h.splits])).2,
    fun id => (stopped_congr (by rw [h.splits])).2⟩

/-- Setting the reader of a collection that has stopped after that. -/
theorem moves_setSplit (h : r.exhausted = true ∨ r.ahead = true) : c.Moves [id] (c.setSplit id r) := by
  have hother : ∀ j, j ≠ id → (c.setSplit id r).splits.lookup j = c.splits.lookup j := fun j hj => by
    rw [lookup_setSplit, if_neg hj]
  refine ⟨rfl, rfl, rfl, fun j hj => hother j fun heq => hj (mem_singleton.2 heq), fun _ hj => hj.setSplit r,
    fun j hj => ?_⟩
  by_cases heq : j = id
  · subst heq
    exact ⟨r, lookup_setSplit_self c j r, h⟩
  · exact (stopped_congr (hother j heq)).2 hj

/-- A reader may go on in between if it has stopped in the end. -/
theorem Moves.after (h : Moves ids c c') (h' : Moves ids (c'.setSplit id r) c'') (hid : id ∈ ids)
    (hstopped : c''.Stopped id) : Moves ids c c'' := by
  have hother : ∀ j, j ≠ id → (c'.setSplit id r).splits.lookup j = c'.splits.lookup j := fun j hj => by
    rw [lookup_setSplit, if_neg hj]
  refine ⟨h'.reader.trans h.reader, h'.ahead.trans h.ahead, h'.exhausted.trans h.exhausted, fun j hj => ?_,
    fun j hj => h'.opened j ((h.opened j hj).setSplit r), fun j hj => ?_⟩
  · have hne : j ≠ id := fun heq => hj (heq ▸ hid)
    exact (h'.others j hj).trans ((hother j hne).trans (h.others j hj))
  · by_cases heq : j = id
    · exact heq ▸ hstopped
    · exact h'.stopped j ((stopped_congr (hother j heq)).2 (h.stopped j hj))

/-- The readers of a cursor make no difference to its entities. -/
theorem shapeState_setSplit (c : Cursor) (id : Nat) (r : SplitReader) (w : World) :
    (c.setSplit id r).shapeState w = c.shapeState w := rfl

theorem shapeState_congr (c : Cursor) {w w' : World} (hgraph : w'.graph = w.graph)
    (hmanagers : w'.managers = w.managers) : c.shapeState w' = c.shapeState w := by
  unfold shapeState known World.manager
  rw [hgraph, hmanagers]

end Cursor

/-! ## Opening readers -/

/-- Whether the queries of some collections give these rows in every world that is served, and leave it served. -/
structure Fetch.Supplied (f : Fetch) (ids : List Nat) (results : Nat → List Row) (Served : World → Prop) : Prop where
  calm : ∀ {w}, Served w → f.context.Calm w
  like : ∀ {w w'}, World.Like w w' → Served w → Served w'
  opens : ∀ {id}, id ∈ ids → ∃ cache, f.splits.lookup id = some cache ∧ ∀ {w}, Served w →
    ∃ reader w', (f.context.openCached f.mode cache).Runs w reader w' ∧ reader.Open ∧ reader.rest = results id ∧
      w'.graph = w.graph ∧ w'.managers = w.managers ∧ Served w'

namespace Fetch

variable {f : Fetch} {ids : List Nat} {results : Nat → List Row} {Served : World → Prop} {c : Cursor} {w : World}
  {id : Nat} {rows : List Row}

theorem splitReader_opened (f : Fetch) (h : c.splits.lookup id = some r) (w : World) :
    (f.loader.splitReader id).Runs c w r c w := by
  refine (runs_get c w).bind ?_
  rw [h]
  exact runs_pure _ _ _

/-- A reader is opened before all rows, and stays where it is after that. Once it is open no query is needed. -/
theorem splitReader_runs (hs : f.Supplied ids results Served) (hid : id ∈ ids ∨ c.Opened id) (hw : Served w)
    (h : c.SplitBefore id (results id) rows) :
    ∃ r c' w', (f.loader.splitReader id).Runs c w r c' w' ∧ c'.splits.lookup id = some r ∧ r.Before rows ∧ c.Moves [id] c' ∧
      Served w' ∧ c'.shapeState w' = c.shapeState w := by
  cases hlookup : c.splits.lookup id with
  | some r =>
    exact ⟨r, c, w, f.splitReader_opened hlookup w, hlookup, (Cursor.splitBefore_some hlookup).1 h, .refl _ _, hw, rfl⟩
  | none =>
    have hid : id ∈ ids := hid.resolve_right fun ⟨r, hr⟩ => by
      rw [hlookup] at hr
      cases hr
    obtain ⟨cache, hcache, hopens⟩ := hs.opens hid
    obtain ⟨reader, w', hopen, hreader, hrest, hgraph, hmanagers, hw'⟩ := hopens hw
    let r : SplitReader := ⟨reader, false, false⟩
    have hrows : rows = results id := by
      unfold Cursor.SplitBefore at h
      rwa [hlookup] at h
    refine ⟨r, c.setSplit id r, w', ?_, c.lookup_setSplit_self id r, ⟨hreader, .inr (.inr ⟨rfl, rfl, ?_⟩)⟩, ?_, hw', ?_⟩
    · refine (runs_get c w).bind ?_
      rw [hlookup]
      have hsplit : (f.openSplit id).Runs c w reader c w' := by
        unfold Fetch.openSplit
        rw [hcache]
        exact runs_ofAction hopen c
      exact hsplit.bind ((runs_modify _ c w').bind (runs_pure _ _ _))
    · exact hrows.trans hrest.symm
    · have hother : ∀ j, j ≠ id → (c.setSplit id r).splits.lookup j = c.splits.lookup j := fun j hj => by
        rw [Cursor.lookup_setSplit, if_neg hj]
      refine ⟨rfl, rfl, rfl, fun j hj => hother j fun heq => hj (mem_singleton.2 heq), fun _ hj => hj.setSplit r,
        fun j hj => ?_⟩
      -- A reader that was not open had not stopped.
      have hne : j ≠ id := by
        rintro rfl
        obtain ⟨r', hr', -⟩ := hj
        rw [hlookup] at hr'
        cases hr'
      exact (Cursor.stopped_congr (hother j hne)).2 hj
    · rw [Cursor.shapeState_setSplit]
      exact c.shapeState_congr hgraph hmanagers

/-- Behind the last row there is none. -/
theorem nextRow?_nil (hs : f.Supplied ids results Served) (hid : id ∈ ids ∨ c.Opened id) (hw : Served w)
    (h : c.SplitBefore id (results id) []) :
    ∃ c' w', (f.loader.nextRow? id).Runs c w none c' w' ∧ c'.SplitBefore id (results id) [] ∧ c'.Stopped id ∧
      c.Moves [id] c' ∧ Served w' ∧ c'.shapeState w' = c.shapeState w := by
  obtain ⟨r, c₁, w₁, hrun, hlookup, hbefore, hmoves, hw₁, hstate⟩ := splitReader_runs hs hid hw h
  unfold Loader.nextRow?
  rcases hbefore.rows with ⟨hexh, -⟩ | ⟨-, -, row, -, hrows⟩ | ⟨hexh, hahead, hrest⟩
  · refine ⟨c₁, w₁, hrun.bind ?_, (Cursor.splitBefore_some hlookup).2 hbefore, ⟨r, hlookup, .inl hexh⟩, hmoves, hw₁,
      hstate⟩
    rw [if_pos hexh]
    exact runs_pure _ _ _
  · cases hrows
  · obtain ⟨reader, hread, -, hopen⟩ := hbefore.reader.read_nil hrest.symm
    let r' : SplitReader := ⟨reader, false, true⟩
    refine ⟨c₁.setSplit id r', w₁, hrun.bind ?_, ?_, ⟨r', c₁.lookup_setSplit_self id r', .inl rfl⟩,
      hmoves.trans (Cursor.moves_setSplit (.inl rfl)), hw₁, hstate⟩
    · rw [if_neg (Bool.eq_false_iff.1 hexh), if_neg (Bool.eq_false_iff.1 hahead)]
      exact (runs_ofAction (Context.readRow_runs (hs.calm hw₁) f.mode hread) c₁).bind
        ((runs_modify _ c₁ w₁).bind (runs_pure _ _ _))
    · exact (Cursor.splitBefore_some (c₁.lookup_setSplit_self id r')).2 ⟨hopen, .inl ⟨rfl, rfl⟩⟩

/-- The next row is the first one that no parent has taken, whether it has been read or not. -/
theorem nextRow?_cons (hs : f.Supplied ids results Served) (hid : id ∈ ids ∨ c.Opened id) (hw : Served w) {row : Row}
    (h : c.SplitBefore id (results id) (row :: rows)) :
    ∃ reader c' w', (f.loader.nextRow? id).Runs c w (some reader) c' w' ∧ c'.splits.lookup id = some ⟨reader, true, false⟩ ∧
      reader.current = some row ∧ reader.rest = rows ∧ reader.Open ∧ c.Moves [id] c' ∧ Served w' ∧
      c'.shapeState w' = c.shapeState w := by
  obtain ⟨r, c₁, w₁, hrun, hlookup, hbefore, hmoves, hw₁, hstate⟩ := splitReader_runs hs hid hw h
  unfold Loader.nextRow?
  rcases hbefore.rows with ⟨-, hrows⟩ | ⟨hexh, hahead, row', hcur, hrows⟩ | ⟨hexh, hahead, hrest⟩
  · cases hrows
  · cases hrows
    obtain ⟨reader, ahead, exhausted⟩ := r
    cases hexh
    cases hahead
    exact ⟨reader, c₁, w₁, hrun.bind (runs_pure _ _ _), hlookup, hcur, rfl, hbefore.reader, hmoves, hw₁, hstate⟩
  · obtain ⟨reader, hread, hcur, hrest, hopen⟩ := hbefore.reader.read_cons hrest.symm
    let r' : SplitReader := ⟨reader, true, false⟩
    refine ⟨reader, c₁.setSplit id r', w₁, hrun.bind ?_, c₁.lookup_setSplit_self id r', hcur, hrest, hopen,
      hmoves.trans (Cursor.moves_setSplit (.inr rfl)), hw₁, hstate⟩
    rw [if_neg (Bool.eq_false_iff.1 hexh), if_neg (Bool.eq_false_iff.1 hahead)]
    exact (runs_ofAction (Context.readRow_runs (hs.calm hw₁) f.mode hread) c₁).bind
      ((runs_modify _ c₁ w₁).bind (runs_pure _ _ _))

theorem take_runs (f : Fetch) (h : c.splits.lookup id = some r) (w : World) :
    (f.loader.take id).Runs c w () (c.setSplit id { r with ahead := false }) w := by
  refine (runs_get c w).bind ?_
  rw [h]
  exact runs_modify _ c w

end Fetch

end QueryShaping
