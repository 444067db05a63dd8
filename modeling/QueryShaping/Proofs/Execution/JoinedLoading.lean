import Mathlib
import QueryShaping.Proofs.Execution.Values
import QueryShaping.Proofs.Shaping.Runs

/-!
# Loading from joined rows

A value takes the rows of one run: the loop consumes rows as long as they belong to the parents of the first one, and
the row it has read too far is where the next value starts. So an enumeration gives one value for each run, made of the
rows of that run alone.
-/

namespace QueryShaping

open List

/-- From its current row on, the loop takes the rows that belong to the same parents as the first row. -/
theorem Node.loadJoined_runs {f : Fetch} {n : Node} (hacyclic : n.Each CollectionNode.Acyclic) {first : Row}
    (hparents : n.parentsOn first ≠ []) :
    ∀ (rest : List Row) {before : List Row} {row : Row} {fuel : Nat} {c : Cursor} {w : World} {d : Draft},
      rest.length < fuel → f.context.Calm w → c.reader.Open → c.reader.current = some row → c.reader.rest = rest →
      c.ahead = false → c.exhausted = false → (c.shapeState w).Sound →
      d.Shows (c.shapeState w).unshared w.graph (n.tree .joined first before) →
      n.Readable .joined first (before ++ row :: rest.takeWhile (n.agrees first)) →
      (∀ r ∈ rest, ∀ p ∈ n.parentsOn first, ∀ b ∈ p, b.ReadableOn r) →
      ∃ d' c' w', (n.loadJoined f.loader fuel d).Runs c w d' c' w' ∧ w.Like w' ∧
        Loaded c w d (n.tree .joined first (before ++ row :: rest.takeWhile (n.agrees first))) d' c' w' ∧
        c'.Before (rest.dropWhile (n.agrees first)) ∧ c'.reader.Open := by
  intro rest
  induction rest with
  | nil =>
    intro before row fuel c w d hfuel hcalm hopen hcur hrest hahead hexh hsound hd hread _
    obtain ⟨fuel, rfl⟩ : ∃ k, fuel = k + 1 := ⟨fuel - 1, by simp only [length_nil] at hfuel; omega⟩
    rw [takeWhile_nil] at hread ⊢
    obtain ⟨d₁, s₁, hstep, hgrow, hshow⟩ := consume_makes hcur n hacyclic hread hsound hd
    obtain ⟨c₁, w₁, hrun, hc₁, hw₁, hgraph, hgrow₁⟩ := Pull.shape_grows hstep hgrow
    obtain ⟨r, hr, hrrest, hropen⟩ := (hc₁.reader ▸ hopen : c₁.reader.Open).read_nil (hc₁.reader ▸ hrest)
    refine ⟨d₁, { c₁ with reader := r, exhausted := true }, w₁, ?_, hw₁, ⟨hgrow₁, hgraph ▸ hshow⟩, ?_, hropen⟩
    · rw [Node.loadJoined]
      refine (Pull.runs_get c w).bind (hrun.bind ((Fetch.readRow_runs (hw₁.calm hcalm) hr).bind ?_))
      exact (Pull.runs_modify _ _ _).bind (Pull.runs_pure _ _ _)
    · rw [dropWhile_nil]
      exact ⟨hc₁.ahead.trans hahead, .inl rfl⟩
  | cons next rest ih =>
    intro before row fuel c w d hfuel hcalm hopen hcur hrest hahead hexh hsound hd hread hkeys
    obtain ⟨fuel, rfl⟩ : ∃ k, fuel = k + 1 := ⟨fuel - 1, by omega⟩
    obtain ⟨d₁, s₁, hstep, hgrow, hshow⟩ := consume_makes hcur n hacyclic hread hsound hd
    obtain ⟨c₁, w₁, hrun, hc₁, hw₁, hgraph, hgrow₁⟩ := Pull.shape_grows hstep hgrow
    obtain ⟨r, hr, hrcur, hrrest, hropen⟩ := (hc₁.reader ▸ hopen : c₁.reader.Open).read_cons (hc₁.reader ▸ hrest)
    have hshow₁ : d₁.Shows (c.shapeState w).unshared w₁.graph (n.tree .joined first (before ++ [row])) :=
      hgraph ▸ hshow
    obtain ⟨hpar, hslots⟩ := parents_of_shows n hshow₁
    have hsame := sameParents_eq hrcur hslots (hkeys next mem_cons_self)
    have hagrees : n.agrees first next =
        (n.parentsOn first).all fun p => Binding.keyOn p next = Binding.keyOn p first := by
      rw [Node.agrees, isEmpty_eq_false_iff.2 hparents]
      rfl
    rw [← hagrees, ← hpar] at hsame
    -- The loop reads the next row and compares its parents.
    have hloop : ∀ {d' : Draft} {c' : Cursor} {w' : World},
        (if n.agrees first next then n.loadJoined f.loader fuel d₁
          else do modify fun c => { c with ahead := true }; return d₁ : Pull Draft).Runs
            { c₁ with reader := r } w₁ d' c' w' →
        (n.loadJoined f.loader (fuel + 1) d).Runs c w d' c' w' := by
      intro d' c' w' h
      rw [Node.loadJoined]
      refine (Pull.runs_get c w).bind (hrun.bind ((Fetch.readRow_runs (hw₁.calm hcalm) hr).bind ?_))
      exact (Pull.runs_get _ _).bind ((Pull.runs_ofExcept hsame _ _).bind h)
    cases hnext : n.agrees first next with
    | false =>
      rw [takeWhile_cons, hnext] at hread ⊢
      rw [dropWhile_cons, hnext]
      refine ⟨d₁, { c₁ with reader := r, ahead := true }, w₁, hloop ?_, hw₁, ⟨hgrow₁, hshow₁⟩,
        .inl ⟨rfl, hc₁.exhausted.trans hexh, hrcur, hrrest⟩, hropen⟩
      rw [hnext]
      exact (Pull.runs_modify _ _ _).bind (Pull.runs_pure _ _ _)
    | true =>
      rw [takeWhile_cons, hnext] at hread ⊢
      rw [dropWhile_cons, hnext]
      have hun := hgrow₁.advances.unshared
      simp only [if_true] at hread ⊢
      rw [show before ++ row :: next :: rest.takeWhile (n.agrees first) =
        (before ++ [row]) ++ next :: rest.takeWhile (n.agrees first) by simp] at hread ⊢
      have hfuel' : rest.length < fuel := by
        simp only [length_cons] at hfuel
        omega
      obtain ⟨d', c', w', hrun', hw', hloaded, hbefore, hopen'⟩ := ih (c := { c₁ with reader := r }) (w := w₁)
        hfuel' (hw₁.calm hcalm) hropen hrcur hrrest
        (hc₁.ahead.trans hahead) (hc₁.exhausted.trans hexh) (hgrow₁.advances.sound hsound)
        (hun ▸ hshow₁) hread fun r hr => hkeys r (mem_cons_of_mem _ hr)
      refine ⟨d', c', w', hloop ?_, hw₁.trans hw', ⟨hgrow₁.trans hloaded.grows, hun ▸ hloaded.shows⟩, hbefore, hopen'⟩
      rw [hnext]
      exact hrun'

/-! ## Values from runs -/

/-- Whether all that the values of some rows need can be read: the tree of every run, and on every row the parent keys
of the collections that another row may have. -/
structure Node.ReadsRuns (n : Node) (rows : List Row) : Prop where
  values : ∀ run ∈ n.runs rows, n.Readable .joined (run.headD []) run
  parents : ∀ first ∈ rows, ∀ row ∈ rows, ∀ p ∈ n.parentsOn first, ∀ b ∈ p, b.ReadableOn row

/-- The trees of the values of some rows. -/
def Node.runTrees (n : Node) (rows : List Row) : List Tree :=
  (n.runs rows).map fun run => n.tree .joined (run.headD []) run

theorem Node.ReadsRuns.rest {n : Node} {row : Row} {rest : List Row} (h : n.ReadsRuns (row :: rest)) :
    n.ReadsRuns (rest.dropWhile (n.agrees row)) := by
  have hmem : ∀ r ∈ rest.dropWhile (n.agrees row), r ∈ row :: rest := fun r hr =>
    mem_cons_of_mem _ ((dropWhile_sublist _).subset hr)
  refine ⟨fun run hrun => h.values run ?_, fun first hfirst r hr => h.parents first (hmem first hfirst) r (hmem r hr)⟩
  rw [Node.runs]
  exact mem_cons_of_mem _ hrun

/-- A value without collections takes its row alone. -/
theorem Node.agrees_of_parentsOn_eq_nil {n : Node} {first : Row} (h : n.parentsOn first = []) (rest : List Row) :
    rest.takeWhile (n.agrees first) = [] ∧ rest.dropWhile (n.agrees first) = rest := by
  have hnot : ∀ row, n.agrees first row = false := fun row => by rw [Node.agrees, h]; rfl
  cases rest with
  | nil => exact ⟨rfl, rfl⟩
  | cons r rest => simp [hnot]

theorem Cursor.before_of_rest {c : Cursor} {rest : List Row} (hahead : c.ahead = false) (hexh : c.exhausted = false)
    (hrest : c.reader.rest = rest) : c.Before rest := by
  cases rest with
  | nil => exact ⟨hahead, .inr hrest⟩
  | cons r rest => exact .inr ⟨hahead, hexh, hrest⟩

/-- Loading a draft takes the rest of the run that its row starts. -/
theorem Program.load_joined {f : Fetch} {p : Program} (hsplit : p.hasSplit = false)
    (hacyclic : p.root.Each CollectionNode.Acyclic) {row : Row} {rest : List Row}
    (hread : p.root.ReadsRuns (row :: rest)) {c : Cursor} {w : World} {d : Draft} (hcalm : f.context.Calm w)
    (hopen : c.reader.Open) (hcur : c.reader.current = some row) (hrest : c.reader.rest = rest)
    (hahead : c.ahead = false) (hexh : c.exhausted = false) (hsound : (c.shapeState w).Sound)
    (hd : d.Shows (c.shapeState w).unshared w.graph (p.root.tree .joined row [])) :
    ∃ d' c' w', (p.load f.loader d).Runs c w d' c' w' ∧
      Loaded c w d (p.root.tree .joined row (row :: rest.takeWhile (p.root.agrees row))) d' c' w' ∧
      c'.Before (rest.dropWhile (p.root.agrees row)) ∧ c'.reader.Open ∧ f.context.Calm w' := by
  obtain ⟨-, hslots⟩ := Node.parents_of_shows p.root hd
  unfold Program.load
  by_cases hnil : p.root.parentsOn row = []
  · have hempty : d.slots.isEmpty = true := by
      rw [hnil] at hslots
      exact isEmpty_iff.2 (map_eq_nil_iff.1 hslots)
    obtain ⟨htake, hdrop⟩ := Node.agrees_of_parentsOn_eq_nil hnil rest
    rw [htake, hdrop, if_pos hempty]
    refine ⟨d, c, w, Pull.runs_pure _ _ _, ⟨.refl _ _, ?_⟩, Cursor.before_of_rest hahead hexh hrest, hopen, hcalm⟩
    rw [Node.tree_of_parentsOn_eq_nil p.root hnil] at hd
    exact hd
  · have hempty : ¬ d.slots.isEmpty = true := fun h => by
      rw [isEmpty_iff.1 h] at hslots
      exact hnil (map_eq_nil_iff.1 hslots.symm)
    rw [if_neg hempty, hsplit, if_neg Bool.false_ne_true]
    have hvalue := hread.values _ (by rw [Node.runs]; exact mem_cons_self)
    obtain ⟨d', c', w', hrun, hw, hloaded, hbefore, hopen'⟩ := Node.loadJoined_runs hacyclic hnil rest
      (show rest.length < c.reader.rest.length + 1 by rw [hrest]; omega) hcalm hopen hcur hrest hahead hexh hsound
      hd hvalue fun r hr => hread.parents row mem_cons_self r (mem_cons_of_mem _ hr)
    exact ⟨d', c', w', (Pull.runs_get c w).bind hrun, hloaded, hbefore, hopen', hw.calm hcalm⟩

/-- The next value is made of the next run. -/
theorem Program.next_joined {f : Fetch} {p : Program} (hsplit : p.hasSplit = false)
    (hacyclic : p.root.Each CollectionNode.Acyclic) {row : Row} {rest : List Row}
    (hread : p.root.ReadsRuns (row :: rest)) {c : Cursor} {w : World} (hcalm : f.context.Calm w)
    (hopen : c.reader.Open) (hbefore : c.Before (row :: rest)) (hsound : (c.shapeState w).Sound) :
    ∃ v c' w', (p.next f.loader).Runs c w (some v) c' w' ∧
      v.MadeFor (c.shapeState w).unshared w'.graph
        (p.root.tree .joined row (row :: rest.takeWhile (p.root.agrees row))) ∧
      w.graph.Extends (fun _ => (c.shapeState w).unshared = true) w'.graph ∧ (c'.shapeState w').Sound ∧
      (c'.shapeState w').unshared = (c.shapeState w).unshared ∧
      c'.Before (rest.dropWhile (p.root.agrees row)) ∧ c'.reader.Open ∧ f.context.Calm w' := by
  obtain ⟨r, hnext, hropen, hrcur, hrrest, hexh⟩ := Fetch.nextValue_row hcalm hopen hbefore
  let c₀ : Cursor := { c with reader := r, ahead := false, nextSlot := 0 }
  have hsound₀ : (c₀.shapeState w).Sound := hsound.extend (.refl (fun _ => True) _) rfl rfl
  have hvalue := hread.values _ (by rw [Node.runs]; exact mem_cons_self)
  obtain ⟨v, c', w', hrun, hmade, hext, hsound', hun, hbefore', hopen', hcalm'⟩ :=
    shapeValue_runs (c := c₀) hrcur hsound₀ hvalue (fun _ => rfl)
      (fun hc₁ hw₁ hsound₁ hd => load_joined hsplit hacyclic hread (hw₁.calm hcalm) (hc₁.reader ▸ hropen)
        (hc₁.reader ▸ hrcur) (hc₁.reader ▸ hrrest) hc₁.ahead (hc₁.exhausted.trans hexh) hsound₁ hd) fun h => h
  exact ⟨v, c', w', hnext.bind (hrun.bind (Pull.runs_pure _ _ _)), hmade, hext, hsound', hun, hbefore', hopen', hcalm'⟩

/-! ## Enumerations -/

/-- Where a cursor is when the values of some rows are still to come. -/
structure Cursor.StandsBefore (c : Cursor) (w : World) (f : Fetch) (n : Node) (unshared : Bool) (rows : List Row) :
    Prop where
  before : c.Before rows
  reader : c.reader.Open
  calm : f.context.Calm w
  sound : (c.shapeState w).Sound
  unshared_eq : (c.shapeState w).unshared = unshared
  readable : n.ReadsRuns rows

/-- A query whose collections are all joined into it, none of them inside its own elements, gives one value for each run
of rows that belong to the same parents, made of the rows of that run, and no row is lost or in two runs. -/
theorem Enumeration.yields_runs (q : CompiledQuery) (context : Context) (mode : Mode) (w w₁ : World) (reader : Reader)
    (hsplit : q.program.hasSplit = false) (hacyclic : q.program.root.Each CollectionNode.Acyclic)
    (hfree : (start q context mode).Free w)
    (hopen : (context.openCached mode q.commands).Runs ((start q context mode).enter w) reader w₁)
    (hreader : reader.Open) (hcalm : context.Calm w₁) (hknown : (w₁.manager context.manager).known.Sound w₁.graph)
    (hread : q.program.root.ReadsRuns reader.rest) :
    (q.program.root.runs reader.rest).flatten = reader.rest ∧
      (start q context mode).Yields (q.options.tracking = .none)
        (fun ts c => ∃ rows, ts = q.program.root.runTrees rows ∧ c.Before rows)
        ((q.program.root.runs reader.rest).map fun run => q.program.root.tree .joined (run.headD []) run) w := by
  refine ⟨q.program.root.flatten_runs reader.rest, ?_⟩
  obtain ⟨identity, managers, hreach, hsound, hunshared⟩ := reaches_start hopen hknown
  let f := (start q context mode).fetch
  refine @yields_of_next (start q context mode) _ _ (fun ts c w => ∃ rows, ts = q.program.root.runTrees rows ∧
    c.StandsBefore w f q.program.root (decide (q.options.tracking = .none)) rows) ?_ ?_ ?_ ?_ _ _ _ _ _ rfl rfl rfl hfree
    hreach ⟨reader.rest, rfl, Cursor.before_of_rest rfl rfl rfl, hreader, hcalm, hsound, hunshared, hread⟩
  · rintro ts c w detectors ⟨rows, hts, hbefore, hreader, hcalm, hsound, hun, hread⟩
    exact ⟨rows, hts, hbefore, hreader, hcalm, hsound, hun, hread⟩
  · rintro ts c w ⟨rows, hts, hbefore, -⟩
    exact ⟨rows, hts, hbefore⟩
  · rintro c w ⟨rows, hts, hbefore, hreader, hcalm, -, -, -⟩
    cases rows with
    | nil =>
      obtain ⟨c', hnext, hbefore', -⟩ := Fetch.nextValue_end (f := f) hcalm hreader hbefore
      exact ⟨c', hnext.bind (Pull.runs_pure _ _ _), [], hts, hbefore'⟩
    | cons row rest =>
      rw [Node.runTrees, Node.runs] at hts
      cases hts
  · rintro t ts c w ⟨rows, hts, hbefore, hreader, hcalm, hsound, hun, hread⟩
    cases rows with
    | nil =>
      rw [Node.runTrees, Node.runs] at hts
      cases hts
    | cons row rest =>
      rw [Node.runTrees, Node.runs, List.map_cons, List.cons.injEq] at hts
      obtain ⟨v, c', w', hnext, hmade, -, hsound', hun', hbefore', hreader', hcalm'⟩ :=
        Program.next_joined hsplit hacyclic hread hcalm hreader hbefore hsound
      rw [hun] at hmade
      exact ⟨v, c', w', hnext, hts.1 ▸ hmade, _, hts.2, hbefore', hreader', hcalm', hsound', hun'.trans hun, hread.rest⟩

/-- Two collections side by side, whose rows are a product. -/
def siblingCollections : Program :=
  let first : CollectionNode := ⟨0, none, "", [.field 0], [.field 1], .scalar (.field 1), none⟩
  let second : CollectionNode := ⟨1, none, "", [.field 0], [.field 2], .scalar (.field 2), none⟩
  ⟨.record [("P", .scalar (.field 0)), ("As", .collection (.here first)), ("Bs", .collection (.here second))],
    [second, first]⟩

def siblingRows : List Row :=
  [[.int32 1, .int32 10, .int32 20], [.int32 1, .int32 10, .int32 21], [.int32 1, .int32 11, .int32 20],
    [.int32 1, .int32 11, .int32 21], [.int32 2, .null, .int32 20]]

theorem acyclic_siblings : siblingCollections.root.Each CollectionNode.Acyclic := by
  simp [siblingCollections, Node.Each, Node.EachMember, CollectionPlace.Each, CollectionNode.Each,
    CollectionNode.Acyclic, Node.collectionIds]

theorem runs_siblings : siblingCollections.root.runs siblingRows = [siblingRows.take 4, siblingRows.drop 4] := by
  unfold siblingRows
  rw [Node.runs, show dropWhile _ _ = [[Value.int32 2, .null, .int32 20]] from rfl, Node.runs, dropWhile_nil,
    Node.runs]
  rfl

theorem readsRuns_siblings : siblingCollections.root.ReadsRuns siblingRows := by
  constructor
  · rw [runs_siblings]
    simp only [siblingCollections, Node.Readable, Node.ReadableMembers, CollectionPlace.Readable, CollectionNode.Readable]
    decide +kernel
  · decide +kernel

theorem Enumeration.yields_runs_siblings :
    (siblingCollections.root.runs siblingRows).map List.length = [4, 1] ∧
      (start (.prepared siblingCollections .none []) .plain .blocking).Yields true
        (fun ts c => ∃ rows, ts = siblingCollections.root.runTrees rows ∧ c.Before rows)
        ((siblingCollections.root.runs siblingRows).map fun run => siblingCollections.root.tree .joined (run.headD []) run)
        (.prepared [siblingRows]) :=
  ⟨by rw [runs_siblings]; rfl,
    (yields_runs (.prepared siblingCollections .none []) .plain .blocking (.prepared [siblingRows]) _
      (.ofRows siblingRows) rfl acyclic_siblings (fun _ => rfl) rfl ⟨rfl, rfl⟩ rfl (IdentityMap.sound_empty _)
      readsRuns_siblings).2⟩

/-- A collection in which one entity is the element of two rows. -/
def repeatedEntity : Program :=
  let c : CollectionNode := ⟨0, none, "G", [.field 0], [.field 1],
    .entity ⟨"G", [.field 2], [("V", .field 3)], [], [], false⟩, none⟩
  ⟨.record [("Gs", .collection (.here c))], [c]⟩

def repeatedRows : List Row :=
  [[.int32 1, .int32 10, .int32 100, .int32 1], [.int32 1, .int32 11, .int32 100, .int32 2]]

theorem acyclic_repeated : repeatedEntity.root.Each CollectionNode.Acyclic := by
  simp [repeatedEntity, Node.Each, Node.EachMember, EntityNode.Each, EntityNode.EachReference, CollectionPlace.EachOf,
    CollectionPlace.Each, CollectionNode.Each, CollectionNode.Acyclic, Node.collectionIds, EntityNode.collectionIds,
    EntityNode.referenceCollectionIds, CollectionPlace.allCollectionIds]

theorem runs_repeated : repeatedEntity.root.runs repeatedRows = [repeatedRows] := by
  unfold repeatedRows
  rw [Node.runs, show dropWhile _ _ = [] from rfl, Node.runs]
  rfl

theorem readsRuns_repeated : repeatedEntity.root.ReadsRuns repeatedRows := by
  constructor
  · rw [runs_repeated]
    simp only [repeatedEntity, Node.Readable, Node.ReadableMembers, CollectionPlace.Readable, CollectionNode.Readable,
      EntityNode.Readable, EntityNode.ReadableReferences, CollectionPlace.ReadableAll]
    decide +kernel
  · decide +kernel

/-- With identity resolution an element is not always made of its first row: the entity of an earlier row may stand
there. -/
theorem Enumeration.not_yields_runs_of_tracking :
    ¬ ∀ (q : CompiledQuery) (context : Context) (mode : Mode) (w w₁ : World) (reader : Reader),
      q.program.hasSplit = false → q.program.root.Each CollectionNode.Acyclic → (start q context mode).Free w →
      (context.openCached mode q.commands).Runs ((start q context mode).enter w) reader w₁ →
      reader.Open → context.Calm w₁ → (w₁.manager context.manager).known.Sound w₁.graph →
      q.program.root.ReadsRuns reader.rest →
      (start q context mode).Yields true (fun _ _ => True)
        ((q.program.root.runs reader.rest).map fun run => q.program.root.tree .joined (run.headD []) run) w := by
  intro h
  have hyields := h (.prepared repeatedEntity .trackAll []) .plain .blocking (.prepared [repeatedRows]) _
    (.ofRows repeatedRows) rfl acyclic_repeated (fun _ => rfl) rfl ⟨rfl, rfl⟩ rfl (IdentityMap.sound_empty _)
    readsRuns_repeated
  have hruns : (CompiledQuery.prepared repeatedEntity .trackAll []).program.root.runs (Reader.ofRows repeatedRows).rest =
      [repeatedRows] := runs_repeated
  rw [hruns] at hyields
  obtain ⟨v, e', w', hpull, hmade, -⟩ := hyields
  -- There is one entity only, and it has the field of the first row.
  have hactual : ((start (.prepared repeatedEntity .trackAll []) .plain .blocking).pull.run
      (.prepared [repeatedRows])).2.graph.entities.map (·.fields) = #[[("V", .int32 1)]] := by
    cbv
  rw [hpull] at hactual
  have hdescribes : (Tree.record [("Gs", .collection ⟨0, [.int 1],
      [([.int 10], .entity "G" [.int32 100] [("V", .int32 1)] [] []),
        ([.int 11], .entity "G" [.int32 100] [("V", .int32 2)] [] [])]⟩)]).Describes w'.graph 0 v := hmade.describes rfl
  obtain ⟨_, -, _, _, -, ⟨_, -, _, _, -, -, _, _, -, ⟨id, _, _, -, -, hget, -⟩, -⟩, -⟩ := hdescribes
  have hfields : (w'.graph.entities.map (·.fields))[id]? = some [("V", .int32 2)] := by
    rw [Array.getElem?_map, show w'.graph.entities[id]? = _ from hget]
    rfl
  rw [hactual] at hfields
  cases id <;> simp at hfields

end QueryShaping
