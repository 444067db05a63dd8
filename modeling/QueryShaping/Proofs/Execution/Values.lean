import QueryShaping.Proofs.Execution.Alone
import QueryShaping.Proofs.Shaping.Attaching

/-!
# Giving values

What a pull does around the loading of a value, which is the same in whatever way collections are loaded: it moves to
the row on which the value starts, decodes it, and attaches what was loaded. `Enumeration.Yields` says that an
enumeration gives one value for each of some trees and then ends.
-/

namespace QueryShaping

/-! ## Readers -/

namespace Reader

variable {r : Reader}

/-- A reader that no read fails. -/
structure Open (r : Reader) : Prop where
  closed : r.closed = false
  failure : r.failure = none

theorem Open.read_cons (h : r.Open) {row : Row} {rest : List Row} (hrest : r.rest = row :: rest) :
    ∃ r', r.read = .ok (true, r') ∧ r'.current = some row ∧ r'.rest = rest ∧ r'.Open := by
  refine ⟨{ r with rest := rest, current := some row, reads := r.reads + 1 }, ?_, rfl, rfl, ⟨h.closed, h.failure⟩⟩
  rw [Reader.read, h.closed, h.failure, hrest]
  rfl

theorem Open.read_nil (h : r.Open) (hrest : r.rest = []) :
    ∃ r', r.read = .ok (false, r') ∧ r'.rest = [] ∧ r'.Open := by
  refine ⟨{ r with current := none, reads := r.reads + 1 }, ?_, hrest, ⟨h.closed, h.failure⟩⟩
  rw [Reader.read, h.closed, h.failure, hrest]
  rfl

end Reader

/-- A cursor before so many rows, of which it may have read the first one ahead. -/
def Cursor.Before (c : Cursor) : List Row → Prop
  | [] => c.ahead = false ∧ (c.exhausted = true ∨ c.reader.rest = [])
  | row :: rest =>
    c.ahead = true ∧ c.exhausted = false ∧ c.reader.current = some row ∧ c.reader.rest = rest ∨
      c.ahead = false ∧ c.exhausted = false ∧ c.reader.rest = row :: rest

theorem Fetch.readRow_runs {f : Fetch} {c : Cursor} {w : World} {found : Bool} {r : Reader} (h : f.context.Calm w)
    (hr : c.reader.read = .ok (found, r)) : f.loader.readRow.Runs c w found { c with reader := r } w :=
  (Pull.runs_get c w).bind ((Pull.runs_ofAction (Context.readRow_runs h f.mode hr) c).bind
    ((Pull.runs_modify _ c w).bind (Pull.runs_pure _ _ w)))

/-! ## The row on which a value starts -/

namespace Fetch

variable {f : Fetch} {c : Cursor} {w : World}

/-- Nothing starts where no row is left. -/
theorem nextValue_end (hcalm : f.context.Calm w) (hopen : c.reader.Open) (h : c.Before []) :
    ∃ c', f.loader.nextValue.Runs c w false c' w ∧ c'.Before [] ∧ c'.splits = c.splits := by
  obtain ⟨hahead, hend⟩ := h
  let c₁ : Cursor := { c with ahead := false, nextSlot := 0 }
  unfold Loader.nextValue
  by_cases hexh : c.exhausted = true
  · refine ⟨c₁, (Pull.runs_get c w).bind ((Pull.runs_set c₁ c w).bind ?_), ⟨rfl, .inl hexh⟩, rfl⟩
    rw [if_neg (Bool.eq_false_iff.1 hahead), if_pos hexh]
    exact Pull.runs_pure _ _ _
  · obtain ⟨r, hr, hrest, -⟩ := hopen.read_nil (hend.resolve_left hexh)
    refine ⟨{ c₁ with reader := r }, (Pull.runs_get c w).bind ((Pull.runs_set c₁ c w).bind ?_), ⟨rfl, .inr hrest⟩, rfl⟩
    rw [if_neg (Bool.eq_false_iff.1 hahead), if_neg hexh]
    exact Fetch.readRow_runs hcalm hr

/-- The next value starts on the first row that is left, whether it has been read or not. -/
theorem nextValue_row (hcalm : f.context.Calm w) (hopen : c.reader.Open) {row : Row} {rest : List Row}
    (h : c.Before (row :: rest)) :
    ∃ r, f.loader.nextValue.Runs c w true { c with reader := r, ahead := false, nextSlot := 0 } w ∧ r.Open ∧
      r.current = some row ∧ r.rest = rest ∧ c.exhausted = false := by
  unfold Loader.nextValue
  rcases h with ⟨hahead, hexh, hcur, hrest⟩ | ⟨hahead, hexh, hrest⟩
  · refine ⟨c.reader, (Pull.runs_get c w).bind ((Pull.runs_set _ c w).bind ?_), hopen, hcur, hrest, hexh⟩
    rw [if_pos hahead]
    exact Pull.runs_pure _ _ _
  · obtain ⟨r, hr, hcur, hrest, hopen⟩ := hopen.read_cons hrest
    refine ⟨r, (Pull.runs_get c w).bind ((Pull.runs_set _ c w).bind ?_), hopen, hcur, hrest, hexh⟩
    rw [if_neg (Bool.eq_false_iff.1 hahead), if_neg (Bool.eq_false_iff.1 hexh)]
    exact Fetch.readRow_runs hcalm hr

end Fetch

/-! ## A value -/

/-- Whether a value has just been made for a tree: it is the result of a draft that shows the tree and whose collections
have been attached. Without identity resolution the tree describes it. -/
structure Result.MadeFor (unshared : Bool) (g : Graph) (v : Result) (t : Tree) : Prop where
  draft : ∃ (d : Draft) (g₀ : Graph), v = d.result ∧ g = g₀.attach d ∧ d.Shows unshared g₀ t
  describes : unshared = true → t.Describes g 0 v

/-- What a draft was given is all that attaching it changes. -/
theorem ShapeState.Grows.extends_attach {s s' : ShapeState} {d : Draft} {t : Tree} (h : s.Grows s' [] d.ids)
    (hd : d.Shows s.unshared s'.graph t) : s.graph.Extends (fun _ => s.unshared = true) (s'.graph.attach d) := by
  have hattach : s'.graph.Extends (fun j => s.unshared = true ∧ j < s.graph.size) (s'.graph.attach d) := by
    refine Graph.extends_attachAll (fun a ha hkeep => ?_) _
    obtain ⟨new, hperm, hnew⟩ := h.adds hkeep.1
    have hmem := hperm.mem_iff.1 (Draft.Shows.owner_mem d hd a ((List.mergeSort_perm _ _).mem_iff.1 ha))
    exact Nat.lt_irrefl _ (Nat.lt_of_lt_of_le hkeep.2 (hnew.range _ hmem).1)
  exact ((h.advances.graph.mono fun j _ hj => hj.1).trans hattach).mono fun j hj hu => ⟨hu, hj⟩

/-- A value is made for the tree that its draft shows after loading. `Kept` is what loading says about the cursor and
the world. -/
theorem Program.shapeValue_runs {f : Fetch} {p : Program} {c : Cursor} {w : World} {row : Row}
    {choice choice₀ : RowChoice} {rows rows₀ : List Row} {t : Tree} {Kept : Cursor → World → Prop}
    (hcur : c.reader.current = some row) (hsound : (c.shapeState w).Sound)
    (hread : p.root.Readable choice row rows) (hnone : ∀ n, choice₀ n row rows₀ = [])
    (hload : ∀ {c₁ : Cursor} {w₁ : World} {d : Draft}, c.Like c₁ → w.Like w₁ → (c₁.shapeState w₁).Sound →
      d.Shows (c₁.shapeState w₁).unshared w₁.graph (p.root.tree choice₀ row rows₀) →
      ∃ d' c' w', (p.load f.loader d).Runs c₁ w₁ d' c' w' ∧ Loaded c₁ w₁ d t d' c' w' ∧ Kept c' w')
    (hkept : ∀ {c' : Cursor} {w' : World} {g : Graph}, Kept c' w' → Kept c' { w' with graph := g }) :
    ∃ v c' w', (p.shapeValue f.loader).Runs c w v c' w' ∧ v.MadeFor (c.shapeState w).unshared w'.graph t ∧
      w.graph.Extends (fun _ => (c.shapeState w).unshared = true) w'.graph ∧ (c'.shapeState w').Sound ∧
      (c'.shapeState w').unshared = (c.shapeState w).unshared ∧ Kept c' w' := by
  obtain ⟨d, s₁, hstep, hmade⟩ := Node.decode_makes hcur hnone p.root hread hsound
  have hnew : (c.shapeState w).Grows s₁ [] d.ids :=
    ⟨hmade.advances, fun hu => ⟨d.ids, List.Perm.refl _, hmade.new hu⟩⟩
  obtain ⟨c₁, w₁, hrun₁, hc₁, hw₁, hgraph₁, hgrow₁⟩ := Pull.shape_grows hstep hnew
  have hun₁ := hgrow₁.advances.unshared
  obtain ⟨d', c', w', hrun, hloaded, hkeep⟩ := hload hc₁ hw₁ (hgrow₁.advances.sound hsound)
    (by rw [hun₁, hgraph₁]; exact hmade.shows)
  have hgrow := hgrow₁.trans hloaded.grows
  have hshows : d'.Shows (c.shapeState w).unshared w'.graph t := hun₁ ▸ hloaded.shows
  refine ⟨d'.result, c', { w' with graph := w'.graph.attach d' }, ?_, ⟨⟨d', w'.graph, rfl, rfl, hshows⟩, fun hu => ?_⟩,
    hgrow.extends_attach hshows, ?_, hgrow.advances.unshared, hkept hkeep⟩
  · exact (Pull.runs_get c w).bind (hrun₁.bind (hrun.bind
      ((Pull.runs_modifyWorld _ c' w').bind (Pull.runs_pure _ _ _))))
  · obtain ⟨new, hperm, hnewIds⟩ := hgrow.adds hu
    rw [hu] at hshows
    exact hshows.describes_attach (hperm.nodup_iff.2 hnewIds.nodup)
  · have hext : w'.graph.Extends (fun _ => False) (w'.graph.attach d') :=
      Graph.extends_attachAll (fun _ _ h => h) _
    exact (hgrow.advances.sound hsound).extend hext rfl rfl

/-! ## Pulls -/

/-- Appends rows to tables one by one. A row that does not fit its table changes nothing. -/
def Store.insertEach (s : Store) (rows : List (String × Row)) : Store :=
  rows.foldl (fun s r => (s.insertAll r.1 [r.2]).1) s

/-- The world after rows have been appended to the tables of its store. -/
def World.insertEach (w : World) (rows : List (String × Row)) : World :=
  { w with store := w.store.insertEach rows }

namespace Enumeration

variable {e : Enumeration} {w : World}

/-- Whether nobody uses the context of an enumeration that asks for that. -/
def Free (e : Enumeration) (w : World) : Prop :=
  e.query.options.detectConcurrentAccess = true → (w.detector e.context.detector).inUse = false

/-- The world while a pull is going on. -/
def enter (e : Enumeration) (w : World) : World :=
  if e.query.options.detectConcurrentAccess then w.setDetector e.context.detector ⟨true⟩ else w

theorem enter_eq (e : Enumeration) (w : World) : ∃ detectors, e.enter w = { w with detectors := detectors } := by
  unfold enter
  split
  · exact ⟨_, rfl⟩
  · exact ⟨w.detectors, rfl⟩

/-- Around a pull only the detector changes, and it is idle in the end. -/
theorem guarded_run (hfree : e.Free w) {r : Except Error (Option Result) × Enumeration} {w' : World}
    (h : (e.produce .plain).run (e.enter w) = (r, w')) :
    ∃ detectors, (e.guarded .plain).run w = (r, { w' with detectors := detectors }) ∧
      (e.query.options.detectConcurrentAccess = true →
        (({ w' with detectors := detectors } : World).detector e.context.detector).inUse = false) := by
  unfold guarded
  unfold enter at h
  by_cases hdetect : e.query.options.detectConcurrentAccess = true
  · rw [if_pos hdetect] at h ⊢
    have henter : (w.detector e.context.detector).enter = .ok ⟨true⟩ := by
      rw [Detector.enter, hfree hdetect]
      rfl
    refine ⟨(w'.setDetector e.context.detector .idle).detectors, ?_, fun _ => ?_⟩
    · have hget : (Puller.plain.step Proc.get).run w = (w, w) := rfl
      rw [Proc.run_bind, hget]
      simp only [henter]
      rw [Proc.run_bind]
      show Proc.run (e.produce .plain >>= _) (w.setDetector e.context.detector ⟨true⟩) = _
      rw [Proc.run_bind, h]
      rfl
    · simp only [World.detector, World.setDetector, Array.getElem?_setIfInBounds, if_true]
      split <;> rfl
  · rw [if_neg hdetect] at h ⊢
    exact ⟨w'.detectors, h, fun h => absurd h hdetect⟩

/-- The cursor with which an enumeration goes on: its own, or one that is opened. -/
def Reaches (e : Enumeration) (w : World) (c : Cursor) (w₁ : World) : Prop :=
  e.phase = .active ∧ e.cursor = some c ∧ w = w₁ ∨
    e.phase = .created ∧ e.cursor = none ∧ e.openCursor.Runs w c w₁

theorem produce_run {c c' : Cursor} {w₁ w' : World} {v : Option Result} (hreach : e.Reaches w c w₁)
    (hnext : (e.query.program.next e.fetch.loader).Runs c w₁ v c' w') :
    (e.produce .plain).run w = ((.ok v, { e with phase := .active, cursor := some c' }), w') := by
  have hadvance : ∀ e' : Enumeration, e'.query = e.query → e'.context = e.context → e'.mode = e.mode →
      (e'.advance .plain c).run w₁ = ((.ok v, { e' with cursor := some c' }), w') := by
    intro e' hquery hcontext hmode
    have hfetch : e'.fetch = e.fetch := by
      rw [fetch, fetch, hquery, hcontext, hmode]
    have hplain : (Puller.plain.next e' c).run w₁ = ((.ok v, c'), w') := by
      show ((e'.query.program.next e'.fetch.loader).run.run c).run w₁ = _
      rw [hquery, hfetch]
      exact hnext
    unfold advance
    rw [Proc.run_bind, hplain]
    rfl
  unfold produce
  rcases hreach with ⟨hphase, hcursor, rfl⟩ | ⟨hphase, hcursor, hopen⟩
  · rw [hcursor]
    show (e.advance .plain c).run w = _
    rw [hadvance e rfl rfl rfl, ← hphase]
  · rw [hcursor]
    show Proc.run (e.openCursor.run >>= _) w = _
    unfold Action.Runs at hopen
    rw [Proc.run_bind, hopen]
    exact hadvance { e with phase := .active } rfl rfl rfl

/-- A pull gives what the cursor gives. -/
theorem pull_run {c c' : Cursor} {w₁ w' : World} {v : Option Result} (hfree : e.Free w)
    (hreach : e.Reaches (e.enter w) c w₁) (hnext : (e.query.program.next e.fetch.loader).Runs c w₁ v c' w') :
    ∃ detectors, e.pull.run w = ((.ok v, { e with
        phase := if v.isSome then .active else .exhausted
        cursor := some c' }), { w' with detectors := detectors }) ∧
      e.Free { w' with detectors := detectors } := by
  obtain ⟨detectors, hguarded, hidle⟩ := guarded_run hfree (produce_run hreach hnext)
  refine ⟨detectors, ?_, hidle⟩
  have hphase : e.phase = .active ∨ e.phase = .created := hreach.imp And.left And.left
  have hpull : e.pull.run w = Proc.run (e.guarded .plain >>= settle .plain) w := by
    unfold pull pullBy
    rcases hphase with hphase | hphase <;> rw [hphase]
  rw [hpull, Proc.run_bind, hguarded]
  cases v <;> rfl

/-- An enumeration starts with the reader that its query opens. Without identity resolution it shares nothing. -/
theorem reaches_start {q : CompiledQuery} {context : Context} {mode : Mode} {w₁ : World} {reader : Reader}
    (hopen : (context.openCached mode q.commands).Runs w reader w₁)
    (hknown : (w₁.manager context.manager).known.Sound w₁.graph) :
    ∃ identity managers, (start q context mode).Reaches w (.start reader identity) { w₁ with managers := managers } ∧
      ((Cursor.start reader identity).shapeState { w₁ with managers := managers }).Sound ∧
      ((Cursor.start reader identity).shapeState { w₁ with managers := managers }).unshared =
        decide (q.options.tracking = .none) := by
  have hreach : ∀ {identity : IdentityScope} {w₂ : World},
      w₁.openScope q.options.tracking context.manager = (identity, w₂) →
      (start q context mode).Reaches w (.start reader identity) w₂ := by
    intro identity w₂ hscope
    have hperform := Action.runs_perform (fun w => w.openScope q.options.tracking context.manager) w₁
    rw [hscope] at hperform
    exact .inr ⟨rfl, rfl, hopen.bind (hperform.bind (Action.runs_pure _ _))⟩
  cases htracking : q.options.tracking with
  | none =>
    rw [htracking] at hreach
    exact ⟨_, w₁.managers, hreach rfl, (fun m hm => nomatch hm), rfl⟩
  | identityResolution =>
    rw [htracking] at hreach
    refine ⟨_, w₁.managers, hreach rfl, fun m hm => ?_, rfl⟩
    cases hm
    intro entityType key id hfind
    cases hfind
  | trackAll =>
    rw [htracking] at hreach
    refine ⟨_, (w₁.setManager context.manager (w₁.manager context.manager).started).managers, hreach rfl,
      fun m hm => ?_, rfl⟩
    cases hm
    show IdentityMap.Sound _ w₁.graph
    by_cases hplace : context.manager < w₁.managers.size
    · simpa [World.manager, World.setManager, hplace, StateManager.started] using hknown
    · intro entityType key id hfind
      simp [World.manager, World.setManager, hplace, StateManager.empty, IdentityMap.empty, IdentityMap.find?] at hfind

/-- An enumeration that gives one value for each tree, in order, and nothing any more after that. `After` is where its
cursor is when some trees are still to come. -/
def Yields (unshared : Bool) (After : List Tree → Cursor → Prop) : List Tree → Enumeration → World → Prop
  | [], e, w => ∃ e' w', e.pull.run w = ((.ok none, e'), w') ∧ (∀ w, e'.pull.run w = ((.ok none, e'), w)) ∧
      ∃ c, e'.cursor = some c ∧ After [] c
  | t :: ts, e, w => ∃ v e' w', e.pull.run w = ((.ok (some v), e'), w') ∧ v.MadeFor unshared w'.graph t ∧
      (∃ c, e'.cursor = some c ∧ After ts c) ∧ Yields unshared After ts e' w'

/-- An enumeration that gives one value for each tree, in order, and nothing any more after that, when rows are inserted
before each pull. `After` is where its cursor is when some trees are still to come. -/
def YieldsAmid (unshared : Bool) (inserts : Nat → List (String × Row)) (After : List Tree → Cursor → Prop) :
    (turn : Nat) → List Tree → Enumeration → World → Prop
  | turn, [], e, w => ∃ e' w', e.pull.run (w.insertEach (inserts turn)) = ((.ok none, e'), w') ∧
      (∀ w, e'.pull.run w = ((.ok none, e'), w)) ∧ ∃ c, e'.cursor = some c ∧ After [] c
  | turn, t :: ts, e, w => ∃ v e' w', e.pull.run (w.insertEach (inserts turn)) = ((.ok (some v), e'), w') ∧
      v.MadeFor unshared w'.graph t ∧ (∃ c, e'.cursor = some c ∧ After ts c) ∧
      YieldsAmid unshared inserts After (turn + 1) ts e' w'

/-- What a cursor gives value by value, an enumeration gives. `Stands` is what holds of the cursor and the world when the
rows of a turn have been inserted and some trees are still to come. -/
theorem yieldsAmid_of_next {unshared : Bool} {inserts : Nat → List (String × Row)}
    {After : List Tree → Cursor → Prop} {Stands : Nat → List Tree → Cursor → World → Prop}
    (hlike : ∀ {turn : Nat} {ts : List Tree} {c : Cursor} {w : World} (detectors : Array Detector),
      Stands turn ts c w → Stands turn ts c { w with detectors := detectors })
    (hafter : ∀ {turn : Nat} {ts : List Tree} {c : Cursor} {w : World}, Stands turn ts c w → After ts c)
    (hend : ∀ {turn : Nat} {c : Cursor} {w : World}, Stands turn [] c w →
      ∃ c', (e.query.program.next e.fetch.loader).Runs c w none c' w ∧ After [] c')
    (hvalue : ∀ {turn : Nat} {t : Tree} {ts : List Tree} {c : Cursor} {w : World}, Stands turn (t :: ts) c w →
      ∃ v c' w', (e.query.program.next e.fetch.loader).Runs c w (some v) c' w' ∧ v.MadeFor unshared w'.graph t ∧
        Stands (turn + 1) ts c' (w'.insertEach (inserts (turn + 1)))) :
    ∀ (ts : List Tree) {turn : Nat} {e' : Enumeration} {w w₁ : World} {c : Cursor}, e'.query = e.query →
      e'.context = e.context → e'.mode = e.mode → e'.Free w →
      e'.Reaches (e'.enter (w.insertEach (inserts turn))) c w₁ → Stands turn ts c w₁ →
      YieldsAmid unshared inserts After turn ts e' w := by
  intro ts
  induction ts with
  | nil =>
    intro turn e' w w₁ c hquery hcontext hmode hfree hreach hstands
    have hfetch : e'.fetch = e.fetch := by
      rw [fetch, fetch, hquery, hcontext, hmode]
    obtain ⟨c', hnext, hc'⟩ := hend hstands
    rw [← hquery, ← hfetch] at hnext
    obtain ⟨detectors, hpull, -⟩ := pull_run (w := w.insertEach (inserts turn)) hfree hreach hnext
    exact ⟨_, _, hpull, fun w => rfl, c', rfl, hc'⟩
  | cons t ts ih =>
    intro turn e' w w₁ c hquery hcontext hmode hfree hreach hstands
    have hfetch : e'.fetch = e.fetch := by
      rw [fetch, fetch, hquery, hcontext, hmode]
    obtain ⟨v, c', w', hnext, hmade, hstands'⟩ := hvalue hstands
    rw [← hquery, ← hfetch] at hnext
    obtain ⟨detectors, hpull, hfree'⟩ := pull_run (w := w.insertEach (inserts turn)) hfree hreach hnext
    refine ⟨v, _, _, hpull, hmade, ⟨c', rfl, hafter hstands'⟩,
      ih hquery hcontext hmode hfree' (.inl ⟨rfl, rfl, rfl⟩) ?_⟩
    obtain ⟨detectors', henter⟩ := enter_eq { e' with phase := .active, cursor := some c' }
      (World.insertEach { w' with detectors := detectors } (inserts (turn + 1)))
    exact henter ▸ hlike detectors' (hlike detectors hstands')

theorem YieldsAmid.yields {unshared : Bool} {After : List Tree → Cursor → Prop} : ∀ (ts : List Tree) {turn : Nat}
    {e : Enumeration} {w : World}, YieldsAmid unshared (fun _ => []) After turn ts e w → Yields unshared After ts e w
  | [], _, _, _, h => h
  | _ :: ts, _, _, _, ⟨v, e', w', hpull, hmade, hcursor, h⟩ => ⟨v, e', w', hpull, hmade, hcursor, yields ts h⟩

theorem yields_of_next {unshared : Bool} {After : List Tree → Cursor → Prop}
    {Stands : List Tree → Cursor → World → Prop}
    (hlike : ∀ {ts : List Tree} {c : Cursor} {w : World} (detectors : Array Detector), Stands ts c w →
      Stands ts c { w with detectors := detectors })
    (hafter : ∀ {ts : List Tree} {c : Cursor} {w : World}, Stands ts c w → After ts c)
    (hend : ∀ {c : Cursor} {w : World}, Stands [] c w →
      ∃ c', (e.query.program.next e.fetch.loader).Runs c w none c' w ∧ After [] c')
    (hvalue : ∀ {t : Tree} {ts : List Tree} {c : Cursor} {w : World}, Stands (t :: ts) c w →
      ∃ v c' w', (e.query.program.next e.fetch.loader).Runs c w (some v) c' w' ∧ v.MadeFor unshared w'.graph t ∧
        Stands ts c' w') :
    ∀ (ts : List Tree) {e' : Enumeration} {w w₁ : World} {c : Cursor}, e'.query = e.query → e'.context = e.context →
      e'.mode = e.mode → e'.Free w → e'.Reaches (e'.enter w) c w₁ → Stands ts c w₁ →
      Yields unshared After ts e' w :=
  fun ts _ _ _ _ hquery hcontext hmode hfree hreach hstands => YieldsAmid.yields ts <|
    @yieldsAmid_of_next e unshared _ After (fun _ => Stands) hlike hafter hend hvalue ts 0 _ _ _ _ hquery hcontext hmode
      hfree hreach hstands

end Enumeration

/-! ## Prepared answers -/

/-- A field that may hold anything. -/
def Binding.field (ordinal : Nat) : Binding := ⟨ordinal, "", none, none, true⟩

/-- A query whose answers are prepared, so that its selects do not matter. -/
def CompiledQuery.prepared (program : Program) (tracking : Tracking) (splits : List (Nat × Nat)) : CompiledQuery :=
  ⟨⟨.empty, .record []⟩, { tracking }, program, 0, splits⟩

/-- A world in which each execution has a prepared answer. -/
def World.prepared (answers : List (List Row)) : World :=
  { World.start { Store.empty with script := some ⟨answers.map fun rows => ⟨rows, none, none⟩, none⟩ } none with
    managers := #[.empty]
    detectors := #[.idle]
    commands := (answers.map fun _ => CommandCache.empty .empty).toArray }

/-- A context that nothing cancels. -/
def Context.plain : Context := ⟨"", 0, 0, .once, .empty, none⟩

theorem IdentityMap.sound_empty (g : Graph) : IdentityMap.empty.Sound g :=
  fun _ _ _ h => nomatch h

end QueryShaping
