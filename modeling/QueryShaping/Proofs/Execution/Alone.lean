import QueryShaping.Execution.Enumeration
import QueryShaping.Proofs.Shaping.Consuming

/-!
# Running alone

What the steps of a cursor do when nobody else changes the world. Waiting then has no effect, so a context that has not
been cancelled reads its rows as if there were no waits, and a step of shaping changes the entities and what is known
about them, and nothing else.
-/

namespace QueryShaping

/-! ## Computations that wait -/

theorem Progress.finish_bind {σ α β : Type} (p : Progress σ α) (f : α → σ → Progress σ β) :
    (p.bind f).finish = (f p.finish.1 p.finish.2).finish := by
  induction p with
  | done a s => rfl
  | wait w s resume ih => exact ih s

theorem Proc.run_bind {σ α β : Type} (x : Proc σ α) (f : α → Proc σ β) (s : σ) :
    (x >>= f).run s = (f (x.run s).1).run (x.run s).2 :=
  Progress.finish_bind (x s) f

/-! ## Actions -/

namespace Action

variable {α β : Type} {w w' : World}

/-- An action that gives a value and leaves a world behind. -/
def Runs (x : Action α) (w : World) (a : α) (w' : World) : Prop :=
  Proc.run x.run w = (.ok a, w')

theorem Runs.bind {x : Action α} {f : α → Action β} {a : α} {b : β} {w'' : World} (h : Runs x w a w')
    (h' : Runs (f a) w' b w'') : Runs (x >>= f) w b w'' := by
  have hrun : Proc.run (x >>= f).run w = Proc.run (ExceptT.bindCont f (Proc.run x.run w).1) (Proc.run x.run w).2 :=
    Proc.run_bind x.run (ExceptT.bindCont f) w
  unfold Runs at h h' ⊢
  rw [hrun, h]
  exact h'

theorem runs_pure (a : α) (w : World) : Runs (pure a) w a w := rfl

theorem runs_perform (f : World → α × World) (w : World) : Runs (Action.perform f) w (f w).1 (f w).2 := rfl

theorem runs_world (w : World) : Runs Action.world w w w := rfl

theorem runs_ofExcept {x : Except Error α} {a : α} (h : x = .ok a) (w : World) : Runs (Action.ofExcept x) w a w := by
  rw [h]
  rfl

end Action

namespace Context

variable {c : Context} {w : World}

/-- Whether the context has not been cancelled. -/
def Calm (c : Context) (w : World) : Prop := c.isCancelled w = false

theorem check_runs (h : c.Calm w) : c.check.Runs w () w := by
  refine (Action.runs_world w).bind ?_
  rw [h]
  rfl

theorem sleep_runs (h : c.Calm w) (millis : Nat) : (c.sleep millis).Runs w () w :=
  Action.Runs.bind (x := ExceptT.lift (Proc.pause millis c.isCancelled)) (a := ()) rfl (check_runs h)

theorem beginIn_runs (h : c.Calm w) (mode : Mode) : (c.beginIn mode).Runs w () w := by
  refine (check_runs h).bind ?_
  cases mode with
  | blocking => exact Action.runs_pure () w
  | asynchronous => exact Action.Runs.bind (x := ExceptT.lift Proc.yield) (a := ()) rfl (check_runs h)

theorem awaitStore_runs (h : c.Calm w) (mode : Mode) : (c.awaitStore mode).Runs w () w := by
  refine (Action.runs_world w).bind ?_
  cases w.delay with
  | none => exact Action.runs_pure () w
  | some millis =>
    cases mode with
    | blocking => exact Action.runs_pure () w
    | asynchronous => exact sleep_runs h millis

/-- Reading a row needs no more than a reader that can be read. -/
theorem readRow_runs (h : c.Calm w) (mode : Mode) {r : Reader} {found : Bool × Reader} (hr : r.read = .ok found) :
    (c.readRow mode r).Runs w found w :=
  (beginIn_runs h mode).bind ((awaitStore_runs h mode).bind (Action.runs_ofExcept hr w))

end Context

/-! ## Steps of a cursor -/

namespace Pull

variable {α β : Type} {c c' : Cursor} {w w' : World}

/-- A step of a cursor that gives a value and leaves a cursor and a world behind. -/
def Runs (x : Pull α) (c : Cursor) (w : World) (a : α) (c' : Cursor) (w' : World) : Prop :=
  Proc.run (x.run.run c) w = ((.ok a, c'), w')

theorem Runs.bind {x : Pull α} {f : α → Pull β} {a : α} {b : β} {c'' : Cursor} {w'' : World}
    (h : Runs x c w a c' w') (h' : Runs (f a) c' w' b c'' w'') : Runs (x >>= f) c w b c'' w'' := by
  have hrun : Proc.run ((x >>= f).run.run c) w =
      Proc.run ((ExceptT.bindCont f (Proc.run (x.run.run c) w).1.1).run (Proc.run (x.run.run c) w).1.2)
        (Proc.run (x.run.run c) w).2 :=
    Proc.run_bind (x.run c) _ w
  unfold Runs at h h' ⊢
  rw [hrun, h]
  exact h'

theorem runs_pure (a : α) (c : Cursor) (w : World) : Runs (pure a) c w a c w := rfl

theorem runs_get (c : Cursor) (w : World) : Runs get c w c c w := rfl

theorem runs_set (c' c : Cursor) (w : World) : Runs (set c') c w () c' w := rfl

theorem runs_modify (f : Cursor → Cursor) (c : Cursor) (w : World) : Runs (modify f) c w () (f c) w := rfl

theorem runs_modifyWorld (f : World → World) (c : Cursor) (w : World) : Runs (modifyWorld f) c w () c (f w) := rfl

theorem runs_ofExcept {x : Except Error α} {a : α} (h : x = .ok a) (c : Cursor) (w : World) :
    Runs (Pull.ofExcept x) c w a c w := by
  rw [h]
  rfl

theorem runs_ofAction {x : Action α} {a : α} (h : x.Runs w a w') (c : Cursor) :
    Runs (Pull.ofAction x) c w a c w' := by
  have hrun : Proc.run ((Pull.ofAction x).run.run c) w = (((Proc.run x.run w).1, c), (Proc.run x.run w).2) :=
    Proc.run_bind x.run _ w
  unfold Runs
  unfold Action.Runs at h
  rw [hrun, h]

end Pull

/-! ## Steps of shaping -/

/-- What a step of shaping starts from. -/
def Cursor.shapeState (c : Cursor) (w : World) : ShapeState :=
  ⟨w.graph, c.known w, c.nextSlot⟩

/-- Worlds that differ in nothing but their entities, what managers know and what detectors have seen. -/
def World.Like (w w' : World) : Prop :=
  w' = { w with graph := w'.graph, managers := w'.managers, detectors := w'.detectors }

namespace World.Like

variable {w w' w'' : World}

theorem trans (h : w.Like w') (h' : w'.Like w'') : w.Like w'' := by
  unfold World.Like at *
  rw [h', h]

theorem calm (h : w.Like w') {c : Context} (hc : c.Calm w) : c.Calm w' := by
  unfold World.Like at h
  rw [h]
  exact hc

end World.Like

/-- Cursors that stand at the same rows. -/
structure Cursor.Like (c c' : Cursor) : Prop where
  reader : c'.reader = c.reader
  splits : c'.splits = c.splits
  ahead : c'.ahead = c.ahead
  exhausted : c'.exhausted = c.exhausted

theorem Cursor.Like.refl (c : Cursor) : c.Like c := ⟨rfl, rfl, rfl, rfl⟩

/-- A step of shaping by a cursor does to its entities what it does alone. -/
theorem Pull.runs_shape {α : Type} {x : Shaping α} {c : Cursor} {w : World} {a : α} {s' : ShapeState}
    (h : Shaping.Steps x (c.shapeState w) a s') (hun : s'.unshared = (c.shapeState w).unshared) :
    ∃ c' w', Pull.Runs (Pull.shape x) c w a c' w' ∧ c.Like c' ∧ w.Like w' ∧ (c'.shapeState w').graph = s'.graph ∧
      (c'.shapeState w').nextSlot = s'.nextSlot ∧ (c'.shapeState w').unshared = s'.unshared ∧
      (s'.Sound → (c'.shapeState w').Sound) := by
  have hrun : Proc.run ((Pull.shape x).run.run c) w =
      ((.ok a, (Cursor.keepKnown { c with nextSlot := s'.nextSlot } { w with graph := s'.graph } s'.known).1),
        (Cursor.keepKnown { c with nextSlot := s'.nextSlot } { w with graph := s'.graph } s'.known).2) := by
    have hshape : Proc.run ((Pull.shape x).run.run c) w = c.shape w x := rfl
    have h : x.run.run ⟨w.graph, c.known w, c.nextSlot⟩ = (.ok a, s') := h
    rw [hshape, Cursor.shape]
    simp only [h]
  obtain ⟨reader, splits, identity, ahead, exhausted, nextSlot⟩ := c
  have hshared : ∀ m₀, s'.unshared = (ShapeState.mk w.graph (some m₀) nextSlot).unshared → ∃ m, s'.known = some m :=
    fun m₀ hun => Option.isSome_iff_exists.1 (by simpa [ShapeState.unshared, Option.isNone_iff_eq_none,
      Option.isSome_iff_ne_none] using hun)
  cases identity with
  | nowhere =>
    have hknown : s'.known = none := Option.isNone_iff_eq_none.1 hun
    rw [hknown] at hrun
    exact ⟨_, _, hrun, ⟨rfl, rfl, rfl, rfl⟩, rfl, rfl, rfl, hun.symm, fun _ m hm => by cases hm⟩
  | within known =>
    obtain ⟨m, hknown⟩ := hshared known hun
    rw [hknown] at hrun
    refine ⟨_, _, hrun, ⟨rfl, rfl, rfl, rfl⟩, rfl, rfl, rfl, hun.symm, fun hs => ?_⟩
    exact hs.extend (.refl (fun _ => True) _) hknown.symm rfl
  | manager place =>
    obtain ⟨m, hknown⟩ := hshared _ hun
    rw [hknown] at hrun
    refine ⟨_, _, hrun, ⟨rfl, rfl, rfl, rfl⟩, rfl, rfl, rfl, hun.symm, fun hs => ?_⟩
    by_cases hplace : place < w.managers.size
    · refine hs.extend (.refl (fun _ => True) _) ?_ rfl
      simp [Cursor.shapeState, Cursor.known, Cursor.keepKnown, World.manager, World.setManager, hplace, hknown]
    · -- A place without a manager knows nothing.
      intro m' hm' entityType key id hfind
      have hempty : m' = IdentityMap.empty := by
        simpa [Cursor.shapeState, Cursor.known, Cursor.keepKnown, World.manager, World.setManager, hplace,
          StateManager.empty, eq_comm] using hm'
      rw [hempty] at hfind
      cases hfind

theorem ShapeState.Grows.congr {s s' s'' : ShapeState} {old ids : List Nat} (h : s.Grows s' old ids)
    (hgraph : s''.graph = s'.graph) (hnext : s''.nextSlot = s'.nextSlot) (hun : s''.unshared = s'.unshared)
    (hsound : s'.Sound → s''.Sound) : s.Grows s'' old ids := by
  obtain ⟨hadv, hadds⟩ := h
  refine ⟨⟨hgraph ▸ hadv.graph, fun hs => hsound (hadv.sound hs), hun.trans hadv.unshared, hnext ▸ hadv.numbers⟩,
    fun hu => ?_⟩
  obtain ⟨new, hperm, hnew⟩ := hadds hu
  exact ⟨new, hperm, hnew.nodup, fun j hj => by rw [hgraph]; exact hnew.range j hj⟩

/-- A step of shaping by a cursor, with what it does to a draft. -/
theorem Pull.shape_grows {α : Type} {x : Shaping α} {c : Cursor} {w : World} {a : α} {s' : ShapeState}
    {old ids : List Nat} (h : Shaping.Steps x (c.shapeState w) a s') (hgrow : (c.shapeState w).Grows s' old ids) :
    ∃ c' w', Pull.Runs (Pull.shape x) c w a c' w' ∧ c.Like c' ∧ w.Like w' ∧ w'.graph = s'.graph ∧
      (c.shapeState w).Grows (c'.shapeState w') old ids := by
  obtain ⟨c', w', hrun, hc, hw, hgraph, hnext, hun, hsound⟩ := runs_shape h hgrow.advances.unshared
  exact ⟨c', w', hrun, hc, hw, hgraph, hgrow.congr hgraph hnext hun hsound⟩

/-- What is left behind by loading a draft. -/
structure Loaded (c : Cursor) (w : World) (d : Draft) (t : Tree) (d' : Draft) (c' : Cursor) (w' : World) : Prop where
  grows : (c.shapeState w).Grows (c'.shapeState w') d.ids d'.ids
  shows : d'.Shows (c.shapeState w).unshared w'.graph t

end QueryShaping
