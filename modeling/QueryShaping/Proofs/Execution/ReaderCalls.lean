import QueryShaping.Proofs.Execution.Among
import QueryShaping.Proofs.Execution.LoadingSteps
import QueryShaping.Proofs.Execution.SplitReading

/-!
# Calls to readers

An enumeration opens its readers, reads rows, asks for the values of the current row and closes the readers in the end.
The steps of loading are given here with a log of these calls. The log has no influence: without it the logged steps are
the steps themselves, which is what `Logged.Forgets` says.

A read is noted with what it came to. Everything that asks for values is given a reader only after that has been noted.
-/

namespace QueryShaping

/-- A call to a reader. A read finds a row, or comes to the end of the rows, or fails. -/
inductive ReaderCall where
  | opened
  | found
  | ended
  | failed
  | looked
  | closed
deriving DecidableEq

/-- The calls to the readers of an enumeration, in order. -/
abbrev CallLog := List (ReaderName × ReaderCall)

/-- The calls to one reader. -/
def CallLog.callsTo (log : CallLog) (name : ReaderName) : List ReaderCall :=
  (log.filter (·.1 = name)).map (·.2)

/-- A cursor with the calls to its readers. -/
structure Noted where
  cursor : Cursor
  log : CallLog

/-- A step of a cursor that keeps a log. -/
abbrev Logged := Steps Noted

namespace Logged

variable {α β : Type}

/-- A step that calls no reader. -/
def ofPull (x : Pull α) : Logged α := ExceptT.mk fun s => do
  let (result, c) ← x.run.run s.cursor
  return (result, { s with cursor := c })

def note (name : ReaderName) (call : ReaderCall) : Logged Unit :=
  modify fun s => { s with log := s.log ++ [(name, call)] }

/-- Moves a reader to its next row. -/
def read (f : Fetch) (name : ReaderName) (r : Reader) : Logged (Bool × Reader) := do
  ofPull (Pull.ofAction (f.context.beginIn f.mode))
  ofPull (Pull.ofAction (f.context.awaitStore f.mode))
  match r.read with
  | .ok (found, r) =>
    note name (if found then .found else .ended)
    return (found, r)
  | .error e =>
    note name .failed
    throw e

/-- Loading with a log. -/
def loader (f : Fetch) : Loader Shaping Logged where
  shaper := .plain
  step := ofPull
  openSplit id := do
    let reader ← ofPull (f.openSplit id)
    note (.collection id) .opened
    return reader
  read := read f
  look name x := do
    note name .looked
    ofPull (Pull.ofExcept x)
  shape name x := do
    note name .looked
    ofPull (Pull.shape x)

end Logged

/-! ## Enumerating with a log -/

/-- Pulling with a log. -/
def Puller.logged : Puller (StateT CallLog (Proc World)) where
  step x := StateT.lift x
  openCursor e := fun log => do
    match ← e.openCursor.run with
    | .error fault => return (.error fault, log)
    | .ok c => return (.ok c, log ++ [(.query, .opened)])
  next e c := fun log => do
    let (result, s) ← (e.query.program.next (Logged.loader e.fetch)).run.run ⟨c, log⟩
    return ((result, s.cursor), s.log)

/-- The readers of a cursor with their names. -/
def Cursor.namedReaders (c : Cursor) : List (ReaderName × Reader) :=
  (.query, c.reader) :: c.splits.map fun (id, r) => (.collection id, r.reader)

/-- Closes a reader. -/
def World.closeLogged (s : World × CallLog) (r : ReaderName × Reader) : World × CallLog :=
  (s.1.closeReader r.2, s.2 ++ [(r.1, .closed)])

namespace Enumeration

/-- Gives the next value, or nothing at the end, and keeps a log of the calls to readers. -/
def pullLogged (e : Enumeration) (log : CallLog) :
    Proc World ((Except Error (Option Result) × Enumeration) × CallLog) := (e.pullBy .logged).run log

/-- Closes the readers and keeps a log of that. -/
def disposeLogged (e : Enumeration) (log : CallLog) (w : World) : (Enumeration × World) × CallLog :=
  if e.phase = .disposed then ((e, w), log)
  else
    let (w, log) := (e.cursor.elim [] Cursor.namedReaders).foldl World.closeLogged (w, log)
    (({ e with phase := .disposed, cursor := none }, w), log)

end Enumeration

/-! ## Forgetting the log -/

theorem Progress.bind_assoc {σ α β γ : Type} (p : Progress σ α) (f : α → σ → Progress σ β) (g : β → σ → Progress σ γ) :
    (p.bind f).bind g = p.bind fun a s => (f a s).bind g := by
  induction p with
  | done a s => rfl
  | wait w s resume ih => exact congrArg (Progress.wait w s) (funext ih)

theorem Progress.bind_done {σ α : Type} (p : Progress σ α) : p.bind .done = p := by
  induction p with
  | done a s => rfl
  | wait w s resume ih => exact congrArg (Progress.wait w s) (funext ih)

instance {σ : Type} : LawfulMonad (Proc σ) :=
  LawfulMonad.mk' (Proc σ)
    (fun x => funext fun s => (x s).bind_done)
    (fun _ _ => rfl)
    (fun x f g => funext fun s => (x s).bind_assoc f g)

namespace Logged

variable {α β : Type}

/-- A logged step that is another step if its log is forgotten. -/
def Forgets (x : Logged α) (y : Pull α) : Prop :=
  ∀ s : Noted, (do let (result, s') ← x.run.run s; return (result, s'.cursor)) = y.run.run s.cursor

theorem Forgets.bind {x : Logged α} {y : Pull α} {f : α → Logged β} {g : α → Pull β} (h : x.Forgets y)
    (hf : ∀ a, (f a).Forgets (g a)) : Forgets (x >>= f) (y >>= g) := by
  intro s
  have hx : (x >>= f).run.run s = x.run.run s >>= fun r => (ExceptT.bindCont f r.1).run r.2 := rfl
  have hy : (y >>= g).run.run s.cursor = y.run.run s.cursor >>= fun r => (ExceptT.bindCont g r.1).run r.2 := rfl
  rw [hx, hy, ← h s, bind_assoc, bind_assoc]
  congr 1
  funext r
  obtain ⟨r, s'⟩ := r
  cases r with
  | ok a => exact hf a s'
  | error e => rfl

theorem forgets_pure (a : α) : Forgets (pure a) (pure a) := fun _ => rfl

theorem forgets_throw (e : Error) : Forgets (throw e : Logged α) (throw e) := fun _ => rfl

theorem forgets_ofPull (y : Pull α) : (ofPull y).Forgets y := by
  intro s
  have hrun : (ofPull y).run.run s =
      y.run.run s.cursor >>= fun r => pure (r.1, ({ s with cursor := r.2 } : Noted)) := rfl
  rw [hrun, bind_assoc]
  exact bind_pure _

theorem forgets_note {name : ReaderName} {call : ReaderCall} {f : Unit → Logged α} {y : Pull α}
    (h : (f ()).Forgets y) : Forgets (note name call >>= f) y :=
  fun s => h { s with log := s.log ++ [(name, call)] }

end Logged

theorem Pull.ofAction_bind {α β : Type} (x : Action α) (f : α → Action β) :
    Pull.ofAction (x >>= f) = Pull.ofAction x >>= fun a => Pull.ofAction (f a) := by
  funext c
  have hleft : (Pull.ofAction (x >>= f)) c = (x.run >>= ExceptT.bindCont f) >>= fun r => pure (r, c) := rfl
  have hright : (Pull.ofAction x >>= fun a => Pull.ofAction (f a)) c = (x.run >>= fun r => pure (r, c)) >>= fun r =>
      (ExceptT.bindCont (fun a => Pull.ofAction (f a)) r.1) r.2 := rfl
  rw [hleft, hright, bind_assoc, bind_assoc]
  congr 1
  funext r
  cases r with
  | ok a => rfl
  | error e => rfl

namespace Logged

theorem forgets_read (f : Fetch) (name : ReaderName) (r : Reader) : (read f name r).Forgets (f.loader.read name r) := by
  show (read f name r).Forgets (Pull.ofAction (f.context.readRow f.mode r))
  rw [Context.readRow, Pull.ofAction_bind]
  refine (forgets_ofPull _).bind fun _ => ?_
  rw [Pull.ofAction_bind]
  refine (forgets_ofPull _).bind fun _ => ?_
  cases r.read with
  | ok found => exact forgets_note (forgets_pure _)
  | error e => exact forgets_note (forgets_throw _)

theorem forgets_openSplit (f : Fetch) (id : Nat) : ((loader f).openSplit id).Forgets (f.openSplit id) := by
  rw [← bind_pure (f.openSplit id)]
  exact (forgets_ofPull _).bind fun _ => forgets_note (forgets_pure _)

/-- Loading with a log is loading. -/
theorem related_loader (f : Fetch) : (loader f).Related f.loader (fun _ => Eq) fun _ x y => x.Forgets y where
  pure := forgets_pure
  bind h hf := h.bind hf
  ofExcept _ := forgets_ofPull _
  get := forgets_ofPull get
  setSplit _ _ := forgets_ofPull _
  openSplit := forgets_openSplit f
  read := forgets_read f
  shaper := Shaper.related_eq .plain
  look _ _ := forgets_note (forgets_ofPull _)
  shape _ _ _ h := h ▸ forgets_note (forgets_ofPull _)
  modify _ := forgets_ofPull _
  attach _ := forgets_ofPull _

end Logged

/-- Pulling with a log is pulling. -/
theorem Puller.related_logged : logged.Related .plain fun _ x y => ∀ log, Prod.fst <$> x.run log = y where
  pure _ _ := map_pure _ _
  bind {_ _ x y f g} h hf log := by
    have hrun : (x >>= f).run log = x.run log >>= fun r => (f r.1).run r.2 := rfl
    rw [hrun, map_bind, ← h log, bind_map_left]
    simp only [hf]
  step x log := by
    have hrun : (logged.step x).run log = x >>= fun a => pure (a, log) := rfl
    rw [hrun, map_bind]
    simp only [map_pure, bind_pure]
    rfl
  openCursor e log := by
    show Prod.fst <$> (e.openCursor.run >>= _) = e.openCursor.run
    rw [map_bind]
    conv_rhs => rw [← bind_pure e.openCursor.run]
    congr 1
    funext r
    cases r <;> rfl
  next e c log := by
    have hforget := (Logged.related_loader e.fetch).next e.query.program ⟨c, log⟩
    have hrun : (logged.next e c).run log = (e.query.program.next (Logged.loader e.fetch)).run.run ⟨c, log⟩ >>= fun r =>
        pure ((r.1, r.2.cursor), r.2.log) := rfl
    rw [hrun, map_bind]
    simp only [map_pure]
    exact hforget

/-- A step that calls no reader leaves the log alone. -/
theorem Puller.does_logged_step {α β : Type} {log : CallLog} {x : Proc World α}
    {f : α → StateT CallLog (Proc World) β} {d : Deeds} {post : Deeds → β × CallLog → Prop} (hx : x.Does fun d' _ => d' = d)
    (hf : ∀ a, ((f a).run log).Does fun d' b => post (d.andThen d') b) :
    ((logged.step x >>= f).run log).Does post := by
  have hrun : (logged.step x >>= f).run log = x >>= fun a => (f a).run log := by
    show (x >>= fun a => pure (a, log)) >>= (fun r => (f r.1).run r.2) = _
    rw [bind_assoc]
    rfl
  rw [hrun]
  exact hx.bind fun d' a hd => hd ▸ hf a

/-- Without its log a pull is the pull itself. -/
theorem Enumeration.fst_pullLogged (e : Enumeration) (log : CallLog) : Prod.fst <$> e.pullLogged log = e.pull :=
  Puller.related_logged.pullBy e log

theorem World.foldl_closeLogged (readers : List (ReaderName × Reader)) (w : World) (log : CallLog) :
    readers.foldl World.closeLogged (w, log) =
      ((readers.map (·.2)).foldl World.closeReader w, log ++ readers.map fun (name, _) => (name, .closed)) := by
  induction readers generalizing w log with
  | nil => simp
  | cons r readers ih =>
    rw [List.foldl_cons, closeLogged, ih]
    simp

namespace Enumeration

/-- Without its log a disposal is the disposal itself. -/
theorem fst_disposeLogged (e : Enumeration) (log : CallLog) (w : World) : (e.disposeLogged log w).1 = e.dispose w := by
  have hreaders : (e.cursor.elim [] Cursor.namedReaders).map (·.2) = e.cursor.elim [] Cursor.readers := by
    cases e.cursor with
    | none => rfl
    | some c => simp [Cursor.namedReaders, Cursor.readers]
  unfold disposeLogged dispose
  rw [World.foldl_closeLogged, hreaders]
  split <;> rfl

theorem log_disposeLogged (e : Enumeration) (log : CallLog) (w : World) : (e.disposeLogged log w).2 =
    if e.phase = .disposed then log
    else log ++ (e.cursor.elim [] Cursor.namedReaders).map fun (name, _) => (name, .closed) := by
  unfold disposeLogged
  rw [World.foldl_closeLogged]
  split <;> rfl

end Enumeration

end QueryShaping
