import QueryShaping.Proofs.Execution.Lifecycle
import QueryShaping.Proofs.Execution.LoadingSteps

/-!
# Cancelled enumerations

A context looks at its cancellation whenever a reader is opened or read, before it waits for anything. A pull that starts
after the cancellation therefore ends without waiting, and it gets no further than the first reader it needs. Only a row
that the pull before has read ahead is there already: if all collections are joined into the query and this row has none,
its value still comes, and it is the last one.
-/

namespace QueryShaping

open List Proc

/-! ## Computations that end at once -/

namespace Action

variable {α β : Type} {x : Action α} {f : α → Action β} {w w' : World}

theorem bind_of_ok {a : α} (h : x.run w = .done (.ok a) w') : (x >>= f).run w = (f a).run w' :=
  bind_of_done h

theorem bind_of_error {fault : Error} (h : x.run w = .done (.error fault) w') :
    (x >>= f).run w = .done (.error fault) w' :=
  bind_of_done h

end Action

namespace Pull

variable {α β : Type} {x : Pull α} {f : α → Pull β} {c c' : Cursor} {w w' : World}

/-- A step of a cursor that ends without waiting. -/
def Ends (x : Pull α) (c : Cursor) (w : World) (r : Except Error α) (c' : Cursor) (w' : World) : Prop :=
  x.run.run c w = .done (r, c') w'

theorem Ends.bind {r : Except Error β} {c'' : Cursor} {w'' : World} {a : α} (h : x.Ends c w (.ok a) c' w')
    (h' : (f a).Ends c' w' r c'' w'') : (x >>= f).Ends c w r c'' w'' :=
  (bind_of_done (x := x.run.run c) h).trans h'

theorem Ends.bind_error {fault : Error} (h : x.Ends c w (.error fault) c' w') :
    (x >>= f).Ends c w (.error fault) c' w' :=
  bind_of_done (x := x.run.run c) h

theorem ends_ofAction {x : Action α} {r : Except Error α} (h : x.run w = .done r w') :
    (Pull.ofAction x).Ends c w r c w' :=
  bind_of_done (x := x.run) h

/-- A step of shaping does not wait, moves no reader and cancels nothing. -/
theorem ends_shape (x : Shaping α) (c : Cursor) (w : World) : ∃ c' w', (Pull.shape x).Ends c w
    (x.run.run (c.shapeState w)).1 c' w' ∧ c.Like c' ∧ w'.cancelled = w.cancelled := by
  have hkeep (c : Cursor) (w : World) (known : Option IdentityMap) :
      c.Like (c.keepKnown w known).1 ∧ (c.keepKnown w known).2.cancelled = w.cancelled := by
    unfold Cursor.keepKnown
    cases known with
    | none => exact ⟨.refl c, rfl⟩
    | some known => cases c.identity <;> exact ⟨⟨rfl, rfl, rfl, rfl⟩, rfl⟩
  obtain ⟨hlike, hcancelled⟩ := hkeep { c with nextSlot := (x.run.run (c.shapeState w)).2.nextSlot }
    { w with graph := (x.run.run (c.shapeState w)).2.graph } (x.run.run (c.shapeState w)).2.known
  exact ⟨_, _, rfl, ⟨hlike.reader, hlike.splits, hlike.ahead, hlike.exhausted⟩, hcancelled⟩

end Pull

/-- A step after which no row has been read ahead. -/
def Pull.LeavesNoneAhead {α : Type} (x : Pull α) (c : Cursor) : Prop := Steps.Does x c fun _ _ c' => c'.ahead = false

theorem Pull.LeavesNoneAhead.bind {α β : Type} {x : Pull α} {f : α → Pull β} {c : Cursor} (h : x.LeavesNoneAhead c)
    (hf : ∀ a c', c'.ahead = false → (f a).LeavesNoneAhead c') : (x >>= f).LeavesNoneAhead c :=
  Steps.Does.bind h (fun _ a c' hc' => hf a c' hc') fun _ _ _ hc' => hc'

theorem Steps.does_set {σ α : Type} {s s' : σ} {f : PUnit → Steps σ α} {post : Deeds → Except Error α → σ → Prop}
    (h : Does (f ⟨⟩) s' post) : Does (set s' >>= f) s post := h

/-! ## Contexts that have been cancelled -/

namespace Context

variable {c : Context} {w : World}

theorem isCancelled_congr {w' : World} (h : c.isCancelled w) (hw : w'.cancelled = w.cancelled) : c.isCancelled w' := by
  rw [isCancelled, hw]
  exact h

theorem beginIn_of_cancelled (h : c.isCancelled w) (mode : Mode) :
    (c.beginIn mode).run w = .done (.error .cancelled) w := by
  have hcheck : c.check.run w = .done (.error .cancelled) w := by
    have hthrow : c.check.run w = (if c.isCancelled w then throw .cancelled else pure () : Action Unit).run w := rfl
    rw [hthrow, if_pos h]
    rfl
  exact Action.bind_of_error hcheck

theorem readRow_of_cancelled (h : c.isCancelled w) (mode : Mode) (r : Reader) :
    (c.readRow mode r).run w = .done (.error .cancelled) w :=
  Action.bind_of_error (beginIn_of_cancelled h mode)

/-- No reader is opened; only a command that cannot be made fails before that is seen. -/
theorem openCached_of_cancelled (h : c.isCancelled w) (mode : Mode) (cache : Nat) : ∃ fault w',
    (c.openCached mode cache).run w = .done (.error fault) w' ∧
      (fault = .cancelled ∨ (w.command cache c.parameters).1 = .error fault) := by
  have hcommand : (Action.tryPerform fun w => w.command cache c.parameters).run w =
      .done (w.command cache c.parameters).1 (w.command cache c.parameters).2 := rfl
  have hcancelled : (w.command cache c.parameters).2.cancelled = w.cancelled := by
    unfold World.command
    split <;> rfl
  cases hresult : (w.command cache c.parameters).1 with
  | error fault =>
    rw [hresult] at hcommand
    exact ⟨fault, _, Action.bind_of_error hcommand, .inr rfl⟩
  | ok command =>
    rw [hresult] at hcommand
    have hbegin := beginIn_of_cancelled (isCancelled_congr h hcancelled) mode
    exact ⟨.cancelled, _, (Action.bind_of_ok hcommand).trans (Action.bind_of_error hbegin), .inl rfl⟩

end Context

/-! ## Values after the cancellation -/

/-- Whether a value cannot be shaped from the first of its rows. -/
def Program.Unshapeable (p : Program) (reader : Reader) (fault : Error) : Prop :=
  (∃ s, ((p.root.decode .plain reader).run.run s).1 = .error fault) ∨
    ∃ s d s', ((p.root.decode .plain reader).run.run s).1 = .ok d ∧ ((p.root.consume .plain d reader).run.run s').1 = .error fault

/-- What comes of the next value after the cancellation: whether it comes from a row that has been read ahead, and if so
what that row gives before any other is read. -/
inductive Cursor.AfterCancel (p : Program) (c : Cursor) : Except Error (Option Result) → Prop where
  | cancelled : c.AfterCancel p (.error .cancelled)
  | ended (h : c.exhausted = true) : c.AfterCancel p (.ok none)
  | unshapeable {fault : Error} (hahead : c.ahead = true) (h : p.Unshapeable c.reader fault) :
    c.AfterCancel p (.error fault)
  | ahead {s : ShapeState} {d : Draft} (hahead : c.ahead = true) (hd : ((p.root.decode .plain c.reader).run.run s).1 = .ok d)
      (hslots : d.slots = []) : c.AfterCancel p (.ok (some d.result))

namespace Fetch

variable {f : Fetch} {c : Cursor} {w : World}

theorem readRow_of_cancelled (h : f.context.isCancelled w) : f.loader.readRow.Ends c w (.error .cancelled) c w :=
  Pull.Ends.bind (x := get) rfl (.bind_error (Pull.ends_ofAction (Context.readRow_of_cancelled h f.mode c.reader)))

end Fetch

namespace Program

variable {f : Fetch} {p : Program} {c : Cursor} {w : World}

/-- The value of the row at hand, unless another row is needed for it. -/
theorem shapeValue_of_cancelled (h : f.context.isCancelled w) (hjoined : p.hasSplit = false) :
    ∃ r c' w', (p.shapeValue f.loader).Ends c w r c' w' ∧ c'.ahead = c.ahead ∧
      (r = .error .cancelled ∨ (∃ fault, r = .error fault ∧ p.Unshapeable c.reader fault) ∨
        ∃ s d, ((p.root.decode .plain c.reader).run.run s).1 = .ok d ∧ d.slots = [] ∧ r = .ok d.result) := by
  obtain ⟨c₁, w₁, hdecode, hlike, hcancelled⟩ := Pull.ends_shape (p.root.decode .plain c.reader) c w
  have hget : (get : Pull Cursor).Ends c w (.ok c) c w := rfl
  cases hd : ((p.root.decode .plain c.reader).run.run (c.shapeState w)).1 with
  | error fault =>
    rw [hd] at hdecode
    exact ⟨_, _, _, hget.bind hdecode.bind_error, hlike.ahead, .inr (.inl ⟨fault, rfl, .inl ⟨_, hd⟩⟩)⟩
  | ok d =>
    rw [hd] at hdecode
    by_cases hslots : d.slots = []
    · have hload : (p.load f.loader d).Ends c₁ w₁ (.ok d) c₁ w₁ := by
        unfold Program.load
        rw [hslots]
        rfl
      exact ⟨_, _, _, hget.bind (hdecode.bind (hload.bind (.bind (x := Pull.modifyWorld _) rfl rfl))), hlike.ahead,
        .inr (.inr ⟨_, d, hd, hslots, rfl⟩)⟩
    · -- The slots take the row at hand, and then the next one is read.
      obtain ⟨c₂, w₂, hconsume, hlike₂, hcancelled₂⟩ := Pull.ends_shape (p.root.consume .plain d c₁.reader) c₁ w₁
      have hget₁ : (get : Pull Cursor).Ends c₁ w₁ (.ok c₁) c₁ w₁ := rfl
      have hload {r : Except Error Draft} {w' : World}
          (hr : (p.root.loadJoined f.loader (c₁.reader.rest.length + 1) d).Ends c₁ w₁ r c₂ w') :
          (p.load f.loader d).Ends c₁ w₁ r c₂ w' := by
        have hempty : d.slots.isEmpty = false := by simpa using hslots
        unfold Program.load
        rw [hempty, hjoined]
        exact hget₁.bind hr
      cases hc : ((p.root.consume .plain d c₁.reader).run.run (c₁.shapeState w₁)).1 with
      | error fault =>
        rw [hc] at hconsume
        have hfault : p.Unshapeable c.reader fault := .inr ⟨_, d, c₁.shapeState w₁, hd, hlike.reader ▸ hc⟩
        exact ⟨_, _, _, hget.bind (hdecode.bind (hload (hget₁.bind hconsume.bind_error)).bind_error),
          hlike₂.ahead.trans hlike.ahead, .inr (.inl ⟨fault, rfl, hfault⟩)⟩
      | ok d' =>
        rw [hc] at hconsume
        have hread : f.loader.readRow.Ends c₂ w₂ (.error .cancelled) c₂ w₂ :=
          Fetch.readRow_of_cancelled (Context.isCancelled_congr h (hcancelled₂.trans hcancelled))
        exact ⟨_, _, _, hget.bind (hdecode.bind (hload (hget₁.bind (hconsume.bind hread.bind_error))).bind_error),
          hlike₂.ahead.trans hlike.ahead, .inl rfl⟩

/-- After the next value no row is ahead. -/
theorem next_of_cancelled (h : f.context.isCancelled w) (hjoined : c.ahead = true → p.hasSplit = false) :
    ∃ r c' w', (p.next f.loader).Ends c w r c' w' ∧ c.AfterCancel p r ∧ c'.ahead = false := by
  let c₀ : Cursor := { c with ahead := false, nextSlot := 0 }
  have hvalue {r : Except Error Bool} {c' : Cursor} {w' : World}
      (hr : (if c.ahead then pure true else if c.exhausted then pure false else f.loader.readRow : Pull Bool).Ends c₀ w r c' w') :
      f.loader.nextValue.Ends c w r c' w' :=
    Pull.Ends.bind (x := get) rfl (.bind (x := set c₀) rfl hr)
  cases hahead : c.ahead with
  | true =>
    rw [hahead] at hvalue
    have htrue : f.loader.nextValue.Ends c w (.ok true) c₀ w := hvalue rfl
    obtain ⟨r, c', w', hends, hc', hr⟩ := shapeValue_of_cancelled (c := c₀) h (hjoined hahead)
    rcases hr with rfl | ⟨fault, rfl, hfault⟩ | ⟨s, d, hd, hslots, rfl⟩
    · exact ⟨_, _, _, htrue.bind hends.bind_error, .cancelled, hc'⟩
    · exact ⟨_, _, _, htrue.bind hends.bind_error, .unshapeable hahead hfault, hc'⟩
    · exact ⟨_, _, _, htrue.bind (hends.bind (f := fun v => pure (some v)) rfl), .ahead hahead hd hslots, hc'⟩
  | false =>
    rw [hahead] at hvalue
    cases hexhausted : c.exhausted with
    | true =>
      rw [hexhausted] at hvalue
      have hfalse : f.loader.nextValue.Ends c w (.ok false) c₀ w := hvalue rfl
      exact ⟨_, _, _, hfalse.bind rfl, .ended hexhausted, rfl⟩
    | false =>
      rw [hexhausted] at hvalue
      have hread : f.loader.nextValue.Ends c w (.error .cancelled) c₀ w := hvalue (Fetch.readRow_of_cancelled h)
      exact ⟨_, _, _, hread.bind_error, .cancelled, rfl⟩

/-- Where collections have queries of their own, no row of the query is read ahead. -/
theorem next_ahead (hsplit : p.hasSplit) (c : Cursor) : (p.next f.loader).LeavesNoneAhead c := by
  have hclosed : f.loader.SplitClosed fun _ x => ∀ c, c.ahead = false → x.LeavesNoneAhead c :=
    { pure := fun a c hc => Steps.does_pure hc
      bind := fun hx hg c hc => (hx c hc).bind hg
      ofExcept := fun x c hc => Pull.does_ofExcept hc
      get := fun c hc w => ⟨.none, .refl w, hc⟩
      setSplit := fun id r c hc w => ⟨.none, .refl w, hc⟩
      openSplit := fun id c hc => by
        show (f.openSplit id).LeavesNoneAhead c
        unfold Fetch.openSplit
        cases f.splits.lookup id with
        | none => exact Steps.does_throw hc
        | some cache => exact Pull.does_ofAction ((f.context.openCached_does f.mode cache).mono fun _ _ _ => hc)
      read := fun _ r c hc => Pull.does_ofAction ((f.context.readRow_does f.mode r).mono fun _ _ _ => hc)
      shaper := Shaper.related_true _
      look := fun _ x c hc => Pull.does_ofExcept hc
      shape := fun _ _ _ _ c hc => Pull.does_shape fun s c' hlike => hlike.ahead.trans hc }
  have hread (c : Cursor) (hc : c.ahead = false) : f.loader.readRow.LeavesNoneAhead c :=
    Steps.does_get ((hclosed.read .query c.reader c hc).bind fun found c' hc' => Steps.does_modify (Steps.does_pure hc'))
  refine Pull.LeavesNoneAhead.bind ?_ fun found c' hc' => ?_
  · refine Steps.does_get (Steps.does_set ?_)
    cases c.ahead with
    | true => exact Steps.does_pure rfl
    | false =>
      cases c.exhausted with
      | true => exact Steps.does_pure rfl
      | false => exact hread _ rfl
  · cases found with
    | false => exact Steps.does_pure hc'
    | true =>
      refine Pull.LeavesNoneAhead.bind ?_ fun v c' hc' => Steps.does_pure hc'
      refine Steps.does_get ((hclosed.shape .query (y := p.root.decode .plain c'.reader) trivial c' hc').bind fun draft c' hc' => ?_)
      refine (hclosed.load hsplit draft c' hc').bind fun draft c' hc' => ?_
      exact Pull.LeavesNoneAhead.bind (Pull.does_modifyWorld (fun w => ⟨rfl, rfl, (append_nil _).symm⟩) hc')
        fun _ c' hc' => Steps.does_pure hc'

end Program

/-! ## Pulls after the cancellation -/

/-- A run from a world starts in it. -/
theorem Progress.Goes.head? {α : Type} {p : Progress World α} {w : World} {stretches : List Stretch} {a : α}
    (h : p.Goes w stretches a) : ∃ w', stretches.head? = some ⟨w, w'⟩ := by
  cases h with
  | done => exact ⟨_, rfl⟩
  | wait => exact ⟨_, rfl⟩

namespace Enumeration

/-- Whether the next value starts on a row that has been read ahead. -/
def readAhead (e : Enumeration) : Bool := e.cursor.any (·.ahead)

theorem readAhead_of_cursor {e : Enumeration} {c : Cursor} (h : e.cursor = some c) : e.readAhead = c.ahead := by
  rw [readAhead, h]
  rfl

/-- What a pull comes to that starts after the cancellation, in this world. Before the cancellation is seen the context
can turn out to be in use, or the command for the query cannot be made. -/
inductive AfterCancel (e : Enumeration) (w : World) : Except Error (Option Result) → Prop where
  | cancelled : e.AfterCancel w (.error .cancelled)
  | exhausted (h : e.phase = .exhausted) : e.AfterCancel w (.ok none)
  | faulted (h : e.phase = .faulted) : e.AfterCancel w (.error .faulted)
  | disposed (h : e.phase = .disposed) : e.AfterCancel w (.error .disposed)
  | busy (hdetects : e.query.options.detectConcurrentAccess = true) (h : (w.detector e.context.detector).inUse = true) :
    e.AfterCancel w (.error .concurrencyViolation)
  | uncommanded {fault : Error} (hphase : e.phase = .created)
      (h : (w.command e.query.commands e.context.parameters).1 = .error fault) : e.AfterCancel w (.error fault)
  | next {c : Cursor} {r : Except Error (Option Result)} (hphase : e.phase = .active) (hc : e.cursor = some c)
      (h : c.AfterCancel e.query.program r) : e.AfterCancel w r

/-- Only a row that has been read ahead gives a value. -/
theorem AfterCancel.readAhead {e : Enumeration} {w : World} {r : Except Error (Option Result)} (h : e.AfterCancel w r)
    {v : Result} (hr : r = .ok (some v)) : e.readAhead = true := by
  cases h with
  | next _ hc hnext =>
    rw [readAhead_of_cursor hc]
    cases hnext with
    | ahead hahead => exact hahead
    | cancelled | ended | unshapeable => cases hr
  | _ => cases hr

/-- Whether a step ends without waiting, with an answer that can come after the cancellation and no row ahead. -/
def Refuses (e : Enumeration) (w w₀ : World) (x : Proc World (Except Error (Option Result) × Enumeration)) : Prop :=
  ∃ r e' w', x w₀ = .done (r, e') w' ∧ e.AfterCancel w r ∧
    (e'.readAhead = false ∨ e'.cursor = e.cursor ∧ ∃ fault, r = .error fault)

variable {e : Enumeration} {log : CallLog} {w : World}

/-- The pull has started in the world `w`, and its detector has been entered since. -/
theorem produce_of_cancelled (ht : e.Tended log) (hphase : e.phase = .created ∨ e.phase = .active)
    (hjoined : e.readAhead = true → e.query.program.hasSplit = false) (h : e.context.isCancelled w)
    (detectors : Array Detector) : e.Refuses w { w with detectors } (e.produce .plain) := by
  have hcancelled : e.context.isCancelled { w with detectors } := h
  unfold Refuses produce
  cases hcursor : e.cursor with
  | some c =>
    have hactive : e.phase = .active := hphase.resolve_left fun hp => by cases hcursor.symm.trans (ht.created hp)
    obtain ⟨r, c', w', hends, hr, hahead⟩ := Program.next_of_cancelled (f := e.fetch) (p := e.query.program) (c := c) hcancelled
      fun hahead => hjoined ((readAhead_of_cursor hcursor).trans hahead)
    exact ⟨r, _, w', bind_of_done hends, .next hactive hcursor hr, .inl hahead⟩
  | none =>
    have hcreated : e.phase = .created := hphase.resolve_right fun hp => by
      obtain ⟨c, hc, -⟩ := ht.active hp
      cases hcursor.symm.trans hc
    obtain ⟨fault, w', hopen, hfault⟩ := Context.openCached_of_cancelled hcancelled e.mode e.query.commands
    have hcursor' : e.openCursor.run { w with detectors } = .done (.error fault) w' := Action.bind_of_error hopen
    refine ⟨.error fault, e, w', bind_of_done hcursor', ?_, .inr ⟨hcursor, fault, rfl⟩⟩
    rcases hfault with rfl | hfault
    · exact .cancelled
    · refine .uncommanded hcreated (Eq.trans ?_ hfault)
      unfold World.command
      cases w.commands[e.query.commands]? <;> rfl

theorem guarded_of_cancelled (ht : e.Tended log) (hphase : e.phase = .created ∨ e.phase = .active)
    (hjoined : e.readAhead = true → e.query.program.hasSplit = false) (h : e.context.isCancelled w) :
    e.Refuses w w (e.guarded .plain) := by
  unfold guarded
  by_cases hdetects : e.query.options.detectConcurrentAccess = true
  · rw [if_pos hdetects]
    unfold Refuses
    cases hin : (w.detector e.context.detector).inUse with
    | true =>
      refine ⟨.error .concurrencyViolation, e, w, ?_, .busy hdetects hin, .inr ⟨rfl, _, rfl⟩⟩
      refine (bind_of_done (x := get) rfl).trans ?_
      rw [Detector.enter, if_pos hin]
      rfl
    | false =>
      obtain ⟨r, e', w', hends, hr, hahead⟩ := produce_of_cancelled ht hphase hjoined h
        (w.setDetector e.context.detector ⟨true⟩).detectors
      refine ⟨r, e', w'.setDetector e.context.detector .idle, ?_, hr, hahead⟩
      refine (bind_of_done (x := get) rfl).trans ?_
      rw [Detector.enter, if_neg (by simp [hin])]
      refine (bind_of_done (x := modify _) rfl).trans ((bind_of_done hends).trans ?_)
      exact bind_of_done (x := modify _) rfl
  · rw [if_neg hdetects]
    exact produce_of_cancelled ht hphase hjoined h w.detectors

/-- A pull that starts after the cancellation ends without waiting. If it gives a value, that was read ahead, and there
is no row ahead any more. -/
theorem pull_of_cancelled (ht : e.Tended log) (hjoined : e.readAhead = true → e.query.program.hasSplit = false)
    (h : e.context.isCancelled w) : ∃ r e' w', e.pull w = .done (r, e') w' ∧ e.AfterCancel w r ∧
      (e'.readAhead = false ∨ e'.cursor = e.cursor ∧ ∀ v, r ≠ .ok (some v)) := by
  unfold pull pullBy
  cases hp : e.phase with
  | disposed => exact ⟨_, e, w, rfl, .disposed hp, .inr ⟨rfl, nofun⟩⟩
  | faulted => exact ⟨_, e, w, rfl, .faulted hp, .inr ⟨rfl, nofun⟩⟩
  | exhausted => exact ⟨_, e, w, rfl, .exhausted hp, .inr ⟨rfl, nofun⟩⟩
  | created | active =>
    obtain ⟨r, e', w', hends, hr, hahead⟩ := guarded_of_cancelled ht (by simp [hp]) hjoined h
    have hcursor : e'.readAhead = false ∨ e'.cursor = e.cursor ∧ ∀ v, r ≠ .ok (some v) :=
      hahead.imp_right fun ⟨hc, fault, hfault⟩ => ⟨hc, fun v hv => nomatch hfault.symm.trans hv⟩
    obtain fault | _ | v := r
    · exact ⟨_, _, _, (bind_of_done hends).trans (bind_of_done (x := modify _) rfl), hr, hcursor⟩
    · exact ⟨_, _, _, bind_of_done hends, hr, hcursor⟩
    · exact ⟨_, _, _, bind_of_done hends, hr, hcursor⟩

/-! ## Rows that are read ahead -/

theorem advance_ahead (hsplit : e.query.program.hasSplit) (c : Cursor) :
    (e.advance .plain c).Does fun _ r => r.2.readAhead = false :=
  Does.bind (Program.next_ahead (f := e.fetch) hsplit c) fun _ _ hr => does_pure hr

theorem produce_ahead (hsplit : e.query.program.hasSplit) (h : e.readAhead = false) :
    (e.produce .plain).Does fun _ r => r.2.readAhead = false := by
  unfold produce
  cases e.cursor with
  | some c => exact advance_ahead hsplit c
  | none =>
    refine Does.bind e.openCursor_does fun d r _ => ?_
    cases r with
    | error fault => exact does_pure h
    | ok c => exact advance_ahead (e := { e with phase := .active }) hsplit c

theorem guarded_ahead (hsplit : e.query.program.hasSplit) (h : e.readAhead = false) :
    (e.guarded .plain).Does fun _ r => r.2.readAhead = false := by
  have hdetector (detector : Detector) (w : World) : Deeds.none.Between w (w.setDetector e.context.detector detector) :=
    ⟨rfl, rfl, (append_nil _).symm⟩
  unfold guarded
  split
  · refine Does.bind (P := fun _ _ => True) (does_get fun _ => trivial) fun d w _ => ?_
    cases (w.detector e.context.detector).enter with
    | error fault => exact does_pure h
    | ok entered =>
      refine Does.bind (P := fun _ _ => True) (does_modify (hdetector entered) trivial) fun d _ _ => ?_
      refine (produce_ahead hsplit h).bind fun d r hr => ?_
      exact Does.bind (P := fun _ _ => True) (does_modify (hdetector .idle) trivial) fun d _ _ => does_pure hr
  · exact produce_ahead hsplit h

theorem pull_ahead (hsplit : e.query.program.hasSplit) (h : e.readAhead = false) :
    e.pull.Does fun _ r => r.2.readAhead = false := by
  unfold pull pullBy
  cases e.phase with
  | disposed | faulted | exhausted => exact does_pure h
  | created | active =>
    refine (guarded_ahead hsplit h).bind fun d r hr => ?_
    obtain ⟨fault | _ | v, e'⟩ := r
    · exact Does.bind (P := fun _ _ => True) (does_modify (fun w => w.report_between _ fault) trivial)
        fun d _ _ => does_pure hr
    · exact does_pure hr
    · exact does_pure hr

/-- What is kept in mind about an enumeration: a row is read ahead only where the collections are joined into the query. -/
structure Kept (query : CompiledQuery) (context : Context) (e : Enumeration) : Prop where
  query : e.query = query
  context : e.context = context
  tended : ∃ log, e.Tended log
  joined : e.readAhead = true → e.query.program.hasSplit = false

/-- No row is read ahead by disposing. -/
theorem readAhead_of_dispose {w : World} (h : (e.dispose w).1.readAhead = true) : e.readAhead = true := by
  unfold dispose at h
  split at h
  · exact h
  · cases h

theorem Kept.next {query : CompiledQuery} {context : Context} {x : Exchange} (h : Kept query context x.before)
    (hx : x.Possible) : Kept query context x.after := by
  obtain ⟨log, ht⟩ := h.tended
  obtain ⟨-, ⟨hquery, hcontext⟩, ht', -⟩ := tended_of_possible hx ht
  refine ⟨hquery.trans h.query, hcontext.trans h.context, ht', fun hahead => ?_⟩
  rw [hquery]
  cases hx with
  | @pull e r stretches hgo =>
    cases hsplit : e.query.program.hasSplit with
    | false => rfl
    | true =>
      have hbefore : e.readAhead = false := by
        cases hb : e.readAhead with
        | false => rfl
        | true => cases hsplit.symm.trans (h.joined hb)
      obtain ⟨d, -, hafter⟩ := (pull_ahead hsplit hbefore).goes hgo
      cases hafter.symm.trans hahead
  | reset e => exact h.joined hahead
  | dispose e w => exact h.joined (readAhead_of_dispose hahead)

theorem History.kept {query : CompiledQuery} {context : Context} {mode : Mode} {exchanges : List Exchange}
    {e : Enumeration} (h : (start query context mode).History exchanges e) : Kept query context e := by
  induction h with
  | nil => exact ⟨rfl, rfl, ⟨[], tended_start ..⟩, nofun⟩
  | next _ hx ih => exact ih.next hx

end Enumeration

/-! ## Requests after the cancellation -/

/-- Whether a request is answered with a value. -/
def Reply.gives : Reply → Bool
  | .pulled (.ok (some _)) => true
  | _ => false

namespace Exchange

def gives (x : Exchange) : Bool := x.reply.gives

/-- Whether a request, if it is a pull, starts in a world in which the context has been cancelled. -/
def StartsCancelled (x : Exchange) : Prop :=
  ∀ r, x.reply = .pulled r → ∀ s ∈ x.stretches.head?, x.before.context.isCancelled s.found

/-- Whether a request, if it is a pull, ends without waiting and with an answer that can come after the cancellation. -/
def EndsCancelled (x : Exchange) : Prop :=
  ∀ r, x.reply = .pulled r → ∃ w w', x.stretches = [⟨w, w'⟩] ∧ x.before.AfterCancel w r

end Exchange

namespace Enumeration

/-- One request after the cancellation: each value uses up a row that was read ahead. -/
theorem Kept.endsCancelled {query : CompiledQuery} {context : Context} {x : Exchange} (h : Kept query context x.before)
    (hx : x.Possible) (hc : x.StartsCancelled) :
    x.EndsCancelled ∧ x.gives.toNat + x.after.readAhead.toNat ≤ x.before.readAhead.toNat := by
  obtain ⟨log, ht⟩ := h.tended
  cases hx with
  | @pull e r stretches hgo =>
    obtain ⟨w, hgo⟩ := hgo
    obtain ⟨left, hhead⟩ := hgo.head?
    have hcancelled : e.context.isCancelled w := hc r.1 rfl ⟨w, left⟩ hhead
    obtain ⟨r', e', w', hends, hr, hahead⟩ := pull_of_cancelled ht h.joined hcancelled
    rw [hends] at hgo
    cases hgo
    refine ⟨fun r'' hr'' => ?_, ?_⟩
    · cases hr''
      exact ⟨w, w', rfl, hr⟩
    · have hbefore (v : Result) (hv : r' = .ok (some v)) : e.readAhead = true ∧ e'.readAhead = false :=
        ⟨hr.readAhead hv, hahead.resolve_right fun hnone => hnone.2 v hv⟩
      have hafter : e'.readAhead.toNat ≤ e.readAhead.toNat := by
        rcases hahead with hahead | ⟨hcursor, -⟩
        · simp [hahead]
        · rw [readAhead, hcursor]
          exact Nat.le_refl _
      obtain fault | _ | v := r'
      · simpa [Exchange.gives, Reply.gives] using hafter
      · simpa [Exchange.gives, Reply.gives] using hafter
      · obtain ⟨he, he'⟩ := hbefore v rfl
        simp [Exchange.gives, Reply.gives, he, he']
  | reset e => exact ⟨fun r hr => by simp at hr, by simp [Exchange.gives, Reply.gives]⟩
  | dispose e w =>
    refine ⟨fun r hr => by simp at hr, ?_⟩
    simp only [Exchange.gives, Reply.gives, Bool.toNat_false, Nat.zero_add]
    cases hahead : (e.dispose w).1.readAhead with
    | false => exact Nat.zero_le _
    | true => rw [readAhead_of_dispose hahead]

/-- After the cancellation every pull ends without waiting. It fails as cancelled, or it has the answer of its phase, or
something else fails before a reader is opened or read. A value comes only from a row that was read ahead and has no
collections, so there is one at most, and none where collections have queries of their own. -/
theorem endsCancelled_history {query : CompiledQuery} {context : Context} {mode : Mode} {earlier later : List Exchange}
    {e e' : Enumeration} (h : (start query context mode).History earlier e) (hlater : e.History later e')
    (hc : ∀ x ∈ later, x.StartsCancelled) :
    (∀ x ∈ later, x.EndsCancelled) ∧ (later.filter Exchange.gives).length ≤ e.readAhead.toNat ∧
      (e.readAhead = true → query.program.hasSplit = false) := by
  have hkept := h.kept
  suffices hall : Kept query context e' ∧ (∀ x ∈ later, x.EndsCancelled) ∧
      (later.filter Exchange.gives).length + e'.readAhead.toNat ≤ e.readAhead.toNat by
    refine ⟨hall.2.1, Nat.le_trans (Nat.le_add_right _ _) hall.2.2, ?_⟩
    rw [← hkept.query]
    exact hkept.joined
  induction hlater with
  | nil => exact ⟨hkept, by simp, by simp⟩
  | @next before x _ hx ih =>
    obtain ⟨hbefore, hends, hcount⟩ := ih fun y hy => hc y (mem_append_left _ hy)
    obtain ⟨hxends, hxcount⟩ := hbefore.endsCancelled hx (hc x (by simp))
    refine ⟨hbefore.next hx, fun y hy => ?_, ?_⟩
    · rcases mem_append.1 hy with hy | hy
      · exact hends y hy
      · exact mem_singleton.1 hy ▸ hxends
    · rw [filter_append, length_append]
      have hone : ([x].filter Exchange.gives).length = x.gives.toNat := by
        cases hgives : x.gives <;> simp [hgives]
      omega

/-- Values with a reference that may be missing, to an entity with a joined collection. -/
def optionalOwner : Program :=
  let items : CollectionNode := ⟨0, some "Items", "", [.field 1], [.field 2], .scalar (.field 2), none⟩
  ⟨.record [("V", .scalar (.field 0)),
    ("Owner", .entity ⟨"Owner", [.field 1], [], [], [("Items", .here items)], true⟩)], [items]⟩

def optionalOwnerWorld : World :=
  { World.prepared [[[.int32 1, .int32 1, .int32 10], [.int32 2, .null, .null], [.int32 3, .int32 3, .int32 30]]] with
    cancelled := #[false] }

def optionalOwnerStart : Enumeration :=
  start (.prepared optionalOwner .none []) { Context.plain with source := some 0 } .blocking

/-- The enumeration after its first value, for which the second row has been read ahead. -/
def optionalOwnerPulled : (Except Error (Option Result) × Enumeration) × World :=
  optionalOwnerStart.pull.run optionalOwnerWorld

theorem history_pull (e : Enumeration) (w : World) : ∃ exchanges, e.History exchanges (e.pull.run w).1.2 := by
  obtain ⟨stretches, hpull⟩ := e.pull.goes_run w
  exact ⟨_, History.nil.next (.pull hpull)⟩

/-- Two pulls in a world in which the context has been cancelled. -/
theorem history_pulls_of_cancelled {e e' : Enumeration} (h : e.context.isCancelled w) (he' : (e.pull.run w).1.2 = e')
    (h' : e'.context.isCancelled w) : ∃ later e'', e.History later e'' ∧ (∀ x ∈ later, x.StartsCancelled) ∧
      later.map Exchange.gives = [Reply.gives (.pulled (e.pull.run w).1.1), Reply.gives (.pulled (e'.pull.run w).1.1)] := by
  subst he'
  obtain ⟨stretches, hgo⟩ := (e.pull w).goes_finish w
  obtain ⟨stretches', hgo'⟩ := ((e.pull.run w).1.2.pull w).goes_finish w
  refine ⟨_, _, (History.nil.next (.pull ⟨w, hgo⟩)).next (.pull ⟨w, hgo'⟩), ?_, rfl⟩
  have hstarts {e : Enumeration} {stretches : List Stretch} {r : Except Error (Option Result) × Enumeration}
      (hgo : (e.pull w).Goes w stretches r) (hc : e.context.isCancelled w) :
      Exchange.StartsCancelled ⟨e, .pulled r.1, stretches, r.2⟩ := by
    obtain ⟨left, hhead⟩ := hgo.head?
    intro _ _ s hs
    cases hhead.symm.trans hs
    exact hc
  exact forall_mem_cons.2 ⟨hstarts hgo h, forall_mem_cons.2 ⟨hstarts hgo' h', by simp⟩⟩

/-- The second value has no collections. It comes although the context has been cancelled before the pull. -/
theorem pull_gives_of_row_ahead :
    (∃ exchanges, optionalOwnerStart.History exchanges optionalOwnerPulled.1.2) ∧
      optionalOwnerPulled.1.2.context.isCancelled (optionalOwnerPulled.2.cancel 0) = true ∧
      Reply.gives (.pulled (optionalOwnerPulled.1.2.pull.run (optionalOwnerPulled.2.cancel 0)).1.1) = true := by
  refine ⟨?_, by decide +kernel, by decide +kernel⟩
  unfold optionalOwnerPulled
  exact history_pull _ _

/-- The value of the row that was read ahead is the last one: the pull after it fails as cancelled. -/
theorem endsCancelled_history_optionalOwner : ∃ later e', optionalOwnerPulled.1.2.History later e' ∧
    (∀ x ∈ later, x.StartsCancelled) ∧ later.map Exchange.gives = [true, false] ∧ (∀ x ∈ later, x.EndsCancelled) ∧
      (later.filter Exchange.gives).length ≤ 1 ∧ optionalOwner.hasSplit = false := by
  have hearlier : ∃ exchanges, optionalOwnerStart.History exchanges optionalOwnerPulled.1.2 := by
    unfold optionalOwnerPulled
    exact history_pull _ _
  obtain ⟨exchanges, hearlier⟩ := hearlier
  have hgives : [Reply.gives (.pulled (optionalOwnerPulled.1.2.pull.run (optionalOwnerPulled.2.cancel 0)).1.1),
      Reply.gives (.pulled ((optionalOwnerPulled.1.2.pull.run (optionalOwnerPulled.2.cancel 0)).1.2.pull.run
        (optionalOwnerPulled.2.cancel 0)).1.1)] = [true, false] := by decide +kernel
  obtain ⟨later, e', hlater, hcancelled, hmap⟩ := history_pulls_of_cancelled (e := optionalOwnerPulled.1.2)
    (w := optionalOwnerPulled.2.cancel 0) (by decide +kernel) rfl (by decide +kernel)
  obtain ⟨hends, hcount, hjoined⟩ := endsCancelled_history hearlier hlater hcancelled
  exact ⟨later, e', hlater, hcancelled, hmap.trans hgives, hends, hcount.trans (Bool.toNat_le _),
    hjoined (by decide +kernel)⟩

end Enumeration

end QueryShaping
