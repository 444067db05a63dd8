import QueryShaping.Proofs.Execution.Alone
import QueryShaping.Proofs.Fallible
import QueryShaping.Shaping.Decode

/-!
# Running among others

What a computation does while others change the world whenever it waits. It runs in stretches, from a world that it finds
to the world that it leaves when it waits or ends. Between two stretches anything may happen, so nothing is said about the
world that a stretch finds.

`Goes` is one run of a computation with its stretches, and `Does` is what all of its runs have in common: what they do to
the world themselves, and what they come to.
-/

namespace QueryShaping

open QueryShaping.Action

/-- A part of a run without a wait: the world that it found and the world that it left. -/
structure Stretch where
  found : World
  left : World

/-- What a run does itself: how many readers of the store it opens and closes, and which failures it reports. -/
@[ext]
structure Deeds where
  opened : Nat
  closed : Nat
  reported : List (String × Error)

namespace Deeds

def none : Deeds := ⟨0, 0, []⟩

def andThen (d d' : Deeds) : Deeds := ⟨d.opened + d'.opened, d.closed + d'.closed, d.reported ++ d'.reported⟩

@[simp] theorem none_andThen (d : Deeds) : none.andThen d = d := by
  ext <;> simp [none, andThen]

@[simp] theorem andThen_none (d : Deeds) : d.andThen none = d := by
  ext <;> simp [none, andThen]

theorem andThen_assoc (d d' d'' : Deeds) : (d.andThen d').andThen d'' = d.andThen (d'.andThen d'') := by
  ext <;> simp [andThen, Nat.add_assoc]

/-- Whether this is what was done between two worlds. -/
structure Between (d : Deeds) (w w' : World) : Prop where
  opened : w'.store.counters.opened = w.store.counters.opened + d.opened
  closed : w'.store.counters.closed = w.store.counters.closed + d.closed
  reported : w'.events.toList = w.events.toList ++ d.reported

theorem Between.refl (w : World) : none.Between w w :=
  ⟨rfl, rfl, (List.append_nil _).symm⟩

theorem Between.trans {d d' : Deeds} {w w' w'' : World} (h : d.Between w w') (h' : d'.Between w' w'') :
    (d.andThen d').Between w w'' := by
  refine ⟨?_, ?_, ?_⟩
  · rw [h'.opened, h.opened, Nat.add_assoc]
    rfl
  · rw [h'.closed, h.closed, Nat.add_assoc]
    rfl
  · rw [h'.reported, h.reported, List.append_assoc]
    rfl

/-- Whether this is what was done in all of these stretches together. -/
def Over (d : Deeds) : List Stretch → Prop
  | [] => d = none
  | s :: later => ∃ first rest : Deeds, d = first.andThen rest ∧ first.Between s.found s.left ∧ rest.Over later

theorem Over.append {d d' : Deeds} {before after : List Stretch} (h : d.Over before) (h' : d'.Over after) :
    (d.andThen d').Over (before ++ after) := by
  induction before generalizing d with
  | nil =>
    cases h
    rw [none_andThen]
    exact h'
  | cons s before ih =>
    obtain ⟨first, rest, rfl, hfirst, hrest⟩ := h
    exact ⟨first, rest.andThen d', andThen_assoc .., hfirst, ih hrest⟩

end Deeds

/-! ## Computations that wait -/

namespace Progress

variable {α β : Type}

/-- A run from a world to what it comes to, in these stretches. -/
inductive Goes : Progress World α → World → List Stretch → α → Prop where
  | done (a : α) (w w' : World) : Goes (.done a w') w [⟨w, w'⟩] a
  | wait {p : Wait World} {resume : World → Progress World α} {w w' found : World} {later : List Stretch} {a : α}
      (h : Goes (resume found) found later a) : Goes (.wait p w' resume) w (⟨w, w'⟩ :: later) a

/-- What all runs from a world do and come to. -/
def Does : Progress World α → World → (Deeds → α → Prop) → Prop
  | .done a w', w, post => ∃ d : Deeds, d.Between w w' ∧ post d a
  | .wait _ w' resume, w, post =>
    ∃ d : Deeds, d.Between w w' ∧ ∀ found, (resume found).Does found fun d' a => post (d.andThen d') a

variable {post post' : Deeds → α → Prop} {w : World}

theorem Does.mono {p : Progress World α} (h : p.Does w post) (himp : ∀ d a, post d a → post' d a) : p.Does w post' := by
  induction p generalizing w post post' with
  | done a w' =>
    obtain ⟨d, hd, hpost⟩ := h
    exact ⟨d, hd, himp d a hpost⟩
  | wait _ w' resume ih =>
    obtain ⟨d, hd, hrest⟩ := h
    exact ⟨d, hd, fun found => ih found (hrest found) fun d' a => himp (d.andThen d') a⟩

/-- What was done before belongs to the first stretch. -/
theorem Does.after {p : Progress World α} {d : Deeds} {w₀ : World} (hd : d.Between w₀ w)
    (h : p.Does w fun d' a => post (d.andThen d') a) : p.Does w₀ post := by
  cases p with
  | done a w' =>
    obtain ⟨d', hd', hpost⟩ := h
    exact ⟨d.andThen d', hd.trans hd', hpost⟩
  | wait _ w' resume =>
    obtain ⟨d', hd', hrest⟩ := h
    refine ⟨d.andThen d', hd.trans hd', fun found => (hrest found).mono fun d'' a hpost => ?_⟩
    rw [Deeds.andThen_assoc]
    exact hpost

theorem Does.bind {p : Progress World α} {f : α → World → Progress World β} {post' : Deeds → β → Prop}
    (h : p.Does w fun d a => ∀ found, (f a found).Does found fun d' b => post' (d.andThen d') b) :
    (p.bind f).Does w post' := by
  induction p generalizing w post' with
  | done a w' =>
    obtain ⟨d, hd, hrest⟩ := h
    exact (hrest w').after hd
  | wait _ w' resume ih =>
    obtain ⟨d, hd, hrest⟩ := h
    refine ⟨d, hd, fun found => ih found ((hrest found).mono fun d' a hpost found' => ?_)⟩
    exact (hpost found').mono fun d'' b hb => Deeds.andThen_assoc d d' d'' ▸ hb

/-- Every run does what all runs do. -/
theorem Does.goes {p : Progress World α} (h : p.Does w post) {stretches : List Stretch} {a : α}
    (hgo : p.Goes w stretches a) : ∃ d : Deeds, d.Over stretches ∧ post d a := by
  induction hgo generalizing post with
  | done a w w' =>
    obtain ⟨d, hd, hpost⟩ := h
    exact ⟨d, ⟨d, .none, (Deeds.andThen_none d).symm, hd, rfl⟩, hpost⟩
  | wait _ ih =>
    obtain ⟨d, hd, hrest⟩ := h
    obtain ⟨d', hd', hpost⟩ := ih (hrest _)
    exact ⟨d.andThen d', ⟨d, d', rfl, hd, hd'⟩, hpost⟩

/-- With nobody else around there is a run. -/
theorem goes_finish (p : Progress World α) (w : World) : ∃ stretches, p.Goes w stretches p.finish.1 := by
  induction p generalizing w with
  | done a w' => exact ⟨_, .done a w w'⟩
  | wait _ w' resume ih =>
    obtain ⟨later, hlater⟩ := ih w' w'
    exact ⟨_, .wait hlater⟩

theorem Does.exists {p : Progress World α} (h : p.Does w post) : ∃ d a, post d a := by
  obtain ⟨stretches, hgo⟩ := p.goes_finish w
  obtain ⟨d, -, hpost⟩ := h.goes hgo
  exact ⟨d, _, hpost⟩

end Progress

namespace Proc

variable {α β : Type} {post post' : Deeds → α → Prop}

/-- A run of a computation from some world. -/
def Goes (x : Proc World α) (stretches : List Stretch) (a : α) : Prop :=
  ∃ w, (x w).Goes w stretches a

/-- What all runs of a computation do and come to, in whatever world they start. -/
def Does (x : Proc World α) (post : Deeds → α → Prop) : Prop :=
  ∀ w, (x w).Does w post

theorem Does.mono {x : Proc World α} (h : x.Does post) (himp : ∀ d a, post d a → post' d a) : x.Does post' :=
  fun w => (h w).mono himp

theorem Does.goes {x : Proc World α} (h : x.Does post) {stretches : List Stretch} {a : α} (hgo : x.Goes stretches a) :
    ∃ d : Deeds, d.Over stretches ∧ post d a := by
  obtain ⟨w, hgo⟩ := hgo
  exact (h w).goes hgo

theorem goes_run (x : Proc World α) (w : World) : ∃ stretches, x.Goes stretches (x.run w).1 :=
  ((x w).goes_finish w).imp fun _ h => ⟨w, h⟩

theorem Does.bind {P : Deeds → α → Prop} {x : Proc World α} {f : α → Proc World β} {post' : Deeds → β → Prop}
    (h : x.Does P) (hf : ∀ d a, P d a → (f a).Does fun d' b => post' (d.andThen d') b) : (x >>= f).Does post' :=
  fun w => Progress.Does.bind ((h w).mono hf)

theorem does_modifyGet {f : World → α × World} (h : ∀ w, ∃ d : Deeds, d.Between w (f w).2 ∧ post d (f w).1) :
    (modifyGet f).Does post := h

theorem does_pure {a : α} (h : post .none a) : (pure a : Proc World α).Does post :=
  fun w => ⟨.none, .refl w, h⟩

theorem does_modify {f : World → World} {post : Deeds → Unit → Prop} {d : Deeds} (hd : ∀ w, d.Between w (f w))
    (h : post d ()) : (modify f).Does post :=
  fun w => ⟨d, hd w, h⟩

theorem does_get {post : Deeds → World → Prop} (h : ∀ w, post .none w) : get.Does post :=
  fun w => ⟨.none, .refl w, h w⟩

theorem does_pause {millis : Nat} {wakes : World → Bool} {post : Deeds → Unit → Prop} (h : post .none ()) :
    (pause millis wakes).Does post :=
  fun w => ⟨.none, .refl w, fun found => ⟨.none, .refl found, h⟩⟩

theorem does_yield {post : Deeds → Unit → Prop} (h : post .none ()) : yield.Does post :=
  fun w => ⟨.none, .refl w, fun found => ⟨.none, .refl found, h⟩⟩

end Proc

/-! ## Actions -/

namespace Action

variable {α β : Type} {post : Deeds → Except Error α → Prop}

/-- What all runs of an action do and come to. -/
def Does (x : Action α) (post : Deeds → Except Error α → Prop) : Prop :=
  Proc.Does x.run post

theorem Does.mono {post' : Deeds → Except Error α → Prop} {x : Action α} (h : x.Does post)
    (himp : ∀ d r, post d r → post' d r) : x.Does post' :=
  Proc.Does.mono h himp

theorem Does.bind {P : Deeds → Except Error α → Prop} {post : Deeds → Except Error β → Prop} {x : Action α}
    {f : α → Action β} (h : x.Does P) (hok : ∀ d a, P d (.ok a) → (f a).Does fun d' r => post (d.andThen d') r)
    (herror : ∀ d e, P d (.error e) → post d (.error e)) : (x >>= f).Does post := by
  refine Proc.Does.bind h fun d r hr => ?_
  cases r with
  | ok a => exact hok d a hr
  | error e => exact Proc.does_pure (by rw [Deeds.andThen_none]; exact herror d e hr)

theorem does_pure {a : α} (h : post .none (.ok a)) : (pure a : Action α).Does post :=
  Proc.does_pure h

theorem does_throw {e : Error} (h : post .none (.error e)) : (throw e : Action α).Does post :=
  Proc.does_pure h

theorem does_ofExcept {x : Except Error α} (h : post .none x) : (ofExcept x).Does post :=
  Proc.does_pure h

theorem does_tryPerform {f : World → Except Error α × World}
    (h : ∀ w, ∃ d : Deeds, d.Between w (f w).2 ∧ post d (f w).1) : (tryPerform f).Does post :=
  Proc.does_modifyGet h

theorem does_lift {x : Proc World α} (h : x.Does fun d a => post d (.ok a)) : Does (ExceptT.lift x) post := by
  refine Proc.Does.bind h fun d a ha => Proc.does_pure ?_
  rw [Deeds.andThen_none]
  exact ha

theorem does_perform {f : World → α × World} (h : ∀ w, ∃ d : Deeds, d.Between w (f w).2 ∧ post d (.ok (f w).1)) :
    (perform f).Does post :=
  does_lift (Proc.does_modifyGet h)

theorem does_world {f : World → Action α} (h : ∀ w, (f w).Does post) : (world >>= f).Does post :=
  fun w => h w w

/-- An action that does nothing, unless it is cancelled. -/
def Waits (x : Action Unit) : Prop :=
  x.Does fun d r => d = .none ∧ (r = .ok () ∨ r = .error .cancelled)

theorem Waits.bind {x : Action Unit} {f : Unit → Action α} (h : x.Waits) (hok : (f ()).Does post)
    (hcancelled : post .none (.error .cancelled)) : (x >>= f).Does post := by
  refine Does.bind h (fun d a hd => ?_) fun d e hd => ?_
  · rw [hd.1]
    exact hok.mono fun d' r hr => by rw [Deeds.none_andThen]; exact hr
  · obtain ⟨rfl, hcases⟩ := hd
    rcases hcases with h | h
    · cases h
    · cases h
      exact hcancelled

end Action

namespace Context

variable (c : Context) (mode : Mode)

theorem check_waits : c.check.Waits := by
  refine does_world fun w => ?_
  split
  · exact does_throw ⟨rfl, .inr rfl⟩
  · exact does_pure ⟨rfl, .inl rfl⟩

theorem sleep_waits (millis : Nat) : (c.sleep millis).Waits :=
  Waits.bind (does_lift (Proc.does_pause ⟨rfl, .inl rfl⟩)) c.check_waits ⟨rfl, .inr rfl⟩

theorem sleepIn_waits (millis : Nat) : (c.sleepIn mode millis).Waits := by
  cases mode with
  | blocking => exact does_pure ⟨rfl, .inl rfl⟩
  | asynchronous => exact c.sleep_waits millis

theorem beginIn_waits : (c.beginIn mode).Waits := by
  refine c.check_waits.bind ?_ ⟨rfl, .inr rfl⟩
  cases mode with
  | blocking => exact does_pure ⟨rfl, .inl rfl⟩
  | asynchronous =>
    exact Waits.bind (does_lift (Proc.does_yield ⟨rfl, .inl rfl⟩)) c.check_waits ⟨rfl, .inr rfl⟩

theorem awaitStore_waits : (c.awaitStore mode).Waits := by
  refine does_world fun w => ?_
  cases w.delay with
  | none => exact does_pure ⟨rfl, .inl rfl⟩
  | some millis => exact c.sleepIn_waits mode millis

/-- A reader is read once, unless the context has been cancelled. -/
theorem readRow_does (r : Reader) :
    (c.readRow mode r).Does fun d result => d = .none ∧ (result = r.read ∨ result = .error .cancelled) := by
  refine (c.beginIn_waits mode).bind ?_ ⟨rfl, .inr rfl⟩
  refine (c.awaitStore_waits mode).bind ?_ ⟨rfl, .inr rfl⟩
  exact does_ofExcept ⟨rfl, .inl rfl⟩

end Context

/-! ## Opening a reader -/

/-- What is done to open a reader, and what comes of it. -/
def Deeds.Open (d : Deeds) : Except Error Reader → Prop
  | .ok r => d = ⟨1, 0, []⟩ ∧ r.closed = false
  | .error _ => d = .none

theorem Store.answer_ok {s : Store} {select : Select} {p : Parameters} {r : Reader}
    (h : s.answer select p = .ok r) : r.closed = false := by
  unfold Store.answer at h
  split at h
  · repeat' split at h
    all_goals cases h
    rfl
  · split at h
    · cases h
    · obtain ⟨found, -, h⟩ := Except.bind_eq_ok_iff.1 h
      cases h
      rfl

theorem World.execute_between (w : World) (select : Select) (p : Parameters) :
    ∃ d : Deeds, d.Between w (w.execute select p).2 ∧ d.Open (w.execute select p).1 := by
  unfold World.execute Store.execute
  cases hanswer : w.store.answer select p with
  | ok r => exact ⟨⟨1, 0, []⟩, ⟨rfl, rfl, (List.append_nil _).symm⟩, rfl, Store.answer_ok hanswer⟩
  | error e => exact ⟨.none, ⟨rfl, rfl, (List.append_nil _).symm⟩, rfl⟩

theorem World.command_between (w : World) (cache : Nat) (p : Parameters) :
    Deeds.none.Between w (w.command cache p).2 := by
  unfold World.command
  split
  · exact .refl w
  · exact ⟨rfl, rfl, (List.append_nil _).symm⟩

/-- What one of several tries to open a reader does. -/
def Deeds.Try (d : Deeds) : Except Error (Except Error Reader) → Prop
  | .ok r => d.Open r
  | .error e => d = .none ∧ e = .cancelled

theorem RetryPolicy.attempts_does (p : RetryPolicy) {repeatable : Bool} {operation : Action (Except Error Reader)}
    {sleep : Duration → Action Unit} (hoperation : operation.Does Deeds.Try) (hsleep : ∀ d, (sleep d).Waits)
    (left attempt : Nat) : Does (p.attempts repeatable operation sleep left attempt) Deeds.Try := by
  induction left generalizing attempt with
  | zero => exact hoperation
  | succ left ih =>
    refine hoperation.bind (fun d r hr => ?_) fun d e he => he
    cases r with
    | ok reader => exact does_pure (by rw [Deeds.andThen_none]; exact hr)
    | error e =>
      obtain rfl : d = .none := hr
      simp only [Deeds.none_andThen]
      split
      · exact (hsleep _).bind (ih (attempt + 1)) ⟨rfl, rfl⟩
      · exact does_pure rfl

theorem Strategy.execute_does (s : Strategy) {repeatable : Bool} {operation : Action (Except Error Reader)}
    {sleep : Duration → Action Unit} (hoperation : operation.Does Deeds.Try) (hsleep : ∀ d, (sleep d).Waits) :
    Does (s.execute repeatable operation sleep) Deeds.Try := by
  cases s with
  | once => exact hoperation
  | retrying p => exact p.attempts_does hoperation hsleep _ _

namespace Context

variable (c : Context) (mode : Mode)

theorem executeOnce_does (select : Select) : (c.executeOnce mode select).Does Deeds.Try :=
  (c.awaitStore_waits mode).bind (does_perform fun w => w.execute_between select c.parameters) ⟨rfl, rfl⟩

theorem openReader_does (select : Select) : (c.openReader mode select).Does Deeds.Open := by
  refine (c.beginIn_waits mode).bind ?_ rfl
  refine (c.strategy.execute_does (c.executeOnce_does mode select) fun d => c.sleepIn_waits mode d.millis).bind
    (fun d r hr => ?_) fun d e he => ?_
  · exact does_ofExcept (by rw [Deeds.andThen_none]; exact hr)
  · exact he.1

/-- A reader is opened once, or not at all. -/
theorem openCached_does (cache : Nat) : (c.openCached mode cache).Does Deeds.Open := by
  have hcommand : (tryPerform fun w => w.command cache c.parameters).Does
      fun d _ => d = .none :=
    does_tryPerform fun w => ⟨.none, w.command_between cache c.parameters, rfl⟩
  refine hcommand.bind (fun d command hd => ?_) fun d e he => he
  subst hd
  simp only [Deeds.none_andThen]
  exact c.openReader_does mode command.select

end Context

/-! ## Steps that keep a state -/

/-- A step in the world that keeps a state of its own, also if it fails. -/
abbrev Steps (σ : Type) := ExceptT Error (StateT σ (Proc World))

namespace Steps

variable {σ α β : Type} {s : σ} {post : Deeds → Except Error α → σ → Prop}

/-- What all runs of a step do and come to, and which state they leave. -/
def Does (x : Steps σ α) (s : σ) (post : Deeds → Except Error α → σ → Prop) : Prop :=
  Proc.Does (x.run.run s) fun d (r : Except Error α × σ) => post d r.1 r.2

theorem Does.mono {post' : Deeds → Except Error α → σ → Prop} {x : Steps σ α} (h : Does x s post)
    (himp : ∀ d r s', post d r s' → post' d r s') : Does x s post' :=
  Proc.Does.mono h fun d r => himp d r.1 r.2

theorem Does.bind {post' : Deeds → Except Error β → σ → Prop} {x : Steps σ α} {f : α → Steps σ β} (h : Does x s post)
    (hok : ∀ d a s', post d (.ok a) s' → Does (f a) s' fun d' r s'' => post' (d.andThen d') r s'')
    (herror : ∀ d e s', post d (.error e) s' → post' d (.error e) s') : Does (x >>= f) s post' := by
  refine Proc.Does.bind h fun d r hr => ?_
  obtain ⟨r, s'⟩ := r
  cases r with
  | ok a => exact hok d a s' hr
  | error e => exact Proc.does_pure (by rw [Deeds.andThen_none]; exact herror d e s' hr)

theorem does_pure {a : α} (h : post .none (.ok a) s) : Does (pure a : Steps σ α) s post :=
  Proc.does_pure h

theorem does_throw {e : Error} (h : post .none (.error e) s) : Does (throw e : Steps σ α) s post :=
  Proc.does_pure h

theorem does_get {f : σ → Steps σ α} (h : Does (f s) s post) : Does (get >>= f) s post := h

theorem does_modify {g : σ → σ} {f : Unit → Steps σ α} (h : Does (f ()) (g s) post) : Does (modify g >>= f) s post := h

end Steps

namespace Pull

variable {α : Type} {c : Cursor} {post : Deeds → Except Error α → Cursor → Prop}

theorem does_ofExcept {x : Except Error α} (h : post .none x c) : Steps.Does (Pull.ofExcept x) c post :=
  Proc.does_pure h

theorem does_ofAction {x : Action α} (h : x.Does fun d r => post d r c) : Steps.Does (Pull.ofAction x) c post := by
  refine Proc.Does.bind h fun d r hr => Proc.does_pure ?_
  rw [Deeds.andThen_none]
  exact hr

theorem does_modifyWorld {g : World → World} {post : Deeds → Except Error Unit → Cursor → Prop}
    (hg : ∀ w, Deeds.none.Between w (g w)) (h : post .none (.ok ()) c) : Steps.Does (Pull.modifyWorld g) c post :=
  fun w => ⟨.none, hg w, h⟩

/-- A step of shaping moves no reader. -/
theorem does_shape {x : Shaping α} (h : ∀ s c', c.Like c' → post .none (x.run.run s).1 c') :
    Steps.Does (Pull.shape x) c post := by
  have hrun : (Pull.shape x).run.run c = Proc.modifyGet fun w => c.shape w x := rfl
  rw [Steps.Does, hrun]
  refine Proc.does_modifyGet fun w => ⟨.none, ?_⟩
  have hkeep (c' : Cursor) (w' : World) (known : Option IdentityMap) :
      c'.Like (c'.keepKnown w' known).1 ∧ (c'.keepKnown w' known).2.store = w'.store ∧
        (c'.keepKnown w' known).2.events = w'.events := by
    unfold Cursor.keepKnown
    cases known with
    | none => exact ⟨.refl c', rfl, rfl⟩
    | some known => cases c'.identity <;> exact ⟨⟨rfl, rfl, rfl, rfl⟩, rfl, rfl⟩
  obtain ⟨hlike, hstore, hevents⟩ := hkeep
    { c with nextSlot := (x.run.run ⟨w.graph, c.known w, c.nextSlot⟩).2.nextSlot }
    { w with graph := (x.run.run ⟨w.graph, c.known w, c.nextSlot⟩).2.graph }
    (x.run.run ⟨w.graph, c.known w, c.nextSlot⟩).2.known
  refine ⟨⟨?_, ?_, ?_⟩, h ⟨w.graph, c.known w, c.nextSlot⟩ _ ⟨hlike.reader, hlike.splits, hlike.ahead, hlike.exhausted⟩⟩
  · exact congrArg (fun store => store.counters.opened) hstore
  · exact congrArg (fun store => store.counters.closed) hstore
  · exact (congrArg Array.toList hevents).trans (List.append_nil _).symm

end Pull

end QueryShaping
