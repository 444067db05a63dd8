import QueryShaping.Proofs.Execution.LoadingSteps

/-!
# What computations leave alone

To open a reader or to read a row changes the store and the commands and nothing else. A view of the world that does not
show these is therefore the same at every point at which such a computation waits, and when it ends.
-/

namespace QueryShaping

/-- A view of the world that shows neither the store nor the commands. -/
structure World.Aside {V : Type} (view : World → V) : Prop where
  store : ∀ w s, view { w with store := s } = view w
  commands : ∀ w c, view { w with commands := c } = view w

namespace Progress

variable {V α β : Type} {view : World → V} {ends ends' : α → V → V → Prop} {w : World}

/-- A computation that leaves a view of the world alone while it goes on. In the end the view has changed like this. -/
def Keeps (view : World → V) (ends : α → V → V → Prop) : Progress World α → World → Prop
  | .done a w', w => ends a (view w) (view w')
  | .wait _ w' resume, w => view w' = view w ∧ ∀ found, (resume found).Keeps view ends found

theorem Keeps.congr {p : Progress World α} {w' : World} (h : p.Keeps view ends w) (hw : view w = view w') :
    p.Keeps view ends w' := by
  cases p with
  | done a left => rwa [Keeps, ← hw]
  | wait _ left resume => exact ⟨h.1.trans hw, h.2⟩

theorem Keeps.mono {p : Progress World α} (h : p.Keeps view ends w) (himp : ∀ a v v', ends a v v' → ends' a v v') :
    p.Keeps view ends' w := by
  induction p generalizing w with
  | done a left => exact himp a _ _ h
  | wait _ left resume ih => exact ⟨h.1, fun found => ih found (h.2 found)⟩

theorem Keeps.bind {p : Progress World α} {f : α → World → Progress World β} {P : α → Prop} {ends : β → V → V → Prop}
    (h : p.Keeps view (fun a v v' => v' = v ∧ P a) w) (hf : ∀ a w', P a → (f a w').Keeps view ends w') :
    (p.bind f).Keeps view ends w := by
  induction p generalizing w with
  | done a left => exact (hf a left h.2).congr h.1
  | wait _ left resume ih => exact ⟨h.1, fun found => ih found (h.2 found)⟩

/-- What comes after the end must not wait. -/
theorem Keeps.andThen {p : Progress World α} {f : α → World → Progress World β} {ends' : β → V → V → Prop}
    (h : p.Keeps view ends w)
    (hf : ∀ a w', ∃ b w'', f a w' = .done b w'' ∧ ∀ v, ends a v (view w') → ends' b v (view w'')) :
    (p.bind f).Keeps view ends' w := by
  induction p generalizing w with
  | done a left =>
    obtain ⟨b, w'', hdone, hends⟩ := hf a left
    have hbind : Progress.bind (.done a left) f = .done b w'' := hdone
    rw [hbind]
    exact hends _ h
  | wait _ left resume ih => exact ⟨h.1, fun found => ih found (h.2 found)⟩

end Progress

namespace Proc

variable {V α β : Type} {view : World → V} {P : α → Prop}

/-- A computation that leaves a view of the world alone and gives a value like this. -/
def Leaves (view : World → V) (P : α → Prop) (x : Proc World α) : Prop :=
  ∀ w, (x w).Keeps view (fun a v v' => v' = v ∧ P a) w

theorem Leaves.bind {x : Proc World α} {f : α → Proc World β} {Q : β → Prop} (h : x.Leaves view P)
    (hf : ∀ a, P a → (f a).Leaves view Q) : (x >>= f).Leaves view Q :=
  fun w => (h w).bind fun a w' ha => hf a ha w'

theorem leaves_pure {a : α} (h : P a) : (pure a : Proc World α).Leaves view P := fun _ => ⟨rfl, h⟩

theorem leaves_get : (get : Proc World World).Leaves view fun _ => True := fun _ => ⟨rfl, trivial⟩

theorem leaves_modifyGet {f : World → α × World} (h : ∀ w, view (f w).2 = view w ∧ P (f w).1) :
    (modifyGet f).Leaves view P := h

theorem leaves_modify {f : World → World} (h : ∀ w, view (f w) = view w) : (modify f).Leaves view fun _ => True :=
  fun w => ⟨h w, trivial⟩

theorem leaves_pause (millis : Nat) (wakes : World → Bool) : (pause millis wakes).Leaves view fun _ => True :=
  fun _ => ⟨rfl, fun _ => ⟨rfl, trivial⟩⟩

theorem leaves_yield : (yield : Proc World Unit).Leaves view fun _ => True :=
  fun _ => ⟨rfl, fun _ => ⟨rfl, trivial⟩⟩

end Proc

namespace Action

variable {V α β : Type} {view : World → V}

def Leaves (view : World → V) (x : Action α) : Prop := Proc.Leaves view (fun _ => True) x.run

theorem Leaves.bind {x : Action α} {f : α → Action β} (h : x.Leaves view) (hf : ∀ a, (f a).Leaves view) :
    (x >>= f).Leaves view := by
  refine Proc.Leaves.bind h fun r _ => ?_
  cases r with
  | ok a => exact hf a
  | error e => exact Proc.leaves_pure trivial

theorem leaves_pure (a : α) : (pure a : Action α).Leaves view := Proc.leaves_pure trivial

theorem leaves_throw (e : Error) : (throw e : Action α).Leaves view := Proc.leaves_pure trivial

theorem leaves_lift {x : Proc World α} (h : x.Leaves view fun _ => True) : Action.Leaves view (ExceptT.lift x) :=
  Proc.Leaves.bind h fun _ _ => Proc.leaves_pure trivial

theorem leaves_world : Action.world.Leaves view := leaves_lift Proc.leaves_get

end Action

namespace Context

variable {V : Type} {view : World → V} (c : Context) (mode : Mode)

theorem check_leaves : c.check.Leaves view := by
  refine Action.leaves_world.bind fun w => ?_
  split
  · exact Action.leaves_throw _
  · exact Action.leaves_pure _

theorem sleepIn_leaves (millis : Nat) : (c.sleepIn mode millis).Leaves view := by
  cases mode with
  | blocking => exact Action.leaves_pure _
  | asynchronous => exact (Action.leaves_lift (Proc.leaves_pause _ _)).bind fun _ => c.check_leaves

theorem beginIn_leaves : (c.beginIn mode).Leaves view := by
  refine c.check_leaves.bind fun _ => ?_
  cases mode with
  | blocking => exact Action.leaves_pure _
  | asynchronous => exact (Action.leaves_lift Proc.leaves_yield).bind fun _ => c.check_leaves

theorem awaitStore_leaves : (c.awaitStore mode).Leaves view := by
  refine Action.leaves_world.bind fun w => ?_
  cases w.delay with
  | none => exact Action.leaves_pure _
  | some millis => exact c.sleepIn_leaves mode millis

theorem readRow_leaves (r : Reader) : (c.readRow mode r).Leaves view :=
  (c.beginIn_leaves mode).bind fun _ => (c.awaitStore_leaves mode).bind fun _ => Proc.leaves_pure trivial

theorem executeOnce_leaves (hview : World.Aside view) (select : Select) : (c.executeOnce mode select).Leaves view :=
  (c.awaitStore_leaves mode).bind fun _ =>
    Action.leaves_lift (Proc.leaves_modifyGet fun w => ⟨hview.store w _, trivial⟩)

end Context

theorem RetryPolicy.attempts_leaves {V α : Type} {view : World → V} (p : RetryPolicy) {repeatable : Bool}
    {operation : Action (Except Error α)} {sleep : Duration → Action Unit} (hoperation : operation.Leaves view)
    (hsleep : ∀ d, (sleep d).Leaves view) (left attempt : Nat) :
    Action.Leaves view (p.attempts repeatable operation sleep left attempt) := by
  induction left generalizing attempt with
  | zero => exact hoperation
  | succ left ih =>
    refine hoperation.bind fun r => ?_
    cases r with
    | ok a => exact Action.leaves_pure _
    | error e =>
      dsimp only
      split
      · exact (hsleep _).bind fun _ => ih (attempt + 1)
      · exact Action.leaves_pure _

theorem Context.openCached_leaves {V : Type} {view : World → V} (c : Context) (mode : Mode) (hview : World.Aside view)
    (cache : Nat) : (c.openCached mode cache).Leaves view := by
  have hcommand (w : World) : view (w.command cache c.parameters).2 = view w := by
    unfold World.command
    split
    · rfl
    · exact hview.commands w _
  refine Action.Leaves.bind (x := Action.tryPerform fun w => w.command cache c.parameters)
    (Proc.leaves_modifyGet fun w => ⟨hcommand w, trivial⟩) fun command => (c.beginIn_leaves mode).bind fun _ => ?_
  refine Action.Leaves.bind ?_ fun r => Proc.leaves_pure trivial
  cases c.strategy with
  | once => exact c.executeOnce_leaves mode hview command.select
  | retrying p =>
    exact p.attempts_leaves (c.executeOnce_leaves mode hview command.select) (fun d => c.sleepIn_leaves mode _) _ _

namespace Pull

variable {V U α β : Type} {view : World → V} {aspect : Cursor → U}

/-- A step that leaves a view of the world and an aspect of the cursor alone. -/
def Leaves (view : World → V) (aspect : Cursor → U) (x : Pull α) : Prop :=
  ∀ c, Proc.Leaves view (fun r => aspect r.2 = aspect c) (x.run.run c)

theorem Leaves.bind {x : Pull α} {f : α → Pull β} (h : x.Leaves view aspect) (hf : ∀ a, (f a).Leaves view aspect) :
    (x >>= f).Leaves view aspect := by
  intro c
  refine Proc.Leaves.bind (h c) fun r hr => ?_
  obtain ⟨r, c'⟩ := r
  have hc' : aspect c' = aspect c := hr
  cases r with
  | ok a => exact hc' ▸ hf a c'
  | error e => exact Proc.leaves_pure hr

theorem leaves_ofAction {x : Action α} (h : x.Leaves view) : (Pull.ofAction x).Leaves view aspect :=
  fun _ => Proc.Leaves.bind h fun _ _ => Proc.leaves_pure rfl

theorem leaves_modify {g : Cursor → Cursor} (h : ∀ c, aspect (g c) = aspect c) :
    Leaves view aspect (modify g : Pull PUnit) :=
  fun c _ => ⟨rfl, h c⟩

/-- Reading leaves alone what shows no more of the cursor than where its rows go. -/
theorem readClosed_leaves (f : Fetch) (hview : World.Aside view) (haspect : ∀ c id r, aspect (c.setSplit id r) = aspect c) :
    f.loader.ReadClosed fun _ x => x.Leaves view aspect where
  pure _ _ := Proc.leaves_pure rfl
  bind h hg := h.bind hg
  ofExcept _ _ := Proc.leaves_pure rfl
  get _ := Proc.leaves_pure rfl
  setSplit id r := leaves_modify fun c => haspect c id r
  openSplit id := by
    show (f.openSplit id).Leaves view aspect
    unfold Fetch.openSplit
    cases f.splits.lookup id with
    | none => exact fun _ => Proc.leaves_pure rfl
    | some cache => exact leaves_ofAction (f.context.openCached_leaves f.mode hview cache)
  read _ r := leaves_ofAction (f.context.readRow_leaves f.mode r)

end Pull

end QueryShaping
