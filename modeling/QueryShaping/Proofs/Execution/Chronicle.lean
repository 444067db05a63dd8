import QueryShaping.Proofs.Execution.LoadingSteps
import QueryShaping.Proofs.Shaping.Decodings

/-!
# Enumerating with a list of decodings

Enumerations that share a world make entities in it by turns. To say which decoding of an entity was the first one, the
world is given a list of all decodings, to which the steps of shaping add.

The list has no influence: a computation over the world with the list waits where the computation over the world alone
does, and leaves the same world and the same value. This is what `Forgets` says at each level.
-/

namespace QueryShaping

/-- A world with the decodings of all enumerations so far, in order. -/
structure Chronicle where
  world : World
  decodings : List Decoding

/-- A computation that decodes nothing. While it waits others may. -/
def Progress.carry {α : Type} : Progress World α → List Decoding → Progress Chronicle α
  | .done a w, decodings => .done a ⟨w, decodings⟩
  | .wait ⟨millis, wakes, cost⟩ w resume, decodings =>
    .wait ⟨millis, fun ch => wakes ch.world, cost⟩ ⟨w, decodings⟩ fun ch => (resume ch.world).carry ch.decodings

def Proc.carried {α : Type} (x : Proc World α) : Proc Chronicle α :=
  fun ch => (x ch.world).carry ch.decodings

/-- A step of a cursor that notes the decodings. -/
abbrev Recorded := ExceptT Error (StateT Cursor (Proc Chronicle))

/-- Carries out a step of shaping on the entities of the world. -/
def Cursor.shapeRecorded {α : Type} (c : Cursor) (ch : Chronicle) (x : Recording α) :
    (Except Error α × Cursor) × Chronicle :=
  let (result, s) := x.run.run ⟨⟨ch.world.graph, c.known ch.world, c.nextSlot⟩, ch.decodings⟩
  let (c, w) := Cursor.keepKnown { c with nextSlot := s.state.nextSlot } { ch.world with graph := s.state.graph }
    s.state.known
  ((result, c), ⟨w, s.decodings⟩)

namespace Recorded

variable {α : Type}

/-- A step that decodes nothing. -/
def ofPull (x : Pull α) : Recorded α := ExceptT.mk fun c => Proc.carried (x.run.run c)

def shape (x : Recording α) : Recorded α :=
  ExceptT.mk fun c => Proc.modifyGet fun ch => c.shapeRecorded ch x

/-- Loading with a list of decodings. -/
def loader (scope : ScopeName) (f : Fetch) : Loader Recording Recorded where
  shaper := Recording.shaper scope
  step := ofPull
  openSplit id := ofPull (f.loader.openSplit id)
  read name r := ofPull (f.loader.read name r)
  look name x := ofPull (f.loader.look name x)
  shape _ x := shape x

end Recorded

/-- The scope in which an enumeration resolves identity. It is told from others by its place. -/
def Enumeration.scopeName (e : Enumeration) (place : Nat) : ScopeName :=
  match e.query.options.tracking with
  | .none => .nowhere
  | .identityResolution => .within place
  | .trackAll => .manager e.context.manager

/-- Pulling with a list of decodings. -/
def Puller.recorded (place : Nat) : Puller (Proc Chronicle) where
  step := Proc.carried
  openCursor e := Proc.carried e.openCursor.run
  next e c := (e.query.program.next (Recorded.loader (e.scopeName place) e.fetch)).run.run c

/-! ## Forgetting the decodings -/

/-- A computation that is another one if the decodings are forgotten. -/
inductive Progress.Forgets {α : Type} : Progress Chronicle α → Progress World α → Prop
  | done (a : α) (ch : Chronicle) : Forgets (.done a ch) (.done a ch.world)
  | wait (millis : Nat) (wakes : World → Bool) (cost : Nat) (ch : Chronicle) {resume : Chronicle → Progress Chronicle α}
      {resume' : World → Progress World α} (h : ∀ found : Chronicle, Forgets (resume found) (resume' found.world)) :
      Forgets (.wait ⟨millis, fun ch => wakes ch.world, cost⟩ ch resume) (.wait ⟨millis, wakes, cost⟩ ch.world resume')

theorem Progress.Forgets.bind {α β : Type} {p : Progress Chronicle α} {q : Progress World α}
    {f : α → Chronicle → Progress Chronicle β} {g : α → World → Progress World β} (h : p.Forgets q)
    (hf : ∀ a ch, (f a ch).Forgets (g a ch.world)) : (p.bind f).Forgets (q.bind g) := by
  induction h with
  | done a ch => exact hf a ch
  | wait millis wakes cost ch _ ih => exact .wait millis wakes cost ch ih

theorem Progress.carry_forgets {α : Type} (p : Progress World α) (decodings : List Decoding) :
    (p.carry decodings).Forgets p := by
  induction p generalizing decodings with
  | done a w => exact .done a ⟨w, decodings⟩
  | wait v w resume ih =>
    exact .wait v.millis v.wakes v.cost ⟨w, decodings⟩ fun found => ih found.world found.decodings

namespace Proc

variable {α β : Type}

def Forgets (x : Proc Chronicle α) (y : Proc World α) : Prop := ∀ ch, (x ch).Forgets (y ch.world)

theorem Forgets.bind {x : Proc Chronicle α} {y : Proc World α} {f : α → Proc Chronicle β} {g : α → Proc World β}
    (h : x.Forgets y) (hf : ∀ a, (f a).Forgets (g a)) : (x >>= f).Forgets (y >>= g) :=
  fun ch => (h ch).bind fun a ch' => hf a ch'

theorem forgets_pure (a : α) : (pure a : Proc Chronicle α).Forgets (pure a) := fun ch => .done a ch

theorem forgets_carried (y : Proc World α) : y.carried.Forgets y := fun ch => Progress.carry_forgets _ ch.decodings

end Proc

namespace Recorded

variable {α β : Type}

def Forgets (x : Recorded α) (y : Pull α) : Prop := ∀ c, Proc.Forgets (x.run.run c) (y.run.run c)

theorem Forgets.bind {x : Recorded α} {y : Pull α} {f : α → Recorded β} {g : α → Pull β} (h : x.Forgets y)
    (hf : ∀ a, (f a).Forgets (g a)) : Forgets (x >>= f) (y >>= g) := by
  intro c
  refine Proc.Forgets.bind (h c) fun r => ?_
  obtain ⟨r, c'⟩ := r
  cases r with
  | ok a => exact hf a c'
  | error e => exact Proc.forgets_pure _

theorem forgets_pure (a : α) : Forgets (pure a) (pure a) := fun _ => Proc.forgets_pure _

theorem forgets_ofPull (y : Pull α) : (ofPull y).Forgets y := fun _ => Proc.forgets_carried _

theorem forgets_shape {x : Recording α} {y : Shaping α} (h : x.Forgets y) : (shape x).Forgets (Pull.shape y) := by
  intro c ch
  have hshape : c.shape ch.world y = ((c.shapeRecorded ch x).1, (c.shapeRecorded ch x).2.world) := by
    unfold Cursor.shape Cursor.shapeRecorded
    dsimp only
    rw [← h ⟨⟨ch.world.graph, c.known ch.world, c.nextSlot⟩, ch.decodings⟩]
    rfl
  show Progress.Forgets (.done (c.shapeRecorded ch x).1 (c.shapeRecorded ch x).2)
    (.done (c.shape ch.world y).1 (c.shape ch.world y).2)
  rw [hshape]
  exact .done _ _

/-- Loading with a list of decodings is loading. -/
theorem related_loader (scope : ScopeName) (f : Fetch) :
    (loader scope f).Related f.loader (fun _ x y => x.Forgets y) fun _ x y => x.Forgets y where
  pure := forgets_pure
  bind h hf := h.bind hf
  ofExcept _ := forgets_ofPull _
  get := forgets_ofPull get
  setSplit _ _ := forgets_ofPull _
  openSplit _ := forgets_ofPull _
  read _ _ := forgets_ofPull _
  shaper := Recording.related_shaper scope
  look _ _ := forgets_ofPull _
  shape _ _ _ h := forgets_shape h
  modify _ := forgets_ofPull _
  attach _ := forgets_ofPull _

end Recorded

/-- Pulling with a list of decodings is pulling. -/
theorem Puller.related_recorded (place : Nat) : (recorded place).Related .plain fun _ x y => x.Forgets y where
  pure := Proc.forgets_pure
  bind h hf := h.bind hf
  step := Proc.forgets_carried
  openCursor _ := Proc.forgets_carried _
  next e c := (Recorded.related_loader (e.scopeName place) e.fetch).next e.query.program c

end QueryShaping
