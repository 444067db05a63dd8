import QueryShaping.Execution.Enumeration
import QueryShaping.Proofs.Shaping.ShapingSteps

/-!
# The steps that loading is made of

Loading opens readers, reads rows, shapes what it finds and keeps readers in the cursor, over and over. What relates these
steps of two ways of loading, and two steps in a row if it relates each, relates loading as a whole. The induction over
the program is done here once.

A property of the steps of one way of loading is a relation that takes no notice of the other side.
-/

namespace QueryShaping

theorem Proc.bind_of_done {α β : Type} {x : Proc World α} {f : α → Proc World β} {w w' : World} {a : α}
    (h : x w = .done a w') : (x >>= f) w = f a w' :=
  congrArg (Progress.bind · f) h

namespace Loader

variable {n m n' m' : Type → Type} [Monad m] [Monad m'] (l : Loader n m) (l' : Loader n' m')
  (S : (α : Type) → n α → n' α → Prop) (R : (α : Type) → m α → m' α → Prop)

/-- A relation between steps that need no reader. -/
structure StepRelated : Prop where
  pure : ∀ {α : Type} (a : α), R α (pure a) (pure a)
  bind : ∀ {α β : Type} {x : m α} {y : m' α} {f : α → m β} {g : α → m' β},
    R α x y → (∀ a, R β (f a) (g a)) → R β (x >>= f) (y >>= g)
  ofExcept : ∀ {α : Type} (x : Except Error α), R α (l.step (Pull.ofExcept x)) (l'.step (Pull.ofExcept x))
  get : R Cursor (l.step get) (l'.step get)

/-- A relation between the steps of reading from queries of their own. -/
structure ReadRelated : Prop extends StepRelated l l' R where
  setSplit : ∀ id r, R PUnit (l.step (modify fun c => c.setSplit id r)) (l'.step (modify fun c => c.setSplit id r))
  openSplit : ∀ id, R Reader (l.openSplit id) (l'.openSplit id)
  read : ∀ name r, R (Bool × Reader) (l.read name r) (l'.read name r)

section Reading

variable {l l' R}

namespace ReadRelated

theorem splitReader (h : l.ReadRelated l' R) (id : Nat) : R SplitReader (l.splitReader id) (l'.splitReader id) := by
  refine h.bind h.get fun c => ?_
  cases c.splits.lookup id with
  | some r => exact h.pure r
  | none => exact h.bind (h.openSplit id) fun _ => h.bind (h.setSplit id _) fun _ => h.pure _

theorem nextRow? (h : l.ReadRelated l' R) (id : Nat) : R (Option Reader) (l.nextRow? id) (l'.nextRow? id) := by
  refine h.bind (h.splitReader id) fun r => ?_
  cases r.exhausted with
  | true => exact h.pure _
  | false =>
    cases r.ahead with
    | true => exact h.pure _
    | false => exact h.bind (h.read _ r.reader) fun found => h.bind (h.setSplit id _) fun _ => h.pure _

theorem take (h : l.ReadRelated l' R) (id : Nat) : R Unit (l.take id) (l'.take id) := by
  refine h.bind h.get fun c => ?_
  cases c.splits.lookup id with
  | some r => exact h.setSplit id _
  | none => exact h.ofExcept (.error _)

end ReadRelated

end Reading

variable [Monad n] [Monad n']

/-- A relation between the steps of loading from queries of their own, with another one between those of shaping. -/
structure SplitRelated : Prop extends ReadRelated l l' R where
  shaper : l.shaper.Related l'.shaper S
  look : ∀ {α : Type} name (x : Except Error α), R α (l.look name x) (l'.look name x)
  shape : ∀ {α : Type} name {x : n α} {y : n' α}, S α x y → R α (l.shape name x) (l'.shape name y)

/-- A relation between all steps of loading. -/
structure Related : Prop extends SplitRelated l l' S R where
  modify : ∀ f : Cursor → Cursor, R PUnit (l.step (modify f)) (l'.step (modify f))
  attach : ∀ d : Draft, R Unit (l.step (Pull.modifyWorld fun w => { w with graph := w.graph.attach d }))
    (l'.step (Pull.modifyWorld fun w => { w with graph := w.graph.attach d }))

/-- A relation between the ways of filling slots that keeps to how elements are loaded. -/
def SlotRelated : Prop :=
  ∀ (id : Nat) (parent child : List Binding) (element : Node) {load : Draft → m Draft} {load' : Draft → m' Draft}
    (s : Slot), (∀ d, R Draft (load d) (load' d)) →
      R Slot (l.loadSlot id parent child (element.decode l.shaper) load s)
        (l'.loadSlot id parent child (element.decode l'.shaper) load' s)

variable {l l' S R}

section Again

variable {again : LoadAgain m} {again' : LoadAgain m'}

mutual

theorem StepRelated.loadSplit (h : l.StepRelated l' R) (hslot : l.SlotRelated l' R)
    (hagain : ∀ id s, R Slot (again id s) (again' id s)) :
    ∀ (node : Node) (d : Draft), R Draft (node.loadSplit l again d) (node.loadSplit l' again' d)
  | .scalar _, d => h.pure d
  | .entity e, d => StepRelated.loadSplitEntity h hslot hagain e d
  | .collection c, d => by
    cases d with
    | collection s => exact h.bind (StepRelated.loadSplitPlace h hslot hagain c s) fun _ => h.pure _
    | null | scalar | entity | record => exact h.ofExcept (.error _)
  | .record members, d => by
    cases d with
    | record ds => exact h.bind (StepRelated.loadSplitMembers h hslot hagain members ds) fun _ => h.pure _
    | null | scalar | entity | collection => exact h.ofExcept (.error _)

theorem StepRelated.loadSplitEntity (h : l.StepRelated l' R) (hslot : l.SlotRelated l' R)
    (hagain : ∀ id s, R Slot (again id s) (again' id s)) :
    ∀ (e : EntityNode) (d : Draft), R Draft (e.loadSplit l again d) (e.loadSplit l' again' d)
  | ⟨_, _, _, references, collections, _⟩, d => by
    cases d with
    | entity id ds slots =>
      refine h.bind (StepRelated.loadSplitReferences h hslot hagain references ds) fun _ => ?_
      exact h.bind (StepRelated.loadSplitAll h hslot hagain collections slots) fun _ => h.pure _
    | null => exact h.pure _
    | scalar | record | collection => exact h.ofExcept (.error _)

theorem StepRelated.loadSplitPlace (h : l.StepRelated l' R) (hslot : l.SlotRelated l' R)
    (hagain : ∀ id s, R Slot (again id s) (again' id s)) :
    ∀ (c : CollectionPlace) (s : Slot), R Slot (c.loadSplit l again s) (c.loadSplit l' again' s)
  | .here c, s => StepRelated.loadSplitCollection h hslot hagain c s
  | .again id _, s => hagain id s

theorem StepRelated.loadSplitCollection (h : l.StepRelated l' R) (hslot : l.SlotRelated l' R)
    (hagain : ∀ id s, R Slot (again id s) (again' id s)) :
    ∀ (c : CollectionNode) (s : Slot), R Slot (c.loadSplit l again s) (c.loadSplit l' again' s)
  | ⟨_, _, _, _, _, _, none⟩, _ => h.ofExcept (.error _)
  | ⟨_, _, _, _, _, element, some _⟩, s =>
    hslot _ _ _ element s fun d => StepRelated.loadSplit h hslot hagain element d

theorem StepRelated.loadSplitMembers (h : l.StepRelated l' R) (hslot : l.SlotRelated l' R)
    (hagain : ∀ id s, R Slot (again id s) (again' id s)) :
    ∀ (members : List (String × Node)) (ds : List (String × Draft)),
      R _ (Node.loadSplitMembers l again members ds) (Node.loadSplitMembers l' again' members ds)
  | [], [] => h.pure _
  | [], _ :: _ | _ :: _, [] => h.ofExcept (.error _)
  | (_, member) :: rest, (_, d) :: ds =>
    h.bind (StepRelated.loadSplit h hslot hagain member d) fun _ =>
      h.bind (StepRelated.loadSplitMembers h hslot hagain rest ds) fun _ => h.pure _

theorem StepRelated.loadSplitReferences (h : l.StepRelated l' R) (hslot : l.SlotRelated l' R)
    (hagain : ∀ id s, R Slot (again id s) (again' id s)) :
    ∀ (references : List (String × EntityNode)) (ds : List Draft),
      R _ (EntityNode.loadSplitReferences l again references ds) (EntityNode.loadSplitReferences l' again' references ds)
  | [], [] => h.pure _
  | [], _ :: _ | _ :: _, [] => h.ofExcept (.error _)
  | (_, target) :: rest, d :: ds =>
    h.bind (StepRelated.loadSplitEntity h hslot hagain target d) fun _ =>
      h.bind (StepRelated.loadSplitReferences h hslot hagain rest ds) fun _ => h.pure _

theorem StepRelated.loadSplitAll (h : l.StepRelated l' R) (hslot : l.SlotRelated l' R)
    (hagain : ∀ id s, R Slot (again id s) (again' id s)) :
    ∀ (collections : List (String × CollectionPlace)) (slots : List Slot),
      R _ (CollectionPlace.loadSplitAll l again collections slots) (CollectionPlace.loadSplitAll l' again' collections slots)
  | [], [] => h.pure _
  | [], _ :: _ | _ :: _, [] => h.ofExcept (.error _)
  | (_, c) :: rest, s :: slots =>
    h.bind (StepRelated.loadSplitPlace h hslot hagain c s) fun _ =>
      h.bind (StepRelated.loadSplitAll h hslot hagain rest slots) fun _ => h.pure _

end

end Again

namespace StepRelated

theorem loadAgainWith (h : l.StepRelated l' R) (hslot : l.SlotRelated l' R) (p : Program) {anew : LoadAgain m}
    {anew' : LoadAgain m'} (hanew : ∀ id s, R Slot (anew id s) (anew' id s)) (rows id : Nat) (s : Slot) :
    R Slot (p.loadAgainWith l anew rows id s) (p.loadAgainWith l' anew' rows id s) := by
  induction rows generalizing id s with
  | zero => exact hanew id s
  | succ rows ih => exact h.bind (h.ofExcept _) fun c => h.loadSplitCollection hslot ih c s

theorem loadAgain (h : l.StepRelated l' R) (hslot : l.SlotRelated l' R) (p : Program) (unopened id : Nat) (s : Slot) :
    R Slot (p.loadAgain l unopened id s) (p.loadAgain l' unopened id s) := by
  induction unopened generalizing id s with
  | zero => exact h.pure s
  | succ unopened ih => exact h.bind h.get fun c => h.loadAgainWith hslot p ih _ id s

/-- What relates the ways of filling slots relates loading from queries of their own. -/
theorem loadRoot (h : l.StepRelated l' R) (hslot : l.SlotRelated l' R) (p : Program) (d : Draft) :
    R Draft (p.root.loadSplit l (p.loadAgain l (p.collections.length + 1)) d)
      (p.root.loadSplit l' (p.loadAgain l' (p.collections.length + 1)) d) :=
  h.loadSplit hslot (h.loadAgain hslot p _) p.root d

end StepRelated

namespace SplitRelated

theorem fillSlot (h : l.SplitRelated l' S R) {id : Nat} {parent child : List Binding} {decode : Reader → n Draft}
    {decode' : Reader → n' Draft} {load : Draft → m Draft} {load' : Draft → m' Draft}
    (hdecode : ∀ reader, S Draft (decode reader) (decode' reader)) (hload : ∀ d, R Draft (load d) (load' d)) (fuel : Nat)
    (s : Slot) :
    R Slot (l.fillSlot id parent child decode load fuel s) (l'.fillSlot id parent child decode' load' fuel s) := by
  induction fuel generalizing s with
  | zero => exact h.pure s
  | succ fuel ih =>
    refine h.bind (h.nextRow? id) fun row => ?_
    cases row with
    | none => exact h.pure s
    | some reader =>
      refine h.bind (h.look _ _) fun key => ?_
      split
      · refine h.bind (h.take id) fun _ => ?_
        refine h.bind (h.shape _ (h.shaper.element? s child reader (hdecode reader))) fun element => ?_
        cases element with
        | none => exact ih s
        | some found => exact h.bind (hload found.2) fun d => ih _
      · exact h.pure s

theorem slotRelated (h : l.SplitRelated l' S R) : l.SlotRelated l' R :=
  fun id _ _ element _ _ s hload => h.bind (h.splitReader id) fun _ => h.fillSlot (h.shaper.decode element) hload _ s

/-- What relates each step relates loading from queries of their own. -/
theorem load (h : l.SplitRelated l' S R) {p : Program} (hsplit : p.hasSplit) (d : Draft) :
    R Draft (p.load l d) (p.load l' d) := by
  unfold Program.load
  split
  · exact h.pure d
  · exact h.loadRoot h.slotRelated p d

end SplitRelated

namespace Related

theorem readRow (h : l.Related l' S R) : R Bool l.readRow l'.readRow :=
  h.bind h.get fun c => h.bind (h.read _ c.reader) fun _ => h.bind (h.modify _) fun _ => h.pure _

theorem loadJoined (h : l.Related l' S R) (node : Node) (fuel : Nat) (d : Draft) :
    R Draft (node.loadJoined l fuel d) (node.loadJoined l' fuel d) := by
  induction fuel generalizing d with
  | zero => exact h.pure d
  | succ fuel ih =>
    refine h.bind h.get fun c => h.bind (h.shape _ (h.shaper.consume node d _)) fun d => h.bind h.readRow fun found => ?_
    cases found with
    | false => exact h.bind (h.modify _) fun _ => h.pure _
    | true =>
      refine h.bind h.get fun c => h.bind (h.look _ _) fun same => ?_
      cases same with
      | true => exact ih d
      | false => exact h.bind (h.modify _) fun _ => h.pure _

theorem load (h : l.Related l' S R) (p : Program) (d : Draft) : R Draft (p.load l d) (p.load l' d) := by
  by_cases hsplit : p.hasSplit = true
  · exact h.toSplitRelated.load hsplit d
  · unfold Program.load
    split
    · exact h.pure d
    · exact h.bind h.get fun c => h.loadJoined _ _ d

theorem nextValue (h : l.Related l' S R) : R Bool l.nextValue l'.nextValue := by
  refine h.bind h.get fun c => h.bind (h.modify fun _ => { c with ahead := false, nextSlot := 0 }) fun _ => ?_
  cases c.ahead with
  | true => exact h.pure _
  | false =>
    cases c.exhausted with
    | true => exact h.pure _
    | false => exact h.readRow

/-- What relates each step relates shaping the next value. -/
theorem next (h : l.Related l' S R) (p : Program) : R (Option Result) (p.next l) (p.next l') := by
  refine h.bind h.nextValue fun found => ?_
  cases found with
  | false => exact h.pure _
  | true =>
    refine h.bind ?_ fun v => h.pure _
    refine h.bind h.get fun c => h.bind (h.shape _ (h.shaper.decode _ _)) fun d => h.bind (h.load p d) fun d => ?_
    exact h.bind (h.attach d) fun _ => h.pure _

end Related

/-- A property of the steps of reading from queries of their own. -/
abbrev ReadClosed {n m : Type → Type} [Monad m] (l : Loader n m) (P : (α : Type) → m α → Prop) : Prop :=
  l.ReadRelated l fun α x _ => P α x

/-- A property of the steps of loading from queries of their own. -/
abbrev SplitClosed (l : Loader n m) (P : (α : Type) → m α → Prop) : Prop :=
  l.SplitRelated l (fun _ _ _ => True) fun α x _ => P α x

/-- A property of all steps of loading. -/
abbrev Closed (l : Loader n m) (P : (α : Type) → m α → Prop) : Prop :=
  l.Related l (fun _ _ _ => True) fun α x _ => P α x

end Loader

/-! ## The steps that a pull is made of -/

namespace Puller

variable {m m' : Type → Type} [Monad m] [Monad m'] {k : Puller m} {k' : Puller m'} {R : (α : Type) → m α → m' α → Prop}

/-- A relation between the steps of two ways of pulling. -/
structure Related (k : Puller m) (k' : Puller m') (R : (α : Type) → m α → m' α → Prop) : Prop where
  pure : ∀ {α : Type} (a : α), R α (pure a) (pure a)
  bind : ∀ {α β : Type} {x : m α} {y : m' α} {f : α → m β} {g : α → m' β},
    R α x y → (∀ a, R β (f a) (g a)) → R β (x >>= f) (y >>= g)
  step : ∀ {α : Type} (x : Proc World α), R α (k.step x) (k'.step x)
  openCursor : ∀ e, R _ (k.openCursor e) (k'.openCursor e)
  next : ∀ e c, R _ (k.next e c) (k'.next e c)

namespace Related

theorem advance (h : k.Related k' R) (e : Enumeration) (c : Cursor) : R _ (e.advance k c) (e.advance k' c) :=
  h.bind (h.next e c) fun _ => h.pure _

theorem produce (h : k.Related k' R) (e : Enumeration) : R _ (e.produce k) (e.produce k') := by
  unfold Enumeration.produce
  cases e.cursor with
  | some c => exact h.advance e c
  | none =>
    refine h.bind (h.openCursor e) fun r => ?_
    cases r with
    | error fault => exact h.pure _
    | ok c => exact h.advance _ c

theorem guarded (h : k.Related k' R) (e : Enumeration) : R _ (e.guarded k) (e.guarded k') := by
  unfold Enumeration.guarded
  split
  · refine h.bind (h.step Proc.get) fun w => ?_
    cases (w.detector e.context.detector).enter with
    | error fault => exact h.pure _
    | ok entered =>
      refine h.bind (h.step _) fun _ => h.bind (h.produce e) fun result => ?_
      exact h.bind (h.step _) fun _ => h.pure _
  · exact h.produce e

/-- What relates each step relates whole pulls. -/
theorem pullBy (h : k.Related k' R) (e : Enumeration) : R _ (e.pullBy k) (e.pullBy k') := by
  unfold Enumeration.pullBy
  cases e.phase with
  | disposed | faulted | exhausted => exact h.pure _
  | created | active =>
    refine h.bind (h.guarded e) fun r => ?_
    rcases r with ⟨fault | (_ | _), e'⟩
    · exact h.bind (h.step _) fun _ => h.pure _
    · exact h.pure _
    · exact h.pure _

end Related

end Puller

end QueryShaping
