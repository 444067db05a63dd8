import QueryShaping.Proofs.Execution.Chronicle
import QueryShaping.Proofs.Execution.Keeping
import QueryShaping.Proofs.Shaping.Securing

/-!
# Enumerations keep identity resolved

An enumeration relies on the others: while it waits they decode nothing in a scope of its own, and what the decodings say
about the entities and the managers stays true. It guarantees the same to them, and that it decodes in its own scope
only. With that every entity of a value that it gives has been decoded in its scope.
-/

namespace QueryShaping

open Recorded

variable {place : Nat}

/-! ## What enumerations rely on -/

/-- What identity depends on in the world. -/
def World.tracked (w : World) : Graph × Array StateManager := (w.graph, w.managers)

theorem World.aside_tracked : World.Aside World.tracked := ⟨fun _ _ => rfl, fun _ _ => rfl⟩

namespace World

variable (w : World) (m : StateManager)

theorem manager_setManager (h : place < w.managers.size) (other : Nat) :
    (w.setManager place m).manager other = if other = place then m else w.manager other := by
  unfold manager setManager
  rw [Array.getElem?_setIfInBounds]
  by_cases hother : other = place
  · subst hother
    simp [h]
  · simp [hother, Ne.symm hother]

theorem size_setManager (place : Nat) : (w.setManager place m).managers.size = w.managers.size :=
  Array.size_setIfInBounds

end World

namespace Chronicle

/-- What the decodings say about a world. -/
structure Resolved (ch : Chronicle) : Prop where
  graph : ch.world.graph.Resolved ch.decodings
  managers : ∀ place, (ch.world.manager place).known.Represents ch.decodings (.manager place)

/-- What an enumeration does that decodes in a scope. -/
structure Moves (scope : ScopeName) (ch ch' : Chronicle) : Prop where
  resolved : ch'.Resolved
  grows : Decoding.Grows scope ch.decodings ch'.decodings
  managers : ch.world.managers.size ≤ ch'.world.managers.size

/-- What others may do while the enumeration at a place waits. -/
structure Spares (place : Nat) (ch ch' : Chronicle) : Prop where
  resolved : ch'.Resolved
  decodings : ∃ new, ch'.decodings = ch.decodings ++ new ∧ ∀ d ∈ new, d.scope ≠ .within place
  managers : ch.world.managers.size ≤ ch'.world.managers.size

variable {scope : ScopeName} {place : Nat} {ch ch' ch'' : Chronicle}

theorem Moves.trans (h : ch.Moves scope ch') (h' : ch'.Moves scope ch'') : ch.Moves scope ch'' :=
  ⟨h'.resolved, h.grows.trans h'.grows, Nat.le_trans h.managers h'.managers⟩

theorem Moves.spares (h : ch.Moves scope ch') (hscope : scope ≠ .within place) : ch.Spares place ch' := by
  obtain ⟨new, hnew, hnew'⟩ := h.grows
  exact ⟨h.resolved, ⟨new, hnew, fun d hd => hnew' d hd ▸ hscope⟩, h.managers⟩

theorem Spares.isPrefix (h : ch.Spares place ch') : ch.decodings <+: ch'.decodings :=
  h.decodings.imp fun _ h => h.1.symm

theorem Resolved.congr {w : World} (h : ch.Resolved) (hw : w.tracked = ch.world.tracked) :
    Resolved ⟨w, ch.decodings⟩ := by
  have hgraph : w.graph = ch.world.graph := congrArg Prod.fst hw
  have hmanagers : w.managers = ch.world.managers := congrArg Prod.snd hw
  refine ⟨hgraph ▸ h.graph, fun place => ?_⟩
  have hmanager : w.manager place = ch.world.manager place := by rw [World.manager, World.manager, hmanagers]
  rw [hmanager]
  exact h.managers place

theorem Resolved.moves {w : World} (h : ch.Resolved) (hw : w.tracked = ch.world.tracked) (scope : ScopeName) :
    ch.Moves scope ⟨w, ch.decodings⟩ :=
  ⟨h.congr hw, .refl _ _, Nat.le_of_eq (congrArg (·.2.size) hw).symm⟩

theorem Resolved.spares {w : World} (h : ch.Resolved) (hw : w.tracked = ch.world.tracked) (place : Nat) :
    ch.Spares place ⟨w, ch.decodings⟩ :=
  (h.moves hw .nowhere).spares nofun

end Chronicle

/-- What is true of the world stays true while the enumeration at a place waits. -/
structure Steady (place : Nat) (inv : Chronicle → Prop) : Prop where
  resolved : ∀ {ch}, inv ch → ch.Resolved
  spared : ∀ {ch ch'}, ch.Spares place ch' → inv ch → inv ch'

theorem Steady.congr {inv : Chronicle → Prop} (h : Steady place inv) {ch : Chronicle} (hch : inv ch)
    {w : World} (hw : w.tracked = ch.world.tracked) : inv ⟨w, ch.decodings⟩ :=
  h.spared ((h.resolved hch).spares hw place) hch

namespace Progress

variable {α β : Type} {place : Nat} {scope : ScopeName} {P : α → Chronicle → Prop} {ch : Chronicle}

/-- A computation of the enumeration at a place that decodes in a scope, if the others spare it. -/
def Secures (place : Nat) (scope : ScopeName) (post : α → Chronicle → Prop) : Progress Chronicle α → Chronicle → Prop
  | .done a ch', ch => ch.Moves scope ch' ∧ post a ch'
  | .wait _ ch' resume, ch => ch.Moves scope ch' ∧
    ∀ found, ch'.Spares place found → (resume found).Secures place scope post found

theorem Secures.after {p : Progress Chronicle α} {ch₀ : Chronicle} (h : p.Secures place scope P ch)
    (hmoves : ch₀.Moves scope ch) : p.Secures place scope P ch₀ := by
  cases p with
  | done a ch' => exact ⟨hmoves.trans h.1, h.2⟩
  | wait _ ch' resume => exact ⟨hmoves.trans h.1, h.2⟩

/-- Decodings that have been made stay there. -/
theorem Secures.since {p : Progress Chronicle α} (h : p.Secures place scope P ch) {log : List Decoding}
    (hlog : log <+: ch.decodings) : p.Secures place scope (fun a ch' => P a ch' ∧ log <+: ch'.decodings) ch := by
  induction p generalizing ch with
  | done a ch' => exact ⟨h.1, h.2, hlog.trans h.1.grows.isPrefix⟩
  | wait _ ch' resume ih =>
    refine ⟨h.1, fun found hfound => ih found (h.2 found hfound) ?_⟩
    exact hlog.trans (h.1.grows.isPrefix.trans hfound.isPrefix)

theorem Secures.mono {p : Progress Chronicle α} {Q : α → Chronicle → Prop} (h : p.Secures place scope P ch)
    (himp : ∀ a ch, P a ch → Q a ch) : p.Secures place scope Q ch := by
  induction p generalizing ch with
  | done a ch' => exact ⟨h.1, himp a ch' h.2⟩
  | wait _ ch' resume ih => exact ⟨h.1, fun found hfound => ih found (h.2 found hfound)⟩

theorem Secures.bind {p : Progress Chronicle α} {f : α → Chronicle → Progress Chronicle β}
    {Q : β → Chronicle → Prop} (h : p.Secures place scope P ch)
    (hf : ∀ a ch, P a ch → (f a ch).Secures place scope Q ch) : (p.bind f).Secures place scope Q ch := by
  induction p generalizing ch with
  | done a ch' => exact (hf a ch' h.2).after h.1
  | wait _ ch' resume ih => exact ⟨h.1, fun found hfound => ih found (h.2 found hfound)⟩

/-- A computation that leaves the entities alone keeps what is true of them. -/
theorem Keeps.secures {p : Progress World α} {P : α → Prop} {inv : Chronicle → Prop} (hinv : Steady place inv)
    (h : p.Keeps World.tracked (fun a v v' => v' = v ∧ P a) ch.world) (hch : inv ch) :
    (p.carry ch.decodings).Secures place scope (fun a ch' => inv ch' ∧ P a) ch := by
  induction p generalizing ch with
  | done a w => exact ⟨(hinv.resolved hch).moves h.1 scope, hinv.congr hch h.1, h.2⟩
  | wait _ w resume ih =>
    refine ⟨(hinv.resolved hch).moves h.1 scope, fun found hfound => ?_⟩
    exact ih found.world (h.2 found.world) (hinv.spared hfound (hinv.congr hch h.1))

end Progress

namespace Proc

variable {α β : Type} {place : Nat} {scope : ScopeName} {pre : Chronicle → Prop} {P : α → Chronicle → Prop}

def Secures (place : Nat) (scope : ScopeName) (pre : Chronicle → Prop) (x : Proc Chronicle α)
    (post : α → Chronicle → Prop) : Prop :=
  ∀ ch, pre ch → (x ch).Secures place scope post ch

theorem Secures.bind {x : Proc Chronicle α} {f : α → Proc Chronicle β} {Q : β → Chronicle → Prop}
    (h : x.Secures place scope pre P) (hf : ∀ a, (f a).Secures place scope (P a) Q) :
    (x >>= f).Secures place scope pre Q :=
  fun ch hch => (h ch hch).bind fun a ch' ha => hf a ch' ha

theorem secures_pure {a : α} (h : ∀ ch, pre ch → ch.Resolved ∧ P a ch) :
    (pure a : Proc Chronicle α).Secures place scope pre P :=
  fun ch hch => ⟨⟨(h ch hch).1, .refl _ _, Nat.le_refl _⟩, (h ch hch).2⟩

theorem secures_carried {inv : Chronicle → Prop} (hinv : Steady place inv) (hpre : ∀ ch, pre ch → inv ch)
    {x : Proc World α} {Q : α → Prop} (hx : x.Leaves World.tracked Q) :
    (Proc.carried x).Secures place scope pre fun a ch => inv ch ∧ Q a :=
  fun ch hch => Progress.Keeps.secures hinv (hx ch.world) (hpre ch hch)

end Proc

/-! ## Cursors -/

/-- Whether the enumeration at a place resolves identity in a scope and knows the entities of it. -/
def IdentityScope.Names (place : Nat) (scope : ScopeName) (ch : Chronicle) : IdentityScope → Prop
  | .nowhere => scope = .nowhere
  | .within known => scope = .within place ∧ known.Represents ch.decodings (.within place)
  | .manager m => scope = .manager m ∧ m < ch.world.managers.size

theorem IdentityScope.Names.spared {scope : ScopeName} {ch ch' : Chronicle} {identity : IdentityScope}
    (h : identity.Names place scope ch) (hspares : ch.Spares place ch') : identity.Names place scope ch' := by
  cases identity with
  | nowhere => exact h
  | within known =>
    obtain ⟨new, hnew, hother⟩ := hspares.decodings
    refine ⟨h.1, ?_⟩
    rw [hnew]
    exact h.2.other hother
  | manager m => exact ⟨h.1, Nat.lt_of_lt_of_le h.2 hspares.managers⟩

/-- A cursor of the enumeration at a place, as the decodings say. -/
structure Cursor.Stands (place : Nat) (scope : ScopeName) (c : Cursor) (ch : Chronicle) : Prop where
  resolved : ch.Resolved
  identity : c.identity.Names place scope ch

theorem Cursor.steady_stands (place : Nat) (scope : ScopeName) (c : Cursor) : Steady place (c.Stands place scope) :=
  ⟨fun h => h.resolved, fun hspares h => ⟨hspares.resolved, h.identity.spared hspares⟩⟩

/-- What a cursor knows is what has been decoded in its scope. -/
theorem Cursor.Stands.knows {scope : ScopeName} {c : Cursor} {ch : Chronicle}
    (h : c.Stands place scope ch) : Knows scope ch.decodings (c.known ch.world) := by
  obtain ⟨hresolved, hidentity⟩ := h
  unfold Cursor.known
  cases hscope : c.identity with
  | nowhere =>
    rw [hscope] at hidentity
    exact hidentity
  | within known =>
    rw [hscope] at hidentity
    obtain ⟨rfl, hknown⟩ := hidentity
    exact ⟨nofun, hknown⟩
  | manager m =>
    rw [hscope] at hidentity
    obtain ⟨rfl, -⟩ := hidentity
    exact ⟨nofun, hresolved.managers m⟩

namespace Chronicle.Resolved

variable {scope : ScopeName} {ch : Chronicle} {graph : Graph} {log : List Decoding}

/-- A manager of another scope knows what it knew. -/
theorem other (h : ch.Resolved) (hgrows : Decoding.Grows scope ch.decodings log) {m : Nat} (hscope : scope ≠ .manager m) :
    (ch.world.manager m).known.Represents log (.manager m) := by
  obtain ⟨new, rfl, hnew⟩ := hgrows
  exact (h.managers m).other fun d hd => hnew d hd ▸ hscope

/-- Entities are made in a scope that is not a manager's. -/
theorem moves_graph (h : ch.Resolved) (hgraph : graph.Resolved log) (hgrows : Decoding.Grows scope ch.decodings log)
    (hscope : ∀ m, scope ≠ .manager m) : ch.Moves scope ⟨{ ch.world with graph }, log⟩ :=
  ⟨⟨hgraph, fun m => h.other hgrows (hscope m)⟩, hgrows, Nat.le_refl _⟩

/-- Entities are made in the scope of a manager that gets to know them. -/
theorem moves_manager (h : ch.Resolved) (hgraph : graph.Resolved log) {m : Nat} (hm : m < ch.world.managers.size)
    (hgrows : Decoding.Grows (.manager m) ch.decodings log) (manager : StateManager)
    (hmanager : manager.known.Represents log (.manager m)) :
    ch.Moves (.manager m) ⟨World.setManager { ch.world with graph } m manager, log⟩ := by
  have hget (m' : Nat) : (World.setManager { ch.world with graph } m manager).manager m' =
      if m' = m then manager else ch.world.manager m' := World.manager_setManager _ _ hm m'
  refine ⟨⟨hgraph, fun m' => ?_⟩, hgrows, Nat.le_of_eq (World.size_setManager _ _ _).symm⟩
  rw [hget]
  split
  · next heq => exact heq ▸ hmanager
  · next hne => exact h.other hgrows fun heq => hne (ScopeName.manager.inj heq).symm

end Chronicle.Resolved

/-- What is known after a step of shaping goes to where it was known before. -/
theorem Cursor.Stands.keepKnown {scope : ScopeName} {c : Cursor} {ch : Chronicle}
    (h : c.Stands place scope ch) {s : Sketch} (hs : s.Resolved scope) (hgrows : Decoding.Grows scope ch.decodings s.decodings)
    {kept : Cursor × World}
    (hkept : Cursor.keepKnown { c with nextSlot := s.state.nextSlot } { ch.world with graph := s.state.graph }
      s.state.known = kept) :
    ch.Moves scope ⟨kept.2, s.decodings⟩ ∧ kept.1.Stands place scope ⟨kept.2, s.decodings⟩ := by
  have hidentity := h.identity
  have hknown := hs.known
  unfold Cursor.keepKnown at hkept
  cases hknown' : s.state.known with
  | none =>
    rw [hknown'] at hknown hkept
    have hscope : scope = .nowhere := hknown
    subst hscope hkept
    have hmoves := h.resolved.moves_graph hs.graph hgrows nofun
    exact ⟨hmoves, hmoves.resolved, hidentity.spared (hmoves.spares nofun)⟩
  | some known =>
    rw [hknown'] at hknown hkept
    cases hc : c.identity with
    | nowhere =>
      rw [hc] at hidentity
      exact absurd hidentity hknown.1
    | within old =>
      rw [hc] at hidentity hkept
      obtain ⟨rfl, -⟩ := hidentity
      subst hkept
      have hmoves := h.resolved.moves_graph hs.graph hgrows nofun
      exact ⟨hmoves, hmoves.resolved, rfl, hknown.2⟩
    | manager m =>
      rw [hc] at hidentity hkept
      obtain ⟨rfl, hm⟩ := hidentity
      subst hkept
      have hmoves := h.resolved.moves_manager hs.graph hm hgrows { ch.world.manager m with known } hknown.2
      exact ⟨hmoves, hmoves.resolved, rfl, Nat.lt_of_lt_of_le hm hmoves.managers⟩

namespace Recorded

variable {α β : Type} {place : Nat} {scope : ScopeName} {ids all : List EntityId} {mentions : α → List EntityId}

/-- A step of the enumeration at a place that decodes in a scope, after these entities have been decoded, and gives
something that mentions entities only that have been decoded then. -/
def Secures (place : Nat) (scope : ScopeName) (ids : List EntityId) (x : Recorded α) (mentions : α → List EntityId) :
    Prop :=
  ∀ c : Cursor, Proc.Secures place scope (fun ch => c.Stands place scope ch ∧ AllDecoded ch.decodings scope ids)
    (x.run.run c) fun r ch => r.2.Stands place scope ch ∧ ∀ a, r.1 = .ok a → AllDecoded ch.decodings scope (mentions a)

theorem Secures.of_subset {x : Recorded α} (h : x.Secures place scope ids mentions) (hids : ids ⊆ all) :
    x.Secures place scope all mentions :=
  fun c ch hc => h c ch ⟨hc.1, fun id hid => hc.2 id (hids hid)⟩

theorem Secures.bind {x : Recorded α} {f : α → Recorded β} {mentions' : β → List EntityId}
    (h : x.Secures place scope ids mentions) (hids : ids ⊆ all)
    (hf : ∀ a, (f a).Secures place scope (mentions a ++ all) mentions') : Secures place scope all (x >>= f) mentions' := by
  rintro c ch ⟨hc, hall⟩
  refine ((h.of_subset hids c ch ⟨hc, hall⟩).since (List.prefix_refl _)).bind fun r ch' hr => ?_
  obtain ⟨⟨hc', hresult⟩, hlog⟩ := hr
  obtain ⟨r, c'⟩ := r
  cases r with
  | ok a => exact hf a c' ch' ⟨hc', List.forall_mem_append.2 ⟨hresult a rfl, hall.mono hlog⟩⟩
  | error e => exact Proc.secures_pure (fun ch h => ⟨h.resolved, h, nofun⟩) ch' hc'

theorem secures_pure {a : α} (h : mentions a ⊆ ids) : Secures place scope ids (pure a) mentions :=
  fun _ => Proc.secures_pure fun _ hc =>
    ⟨hc.1.resolved, hc.1, fun _ ha => Except.ok.inj ha ▸ fun id hid => hc.2 id (h hid)⟩

theorem secures_throw (e : Error) : Secures place scope ids (throw e) mentions :=
  fun _ => Proc.secures_pure fun _ hc => ⟨hc.1.resolved, hc.1, nofun⟩

/-- A step that decodes nothing, whatever has been decoded before. -/
def Quiet (place : Nat) (scope : ScopeName) (x : Recorded α) : Prop :=
  ∀ ids, x.Secures place scope ids fun _ => []

theorem Quiet.secures {x : Recorded β} {f : β → Recorded α} (h : x.Quiet place scope)
    (hf : ∀ b, (f b).Secures place scope ids mentions) : Secures place scope ids (x >>= f) mentions :=
  (h ids).bind (List.Subset.refl _) hf

/-- A step that leaves the entities and the scope alone decodes nothing. -/
theorem quiet_ofPull {x : Pull α} (hx : x.Leaves World.tracked Cursor.identity) : (ofPull x).Quiet place scope := by
  rintro ids c ch ⟨hc, -⟩
  refine (Proc.secures_carried (c.steady_stands place scope) (fun _ h => h) (hx c) ch hc).mono fun r ch' hr => ?_
  have hidentity : r.2.identity = c.identity := hr.2
  exact ⟨⟨hr.1.resolved, hidentity ▸ hr.1.identity⟩, fun _ _ => List.forall_mem_nil _⟩

theorem secures_shape {x : Recording α} (hx : x.Secures scope ids mentions) :
    (shape x).Secures place scope ids mentions := by
  rintro c ch ⟨hc, hids⟩
  have hs := hx ⟨⟨ch.world.graph, c.known ch.world, c.nextSlot⟩, ch.decodings⟩ hids ⟨hc.resolved.graph, hc.knows⟩
  have hkept := hc.keepKnown hs.resolved hs.grows rfl
  exact ⟨hkept.1, hkept.2, hs.result⟩

theorem secures_attach (d : Draft) :
    (ofPull (Pull.modifyWorld fun w => { w with graph := w.graph.attach d })).Secures place scope d.mentions
      fun _ => [] := by
  rintro c ch ⟨hc, hd⟩
  have hresolved : Chronicle.Resolved ⟨{ ch.world with graph := ch.world.graph.attach d }, ch.decodings⟩ :=
    ⟨hc.resolved.graph.attach hd, hc.resolved.managers⟩
  refine ⟨⟨hresolved, .refl _ _, Nat.le_refl _⟩, ⟨hresolved, ?_⟩, fun _ _ => List.forall_mem_nil _⟩
  exact hc.identity.spared ⟨hresolved, ⟨[], (List.append_nil _).symm, List.forall_mem_nil _⟩, Nat.le_refl _⟩

end Recorded

/-! ## Loading -/

theorem Fetch.readClosed_tracked (f : Fetch) :
    f.loader.ReadClosed fun _ x => x.Leaves World.tracked Cursor.identity :=
  Pull.readClosed_leaves f World.aside_tracked fun _ _ _ => rfl

namespace Recorded

variable (place : Nat) (scope : ScopeName) (f : Fetch)

/-- Reading decodes nothing. -/
theorem readClosed_quiet : (loader scope f).ReadClosed fun _ x => x.Quiet place scope where
  pure _ _ := secures_pure (List.nil_subset _)
  bind h hf ids := h.secures fun a => hf a ids
  ofExcept x := quiet_ofPull (f.readClosed_tracked.ofExcept x)
  get := quiet_ofPull f.readClosed_tracked.get
  setSplit id r := quiet_ofPull (f.readClosed_tracked.setSplit id r)
  openSplit id := quiet_ofPull (f.readClosed_tracked.openSplit id)
  read name r := quiet_ofPull (f.readClosed_tracked.read name r)

theorem quiet_readRow : (loader scope f).readRow.Quiet place scope := by
  have hread := readClosed_quiet place scope f
  refine fun ids => hread.get.secures fun c => (hread.read .query c.reader).secures fun found => ?_
  refine (quiet_ofPull (Pull.leaves_modify (g := fun c => { c with reader := found.2 }) fun _ => rfl)).secures fun _ => ?_
  exact hread.pure found.1 ids

theorem quiet_nextValue : (loader scope f).nextValue.Quiet place scope := by
  rintro ids ⟨reader, splits, identity, ahead, exhausted, nextSlot⟩ ch ⟨hc, hids⟩
  have hc' (exhausted : Bool) : Cursor.Stands place scope ⟨reader, splits, identity, false, exhausted, 0⟩ ch :=
    ⟨hc.resolved, hc.identity⟩
  cases ahead with
  | true => exact secures_pure (List.nil_subset _) ⟨reader, splits, identity, false, exhausted, 0⟩ ch ⟨hc' _, hids⟩
  | false =>
    cases exhausted with
    | true => exact secures_pure (List.nil_subset _) ⟨reader, splits, identity, false, true, 0⟩ ch ⟨hc' _, hids⟩
    | false => exact quiet_readRow place scope f ids ⟨reader, splits, identity, false, false, 0⟩ ch ⟨hc' _, hids⟩

end Recorded

section Loading

variable {place : Nat} {scope : ScopeName} (f : Fetch)

theorem Recorded.fillSlot_secures {id : Nat} {parent child : List Binding} {decode : Reader → Recording Draft}
    {load : Draft → Recorded Draft} (hdecode : ∀ reader, (decode reader).Secures scope [] Draft.mentions)
    (hload : ∀ d, (load d).Secures place scope d.mentions Draft.mentions) (fuel : Nat) (s : Slot) :
    ((loader scope f).fillSlot id parent child decode load fuel s).Secures place scope s.mentions Slot.mentions := by
  have hread := readClosed_quiet place scope f
  induction fuel generalizing s with
  | zero => exact secures_pure (List.Subset.refl _)
  | succ fuel ih =>
    refine (hread.nextRow? id).secures fun row => ?_
    cases row with
    | none => exact secures_pure (List.Subset.refl _)
    | some reader =>
      refine (quiet_ofPull (f.readClosed_tracked.ofExcept _)).secures fun key => ?_
      split
      · refine (hread.take id).secures fun _ => ?_
        refine (secures_shape (s.element?_secures child (hdecode reader))).bind (List.Subset.refl _)
          fun element => ?_
        cases element with
        | none => exact ih s
        | some found =>
          refine (hload found.2).bind (by simp) fun d => (ih _).of_subset ?_
          exact List.Subset.trans (s.mentions_put found.1 d) (by simp)
      · exact secures_pure (List.Subset.refl _)

/-- Loading that gives slots of the scope whenever it is given some. -/
def LoadAgain.SecuresSlots (place : Nat) (scope : ScopeName) (again : LoadAgain Recorded) : Prop :=
  ∀ id s, (again id s).Secures place scope s.mentions Slot.mentions

variable {again : LoadAgain Recorded}

mutual

theorem Node.loadSplit_secures (hagain : again.SecuresSlots place scope) : ∀ (n : Node) (d : Draft),
    (n.loadSplit (loader scope f) again d).Secures place scope d.mentions Draft.mentions
  | .scalar _, _ => secures_pure (List.Subset.refl _)
  | .entity e, d => e.loadSplit_secures hagain d
  | .collection c, d => by
    cases d with
    | collection s => exact (c.loadSplit_secures hagain s).bind (by simp) fun _ => secures_pure (by simp)
    | null | scalar | entity | record => exact secures_throw _
  | .record members, d => by
    cases d with
    | record ds =>
      exact (Node.loadSplitMembers_secures hagain members ds).bind (by simp) fun _ => secures_pure (by simp)
    | null | scalar | entity | collection => exact secures_throw _

theorem EntityNode.loadSplit_secures (hagain : again.SecuresSlots place scope) : ∀ (e : EntityNode) (d : Draft),
    (e.loadSplit (loader scope f) again d).Secures place scope d.mentions Draft.mentions
  | ⟨_, _, _, references, collections, _⟩, d => by
    cases d with
    | entity id ds slots =>
      refine (EntityNode.loadSplitReferences_secures hagain references ds).bind (by simp) fun _ => ?_
      exact (CollectionPlace.loadSplitAll_secures hagain collections slots).bind (by grind [Draft.mentions])
        fun _ => secures_pure (by simp)
    | null => exact secures_pure (List.nil_subset _)
    | scalar | record | collection => exact secures_throw _

theorem CollectionPlace.loadSplit_secures (hagain : again.SecuresSlots place scope) :
    ∀ (c : CollectionPlace) (s : Slot),
    (c.loadSplit (loader scope f) again s).Secures place scope s.mentions Slot.mentions
  | .here c, s => c.loadSplit_secures hagain s
  | .again id _, s => hagain id s

theorem CollectionNode.loadSplit_secures (hagain : again.SecuresSlots place scope) :
    ∀ (c : CollectionNode) (s : Slot),
    (c.loadSplit (loader scope f) again s).Secures place scope s.mentions Slot.mentions
  | ⟨_, _, _, _, _, _, none⟩, _ => secures_throw _
  | ⟨id, _, _, _, _, element, some _⟩, s =>
    ((readClosed_quiet place scope f).splitReader id).secures fun _ =>
      fillSlot_secures f element.decode_secures (fun d => element.loadSplit_secures hagain d) _ s

theorem Node.loadSplitMembers_secures (hagain : again.SecuresSlots place scope) :
    ∀ (members : List (String × Node)) (ds : List (String × Draft)),
    (Node.loadSplitMembers (loader scope f) again members ds).Secures place scope (Draft.memberMentions ds)
      Draft.memberMentions
  | [], [] => secures_pure (List.nil_subset _)
  | [], _ :: _ | _ :: _, [] => secures_throw _
  | (_, member) :: rest, (_, d) :: ds =>
    (member.loadSplit_secures hagain d).bind (by simp) fun _ =>
      (Node.loadSplitMembers_secures hagain rest ds).bind (by simp) fun _ => secures_pure (by simp)

theorem EntityNode.loadSplitReferences_secures (hagain : again.SecuresSlots place scope) :
    ∀ (references : List (String × EntityNode)) (ds : List Draft),
    (EntityNode.loadSplitReferences (loader scope f) again references ds).Secures place scope (Draft.listMentions ds)
      Draft.listMentions
  | [], [] => secures_pure (List.nil_subset _)
  | [], _ :: _ | _ :: _, [] => secures_throw _
  | (_, target) :: rest, d :: ds =>
    (target.loadSplit_secures hagain d).bind (by simp) fun _ =>
      (EntityNode.loadSplitReferences_secures hagain rest ds).bind (by simp) fun _ => secures_pure (by simp)

theorem CollectionPlace.loadSplitAll_secures (hagain : again.SecuresSlots place scope) :
    ∀ (collections : List (String × CollectionPlace))
    (slots : List Slot), (CollectionPlace.loadSplitAll (loader scope f) again collections slots).Secures place scope
      (Slot.listMentions slots) Slot.listMentions
  | [], [] => secures_pure (List.nil_subset _)
  | [], _ :: _ | _ :: _, [] => secures_throw _
  | (_, c) :: rest, s :: slots =>
    (c.loadSplit_secures hagain s).bind (by simp) fun _ =>
      (CollectionPlace.loadSplitAll_secures hagain rest slots).bind (by simp) fun _ => secures_pure (by simp)

end

variable (p : Program)

theorem Program.loadAgainWith_secures {anew : LoadAgain Recorded} (hanew : anew.SecuresSlots place scope) (rows : Nat) :
    LoadAgain.SecuresSlots place scope (p.loadAgainWith (loader scope f) anew rows) := by
  induction rows with
  | zero => exact hanew
  | succ rows ih =>
    exact fun id s => (quiet_ofPull (f.readClosed_tracked.ofExcept _)).secures fun c => c.loadSplit_secures f ih s

theorem Program.loadAgain_secures (unopened : Nat) :
    LoadAgain.SecuresSlots place scope (p.loadAgain (loader scope f) unopened) := by
  induction unopened with
  | zero => exact fun _ _ => secures_pure (List.Subset.refl _)
  | succ unopened ih =>
    exact fun id s => (quiet_ofPull f.readClosed_tracked.get).secures fun c => p.loadAgainWith_secures f ih _ id s

theorem Node.loadJoined_secures (n : Node) (fuel : Nat) (d : Draft) :
    (n.loadJoined (loader scope f) fuel d).Secures place scope d.mentions Draft.mentions := by
  have hread := readClosed_quiet place scope f
  induction fuel generalizing d with
  | zero => exact secures_pure (List.Subset.refl _)
  | succ fuel ih =>
    refine hread.get.secures fun c => ?_
    refine (secures_shape (n.consume_secures d c.reader)).bind (List.Subset.refl _) fun d => ?_
    refine (quiet_readRow place scope f).secures fun found => ?_
    cases found with
    | false =>
      exact (quiet_ofPull (Pull.leaves_modify (g := fun c => { c with exhausted := true }) fun _ => rfl)).secures fun _ =>
        secures_pure (by simp)
    | true =>
      refine hread.get.secures fun c => (quiet_ofPull (f.readClosed_tracked.ofExcept _)).secures fun same => ?_
      cases same with
      | true => exact (ih d).of_subset (by simp)
      | false =>
        exact (quiet_ofPull (Pull.leaves_modify (g := fun c => { c with ahead := true }) fun _ => rfl)).secures fun _ =>
          secures_pure (by simp)

theorem Program.load_secures (d : Draft) :
    (p.load (loader scope f) d).Secures place scope d.mentions Draft.mentions := by
  unfold Program.load
  split
  · exact secures_pure (List.Subset.refl _)
  · split
    · exact p.root.loadSplit_secures f (p.loadAgain_secures f _) d
    · exact (quiet_ofPull f.readClosed_tracked.get).secures fun c => p.root.loadJoined_secures f _ d

theorem Program.shapeValue_secures : (p.shapeValue (loader scope f)).Secures place scope [] Result.ids := by
  refine (quiet_ofPull f.readClosed_tracked.get).secures fun c => ?_
  refine (secures_shape (p.root.decode_secures c.reader)).bind (List.nil_subset _) fun d => ?_
  refine (p.load_secures f d).bind (by simp) fun d => ?_
  refine (secures_attach d).bind (by simp) fun _ => secures_pure ?_
  exact List.Subset.trans d.ids_result (by simp)

/-- All entities of a value have been decoded in the scope. -/
theorem Program.next_secures :
    (p.next (loader scope f)).Secures place scope [] fun value => value.elim [] Result.ids := by
  refine (quiet_nextValue place scope f).secures fun found => ?_
  cases found with
  | false => exact secures_pure (List.nil_subset _)
  | true => exact (p.shapeValue_secures f).bind (List.nil_subset _) fun v => secures_pure (by simp)

end Loading

end QueryShaping
