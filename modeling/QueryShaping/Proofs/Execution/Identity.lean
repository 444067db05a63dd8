import Mathlib.Data.List.Forall2
import QueryShaping.Proofs.Execution.Resolving
import QueryShaping.Proofs.Execution.Values

/-!
# Identity among enumerations

Enumerations over one world are created, pulled and disposed in any order, and their pulls wait and go on in any order.
Whatever they do, two entities in the values of one scope are the same exactly if their types and keys are. An entity has
the key and the fields of its first decoding, and a manager knows as many entities as there are types and keys among
the decodings in its scope. Without a scope no entity is decoded twice.
-/

namespace QueryShaping

open List Proc

variable {place : Nat} {scope : ScopeName} {α β : Type}

/-! ## One enumeration -/

theorem IdentityMap.represents_empty {log : List Decoding} (h : ∀ d ∈ log, d.scope ≠ scope) :
    IdentityMap.empty.Represents log scope := by
  refine ⟨fun entityType key id => ⟨nofun, ?_⟩, nodup_nil⟩
  rintro ⟨d, hd, hscope, -⟩
  exact absurd hscope (h d hd)

theorem Graph.resolved_nil (g : Graph) : g.Resolved [] := by
  constructor
  case apart => exact .nil
  case navigations =>
    rintro id x - nav - id' - scope ⟨d, hd, -⟩
    cases hd
  all_goals simp

namespace Enumeration

/-- What an enumeration at a place needs of the world. Until it has opened its reader nothing has been decoded in a scope
of its own, and its manager is there. -/
structure Stands (place : Nat) (e : Enumeration) (ch : Chronicle) : Prop where
  resolved : ch.Resolved
  cursor : ∀ c, e.cursor = some c → c.identity.Names place (e.scopeName place) ch
  unopened : e.cursor = none → e.phase.isTerminal = false → (∀ d ∈ ch.decodings, d.scope ≠ .within place) ∧
    (e.query.options.tracking = .trackAll → e.context.manager < ch.world.managers.size)

variable {place : Nat} {e : Enumeration} {ch ch' : Chronicle}

theorem steady_stands (place : Nat) (e : Enumeration) : Steady place (e.Stands place) := by
  refine ⟨fun h => h.resolved, fun hspares h => ⟨hspares.resolved, fun c hc => (h.cursor c hc).spared hspares, ?_⟩⟩
  intro hcursor hphase
  obtain ⟨hnone, hmanager⟩ := h.unopened hcursor hphase
  obtain ⟨new, hnew, hother⟩ := hspares.decodings
  refine ⟨?_, fun htracking => Nat.lt_of_lt_of_le (hmanager htracking) hspares.managers⟩
  rw [hnew]
  exact forall_mem_append.2 ⟨hnone, hother⟩

/-- A scope is opened for an enumeration that has none. -/
theorem Stands.openScope (h : e.Stands place ch) (hcursor : e.cursor = none) (hphase : e.phase.isTerminal = false)
    {scope : IdentityScope} {w : World}
    (hopen : ch.world.openScope e.query.options.tracking e.context.manager = (scope, w)) :
    ch.Moves (e.scopeName place) ⟨w, ch.decodings⟩ ∧ scope.Names place (e.scopeName place) ⟨w, ch.decodings⟩ := by
  obtain ⟨hnone, hmanager⟩ := h.unopened hcursor hphase
  unfold World.openScope at hopen
  unfold scopeName
  cases htracking : e.query.options.tracking with
  | none =>
    rw [htracking] at hopen
    cases hopen
    exact ⟨h.resolved.moves rfl _, rfl⟩
  | identityResolution =>
    rw [htracking] at hopen
    cases hopen
    exact ⟨h.resolved.moves rfl _, rfl, IdentityMap.represents_empty hnone⟩
  | trackAll =>
    rw [htracking] at hopen
    cases hopen
    have hm := hmanager htracking
    have hmoves := h.resolved.moves_manager h.resolved.graph hm (.refl _ _) (ch.world.manager e.context.manager).started
      (h.resolved.managers _)
    exact ⟨hmoves, rfl, Nat.lt_of_lt_of_le hm hmoves.managers⟩

end Enumeration

theorem Progress.carry_bind (p : Progress World α) (f : α → World → Progress World β)
    (decodings : List Decoding) : (p.bind f).carry decodings =
      (p.carry decodings).bind fun a ch => (f a ch.world).carry ch.decodings := by
  induction p generalizing decodings with
  | done a w => rfl
  | wait v w resume ih => exact congrArg (Progress.wait _ _) (funext fun ch => ih ch.world ch.decodings)

theorem Proc.carried_bind (x : Proc World α) (f : α → Proc World β) :
    carried (x >>= f) = carried x >>= fun a => carried (f a) :=
  funext fun ch => Progress.carry_bind (x ch.world) f ch.decodings

theorem Proc.secures_carried_bind {pre : Chronicle → Prop}
    {P : α → Chronicle → Prop} {Q : β → Chronicle → Prop} {x : Proc World α} {f : α → Proc World β}
    (hx : (carried x).Secures place scope pre P) (hf : ∀ a, (carried (f a)).Secures place scope (P a) Q) :
    (carried (x >>= f)).Secures place scope pre Q := by
  rw [carried_bind]
  exact hx.bind hf

namespace Enumeration

variable {place : Nat} {scope : ScopeName} {e : Enumeration}

theorem openCursor_secures (hcursor : e.cursor = none) (hphase : e.phase.isTerminal = false) :
    Secures place (e.scopeName place) (e.Stands place) (carried e.openCursor.run) fun r ch =>
      e.Stands place ch ∧ ∀ c, r = .ok c → c.Stands place (e.scopeName place) ch := by
  have hopen : Leaves World.tracked (fun _ => True) (e.context.openCached e.mode e.query.commands).run :=
    e.context.openCached_leaves e.mode World.aside_tracked _
  refine secures_carried_bind (secures_carried (e.steady_stands place) (fun _ h => h) hopen) fun r => ?_
  cases r with
  | error fault => exact secures_pure fun ch h => ⟨h.1.resolved, h.1, fun _ hr => (nomatch hr)⟩
  | ok reader =>
    rintro ch ⟨h, -⟩
    obtain ⟨hmoves, hnames⟩ := h.openScope hcursor hphase rfl
    refine ⟨hmoves, ⟨hmoves.resolved, fun c hc => absurd (hcursor.symm.trans hc) nofun, fun _ _ => ?_⟩, fun c hc => ?_⟩
    · obtain ⟨hnone, hmanager⟩ := h.unopened hcursor hphase
      exact ⟨hnone, fun htracking => Nat.lt_of_lt_of_le (hmanager htracking) hmoves.managers⟩
    · cases hc
      exact ⟨hmoves.resolved, hnames⟩

/-- What is true after a pull: a value has been decoded in the scope. -/
structure PulledIn (place : Nat) (scope : ScopeName) (r : Except Error (Option Result) × Enumeration) (ch : Chronicle) :
    Prop where
  stands : r.2.Stands place ch
  inScope : r.2.scopeName place = scope
  value : ∀ v, r.1 = .ok (some v) → AllDecoded ch.decodings scope v.ids

theorem steady_pulledIn (place : Nat) (scope : ScopeName) (r : Except Error (Option Result) × Enumeration) :
    Steady place (PulledIn place scope r) :=
  ⟨fun h => h.stands.resolved, fun hspares h =>
    ⟨(r.2.steady_stands place).spared hspares h.stands, h.inScope, fun v hv => (h.value v hv).mono hspares.isPrefix⟩⟩

theorem advance_secures (e : Enumeration) (c : Cursor) :
    Secures place (e.scopeName place) (c.Stands place (e.scopeName place)) (e.advance (.recorded place) c)
      (PulledIn place (e.scopeName place)) := by
  refine Secures.bind (fun ch hc => e.query.program.next_secures e.fetch c ch ⟨hc, forall_mem_nil _⟩) fun r => ?_
  refine secures_pure fun ch hr => ⟨hr.1.resolved, ⟨hr.1.resolved, ?_, nofun⟩, rfl, fun v hv => hr.2 _ hv⟩
  intro c hc
  cases hc
  exact hr.1.identity

theorem produce_secures (hphase : e.phase.isTerminal = false) :
    Secures place (e.scopeName place) (e.Stands place) (e.produce (.recorded place))
      (PulledIn place (e.scopeName place)) := by
  unfold produce
  cases hcursor : e.cursor with
  | some c =>
    intro ch h
    exact e.advance_secures c ch ⟨h.resolved, h.cursor c hcursor⟩
  | none =>
    refine (openCursor_secures hcursor hphase).bind fun r => ?_
    cases r with
    | error fault => exact secures_pure fun ch h => ⟨h.1.resolved, h.1, rfl, nofun⟩
    | ok c =>
      intro ch h
      exact advance_secures { e with phase := .active } c ch (h.2 c rfl)

theorem guarded_secures (hphase : e.phase.isTerminal = false) :
    Secures place (e.scopeName place) (e.Stands place) (e.guarded (.recorded place))
      (PulledIn place (e.scopeName place)) := by
  have hsteady := e.steady_stands place
  have hset (d : Detector) : Leaves World.tracked (fun _ => True)
      (modify fun w => w.setDetector e.context.detector d) := leaves_modify fun _ => rfl
  unfold guarded
  split
  · refine (secures_carried hsteady (fun _ h => h) leaves_get).bind fun w => ?_
    cases (w.detector e.context.detector).enter with
    | error fault => exact secures_pure fun ch h => ⟨h.1.resolved, h.1, rfl, nofun⟩
    | ok entered =>
      refine (secures_carried hsteady (fun _ h => h.1) (hset entered)).bind fun _ => ?_
      refine Secures.bind (P := PulledIn place (e.scopeName place)) ?_ fun r => ?_
      · exact fun ch h => produce_secures hphase ch h.1
      refine (secures_carried (steady_pulledIn place _ r) (fun _ h => h) (hset .idle)).bind fun _ => ?_
      exact secures_pure fun ch h => ⟨h.1.stands.resolved, h.1⟩
  · exact produce_secures hphase

theorem Stands.ended {ch : Chronicle} (h : e.Stands place ch) {phase : Phase} (hphase : phase.isTerminal = true) :
    Stands place { e with phase } ch :=
  ⟨h.resolved, h.cursor, fun _ hphase' => absurd (hphase.symm.trans hphase') nofun⟩

/-- A pull gives values of the scope of its enumeration. -/
theorem pullBy_secures (e : Enumeration) (place : Nat) :
    Secures place (e.scopeName place) (e.Stands place) (e.pullBy (.recorded place))
      (PulledIn place (e.scopeName place)) := by
  unfold pullBy
  cases hphase : e.phase with
  | disposed | faulted | exhausted => exact secures_pure fun ch h => ⟨h.resolved, h, rfl, nofun⟩
  | created | active =>
    refine (guarded_secures (hphase ▸ rfl)).bind fun r => ?_
    obtain ⟨r, e'⟩ := r
    cases r with
    | ok value =>
      cases value with
      | some value => exact secures_pure fun ch h => ⟨h.stands.resolved, h⟩
      | none =>
        exact secures_pure fun ch h => ⟨h.stands.resolved, h.stands.ended rfl, h.inScope, nofun⟩
    | error fault =>
      have hreport : Leaves World.tracked (fun _ => True)
          (modify fun w => w.report e'.context.contextType fault) := leaves_modify fun _ => rfl
      refine (secures_carried (steady_pulledIn place _ _) (fun _ h => h) hreport).bind fun _ => ?_
      exact secures_pure fun ch h => ⟨h.1.stands.resolved, h.1.stands.ended rfl, h.1.inScope, nofun⟩

end Enumeration

/-! ## Many enumerations -/

/-- What a pull comes to. -/
abbrev PullResult := Except Error (Option Result) × Enumeration

/-- How enumerations are pulled over a state that holds a world. -/
structure Stage (σ : Type) where
  world : σ → World
  change : (World → World) → σ → σ
  pull : Nat → Enumeration → Proc σ PullResult

def Stage.plain : Stage World := ⟨id, id, fun _ e => e.pull⟩

/-- Pulls over a world with the decodings so far. -/
def Stage.recorded : Stage Chronicle :=
  ⟨Chronicle.world, fun change ch => { ch with world := change ch.world }, fun place e => e.pullBy (.recorded place)⟩

/-- An enumeration among others. While a pull of it waits, this is the enumeration as it was before the pull and what is
left of the pull. -/
inductive Player (σ : Type) where
  | idle (e : Enumeration)
  | pulling (e : Enumeration) (resume : σ → Progress σ PullResult)

/-- A change of the world that leaves the entities alone and what the managers know of them. Managers may be added. -/
structure World.KeepsKnown (w w' : World) : Prop where
  graph : w'.graph = w.graph
  managers : w.managers.size ≤ w'.managers.size
  known : ∀ place, (w'.manager place).known = (w.manager place).known

/-- What can happen to enumerations over one world, in which no manager is cleared. -/
inductive Cue where
  | create (query : CompiledQuery) (context : Context) (mode : Mode)
  | pull (place : Nat)
  | resume (place : Nat)
  | dispose (place : Nat)
  | other (change : World → World) (h : ∀ w : World, w.KeepsKnown (change w))

/-- Enumerations over one world, with the values that they have given so far and the scopes of these. -/
structure Concert (σ : Type) where
  state : σ
  players : List (Player σ)
  given : List (ScopeName × Result)

namespace Concert

variable {σ : Type}

def start (state : σ) : Concert σ := ⟨state, [], []⟩

/-- The value that a pull has given, if any. -/
def values : Except Error (Option Result) → List Result
  | .ok (some v) => [v]
  | _ => []

/-- What becomes of an enumeration when its pull has gone on. -/
def wentOn (p : Concert σ) (place : Nat) (e : Enumeration) : Progress σ PullResult → Concert σ
  | .done r state =>
    ⟨state, p.players.set place (.idle r.2), p.given ++ (values r.1).map fun v => (e.scopeName place, v)⟩
  | .wait _ state resume => ⟨state, p.players.set place (.pulling e resume), p.given⟩

/-- Starts an enumeration. There are no contexts without a manager. -/
def create (stage : Stage σ) (p : Concert σ) (query : CompiledQuery) (context : Context) (mode : Mode) : Concert σ :=
  if context.manager < (stage.world p.state).managers.size then
    { p with players := p.players ++ [.idle (.start query context mode)] }
  else p

/-- Pulls an enumeration. Nobody can use one while a pull of it waits. -/
def pull (stage : Stage σ) (p : Concert σ) (place : Nat) : Concert σ :=
  match p.players[place]? with
  | some (.idle e) => p.wentOn place e (stage.pull place e p.state)
  | _ => p

/-- Goes on with a pull that waits. -/
def resume (p : Concert σ) (place : Nat) : Concert σ :=
  match p.players[place]? with
  | some (.pulling e resume) => p.wentOn place e (resume p.state)
  | _ => p

def dispose (stage : Stage σ) (p : Concert σ) (place : Nat) : Concert σ :=
  match p.players[place]? with
  | some (.idle e) =>
    { p with
      state := stage.change (fun w => (e.dispose w).2) p.state
      players := p.players.set place (.idle (e.dispose (stage.world p.state)).1) }
  | _ => p

def step (stage : Stage σ) (p : Concert σ) : Cue → Concert σ
  | .create query context mode => p.create stage query context mode
  | .pull place => p.pull stage place
  | .resume place => p.resume place
  | .dispose place => p.dispose stage place
  | .other change _ => { p with state := stage.change change p.state }

def run (stage : Stage σ) (p : Concert σ) (cues : List Cue) : Concert σ := cues.foldl (step stage) p

end Concert

/-! ## Forgetting the decodings -/

theorem forall₂_getElem? {R : α → β → Prop} {l : List α} {l' : List β} (h : List.Forall₂ R l l') (i : Nat) :
    Option.Rel R l[i]? l'[i]? := by
  induction h generalizing i with
  | nil => exact .none
  | cons hab _ ih =>
    cases i with
    | zero => exact .some hab
    | succ i => exact ih i

theorem forall₂_set {R : α → β → Prop} {l : List α} {l' : List β} (h : List.Forall₂ R l l') {a : α} {b : β}
    (hab : R a b) (i : Nat) : List.Forall₂ R (l.set i a) (l'.set i b) := by
  induction h generalizing i with
  | nil => exact .nil
  | cons hhead htail ih =>
    cases i with
    | zero => exact .cons hab htail
    | succ i => exact .cons hhead (ih i)

inductive Player.Forgets : Player Chronicle → Player World → Prop
  | idle (e : Enumeration) : Forgets (.idle e) (.idle e)
  | pulling (e : Enumeration) {resume : Chronicle → Progress Chronicle PullResult}
      {resume' : World → Progress World PullResult} (h : ∀ found, (resume found).Forgets (resume' found.world)) :
      Forgets (.pulling e resume) (.pulling e resume')

namespace Concert

/-- Enumerations over a world with decodings, and the same enumerations over the world alone. -/
structure Forgets (p : Concert Chronicle) (q : Concert World) : Prop where
  state : p.state.world = q.state
  players : List.Forall₂ Player.Forgets p.players q.players
  given : p.given = q.given

variable {p : Concert Chronicle} {q : Concert World}

theorem Forgets.wentOn (h : p.Forgets q) (place : Nat) (e : Enumeration) {progress : Progress Chronicle PullResult}
    {progress' : Progress World PullResult} (hprogress : progress.Forgets progress') :
    (p.wentOn place e progress).Forgets (q.wentOn place e progress') := by
  cases hprogress with
  | done r ch => exact ⟨rfl, forall₂_set h.players (.idle r.2) place, congrArg (· ++ _) h.given⟩
  | wait _ _ _ ch hresume => exact ⟨rfl, forall₂_set h.players (.pulling e hresume) place, h.given⟩

theorem Forgets.create (h : p.Forgets q) (query : CompiledQuery) (context : Context) (mode : Mode) :
    (p.create .recorded query context mode).Forgets (q.create .plain query context mode) := by
  have hworld : Stage.recorded.world p.state = Stage.plain.world q.state := h.state
  unfold Concert.create
  rw [hworld]
  split
  · exact ⟨h.state, rel_append h.players (.cons (.idle _) .nil), h.given⟩
  · exact h

theorem Forgets.pull (h : p.Forgets q) (place : Nat) : (p.pull .recorded place).Forgets (q.pull .plain place) := by
  have hplayer := forall₂_getElem? h.players place
  unfold Concert.pull
  generalize p.players[place]? = m at hplayer ⊢
  generalize q.players[place]? = m' at hplayer ⊢
  cases hplayer with
  | none => exact h
  | some hplayer =>
    cases hplayer with
    | idle e => exact h.wentOn place e (h.state ▸ (Puller.related_recorded place).pullBy e p.state)
    | pulling e _ => exact h

theorem Forgets.resume (h : p.Forgets q) (place : Nat) : (p.resume place).Forgets (q.resume place) := by
  have hplayer := forall₂_getElem? h.players place
  unfold Concert.resume
  generalize p.players[place]? = m at hplayer ⊢
  generalize q.players[place]? = m' at hplayer ⊢
  cases hplayer with
  | none => exact h
  | some hplayer =>
    cases hplayer with
    | idle e => exact h
    | pulling e hresume => exact h.wentOn place e (h.state ▸ hresume p.state)

theorem Forgets.dispose (h : p.Forgets q) (place : Nat) :
    (p.dispose .recorded place).Forgets (q.dispose .plain place) := by
  have hplayer := forall₂_getElem? h.players place
  have hworld : Stage.recorded.world p.state = Stage.plain.world q.state := h.state
  unfold Concert.dispose
  rw [hworld]
  generalize p.players[place]? = m at hplayer ⊢
  generalize q.players[place]? = m' at hplayer ⊢
  cases hplayer with
  | none => exact h
  | some hplayer =>
    cases hplayer with
    | idle e => exact ⟨congrArg (fun w => (e.dispose w).2) h.state, forall₂_set h.players (.idle _) place, h.given⟩
    | pulling e _ => exact h

theorem Forgets.step (h : p.Forgets q) (cue : Cue) : (p.step .recorded cue).Forgets (q.step .plain cue) := by
  cases cue with
  | create query context mode => exact h.create query context mode
  | pull place => exact h.pull place
  | resume place => exact h.resume place
  | dispose place => exact h.dispose place
  | other change _ => exact ⟨congrArg change h.state, h.players, h.given⟩

/-- The decodings have no influence. -/
theorem Forgets.run (h : p.Forgets q) (cues : List Cue) : (p.run .recorded cues).Forgets (q.run .plain cues) := by
  induction cues generalizing p q with
  | nil => exact h
  | cons cue cues ih => exact ih (h.step cue)

end Concert

/-! ## Keeping identity resolved -/

theorem Chronicle.Spares.trans {ch ch' ch'' : Chronicle} (h : ch.Spares place ch')
    (h' : ch'.Spares place ch'') : ch.Spares place ch'' := by
  obtain ⟨new, hnew, hother⟩ := h.decodings
  obtain ⟨new', hnew', hother'⟩ := h'.decodings
  refine ⟨h'.resolved, ⟨new ++ new', ?_, forall_mem_append.2 ⟨hother, hother'⟩⟩,
    Nat.le_trans h.managers h'.managers⟩
  rw [hnew', hnew, append_assoc]

theorem World.KeepsKnown.spares {ch : Chronicle} {w : World} (h : ch.world.KeepsKnown w) (hch : ch.Resolved)
    (place : Nat) : ch.Spares place ⟨w, ch.decodings⟩ := by
  refine ⟨⟨h.graph ▸ hch.graph, fun m => ?_⟩, ⟨[], (append_nil _).symm, forall_mem_nil _⟩, h.managers⟩
  rw [h.known]
  exact hch.managers m

theorem Enumeration.scopeName_ne_within (e : Enumeration) {place place' : Nat} (h : place ≠ place') :
    e.scopeName place ≠ .within place' := by
  unfold Enumeration.scopeName
  cases e.query.options.tracking with
  | none | trackAll => nofun
  | identityResolution => exact fun heq => h (ScopeName.within.inj heq)

theorem Enumeration.tracked_dispose (e : Enumeration) (w : World) : (e.dispose w).2.tracked = w.tracked := by
  unfold Enumeration.dispose
  split
  · rfl
  · generalize e.cursor.elim [] Cursor.readers = readers
    induction readers generalizing w with
    | nil => rfl
    | cons r readers ih => exact ih (w.closeReader r)

theorem Enumeration.Stands.disposed {e : Enumeration} {ch : Chronicle} (h : e.Stands place ch) :
    (e.dispose ch.world).1.Stands place ⟨(e.dispose ch.world).2, ch.decodings⟩ := by
  have hresolved := h.resolved.congr (e.tracked_dispose ch.world)
  unfold Enumeration.dispose at hresolved ⊢
  split
  · exact h
  · next hphase =>
    rw [if_neg hphase] at hresolved
    exact ⟨hresolved, fun _ hc => (nomatch hc), fun _ hphase => (nomatch hphase)⟩

/-- What an enumeration at a place relies on, also while a pull of it waits. -/
def Player.Stands (place : Nat) (ch : Chronicle) : Player Chronicle → Prop
  | .idle e => e.Stands place ch
  | .pulling e resume => ∀ found, ch.Spares place found →
    (resume found).Secures place (e.scopeName place) (Enumeration.PulledIn place (e.scopeName place)) found

theorem Player.Stands.spared {ch ch' : Chronicle} {m : Player Chronicle} (h : m.Stands place ch)
    (hspares : ch.Spares place ch') : m.Stands place ch' := by
  cases m with
  | idle e => exact (e.steady_stands place).spared hspares h
  | pulling e resume => exact fun found hfound => h found (hspares.trans hfound)

namespace Concert

/-- What the decodings say about enumerations over one world. -/
structure Resolved (p : Concert Chronicle) : Prop where
  state : p.state.Resolved
  players : ∀ (place : Nat) (m : Player Chronicle), p.players[place]? = some m → m.Stands place p.state
  /-- A scope of its own belongs to an enumeration that has been created. -/
  scopes : ∀ d ∈ p.state.decodings, ∀ place, d.scope = .within place → place < p.players.length
  given : ∀ r ∈ p.given, AllDecoded p.state.decodings r.1 r.2.ids

variable {p : Concert Chronicle}

/-- The enumeration at a place has done something. -/
theorem Resolved.moved (h : p.Resolved) (hplace : place < p.players.length) (e : Enumeration)
    {ch : Chronicle} (hmoves : p.state.Moves (e.scopeName place) ch) (m : Player Chronicle) (hm : m.Stands place ch)
    (new : List (ScopeName × Result)) (hnew : ∀ r ∈ new, AllDecoded ch.decodings r.1 r.2.ids) :
    Resolved ⟨ch, p.players.set place m, p.given ++ new⟩ := by
  constructor
  case state => exact hmoves.resolved
  case players =>
    intro other m' hm'
    rw [getElem?_set] at hm'
    split at hm'
    · next heq =>
      cases hm'
      exact heq ▸ hm
    · next hne => exact (h.players other m' hm').spared (hmoves.spares (e.scopeName_ne_within hne))
  case scopes =>
    intro d hd other hscope
    rw [length_set]
    obtain ⟨new, hnew, hscope'⟩ := hmoves.grows
    rw [hnew] at hd
    rcases mem_append.1 hd with hd | hd
    · exact h.scopes d hd other hscope
    · by_contra hother
      have hne : place ≠ other := fun heq => hother (heq ▸ hplace)
      exact e.scopeName_ne_within hne ((hscope' d hd).symm.trans hscope)
  case given =>
    exact forall_mem_append.2 ⟨fun r hr => (h.given r hr).mono hmoves.grows.isPrefix, hnew⟩

theorem eq_of_mem_values {r : Except Error (Option Result)} {v : Result} (h : v ∈ values r) : r = .ok (some v) := by
  unfold values at h
  split at h
  · rw [mem_singleton.1 h]
  · cases h

theorem Resolved.wentOn (h : p.Resolved) (hplace : place < p.players.length) (e : Enumeration)
    {progress : Progress Chronicle PullResult} (hprogress : progress.Secures place (e.scopeName place)
      (Enumeration.PulledIn place (e.scopeName place)) p.state) : (p.wentOn place e progress).Resolved := by
  cases progress with
  | done r ch =>
    refine h.moved hplace e hprogress.1 (.idle r.2) hprogress.2.stands _ fun value hvalue => ?_
    obtain ⟨v, hv, rfl⟩ := mem_map.1 hvalue
    exact hprogress.2.value v (eq_of_mem_values hv)
  | wait _ ch resume =>
    have hmoved := h.moved hplace e hprogress.1 (.pulling e resume) hprogress.2 [] nofun
    rwa [append_nil] at hmoved

theorem Resolved.create (h : p.Resolved) (query : CompiledQuery) (context : Context) (mode : Mode) :
    (p.create .recorded query context mode).Resolved := by
  unfold Concert.create
  split
  · next hmanager =>
    refine ⟨h.state, fun place m hm => ?_, fun d hd place hscope => ?_, h.given⟩
    · rcases Nat.lt_or_ge place p.players.length with hlt | hge
      · rw [getElem?_append_left hlt] at hm
        exact h.players place m hm
      · rw [getElem?_append_right hge, getElem?_singleton] at hm
        split at hm
        · cases hm
          refine ⟨h.state, fun _ hc => (nomatch hc), fun _ _ => ⟨fun d hd hscope => ?_, fun _ => hmanager⟩⟩
          exact Nat.not_le_of_lt (h.scopes d hd place hscope) hge
        · cases hm
    · rw [length_append]
      exact Nat.lt_succ_of_lt (h.scopes d hd place hscope)
  · exact h

theorem Resolved.pull (h : p.Resolved) (place : Nat) : (p.pull .recorded place).Resolved := by
  unfold Concert.pull
  split
  · next e hm =>
    exact h.wentOn (List.getElem?_eq_some_iff.1 hm).1 e (e.pullBy_secures place p.state (h.players place _ hm))
  · exact h

theorem Resolved.resume (h : p.Resolved) (place : Nat) : (p.resume place).Resolved := by
  unfold Concert.resume
  split
  · next e resume hm =>
    refine h.wentOn (List.getElem?_eq_some_iff.1 hm).1 e (h.players place _ hm p.state ?_)
    exact h.state.spares rfl place
  · exact h

theorem Resolved.dispose (h : p.Resolved) (place : Nat) : (p.dispose .recorded place).Resolved := by
  unfold Concert.dispose
  split
  · next e hm =>
    have hmoved := h.moved (List.getElem?_eq_some_iff.1 hm).1 e (h.state.moves (e.tracked_dispose p.state.world) _)
      (.idle (e.dispose p.state.world).1) (h.players place _ hm).disposed [] nofun
    rwa [append_nil] at hmoved
  · exact h

theorem Resolved.step (h : p.Resolved) (cue : Cue) : (p.step .recorded cue).Resolved := by
  cases cue with
  | create query context mode => exact h.create query context mode
  | pull place => exact h.pull place
  | resume place => exact h.resume place
  | dispose place => exact h.dispose place
  | other change hchange =>
    have hspares := (hchange p.state.world).spares h.state
    exact ⟨(hspares 0).resolved, fun place m hm => (h.players place m hm).spared (hspares place), h.scopes, h.given⟩

theorem Resolved.run (h : p.Resolved) (cues : List Cue) : (p.run .recorded cues).Resolved := by
  induction cues generalizing p with
  | nil => exact h
  | cons cue cues ih => exact ih (h.step cue)

theorem resolved_start {w : World} (hw : ∀ place, (w.manager place).known = .empty) : Resolved (start ⟨w, []⟩) := by
  have hmanagers (place : Nat) : (w.manager place).known.Represents [] (.manager place) := by
    rw [hw]
    exact IdentityMap.represents_empty fun _ hd => nomatch hd
  constructor
  case state => exact ⟨w.graph.resolved_nil, hmanagers⟩
  case players => exact fun _ _ hm => nomatch hm
  case scopes => exact fun _ hd => nomatch hd
  case given => exact fun _ hr => nomatch hr

end Concert

/-! ## Identity -/

/-- Whether an entity occurs in a result, itself or by way of navigations. -/
inductive Graph.Shows (g : Graph) (r : Result) : EntityId → Prop
  | within {id : EntityId} (h : id ∈ r.ids) : Shows g r id
  | along {id id' : EntityId} {x : Entity} {nav : String × Result} (h : Shows g r id) (hx : g.get? id = some x)
      (hnav : nav ∈ x.navigations) (hid : id' ∈ nav.2.ids) : Shows g r id'

theorem Decoded.find? {log : List Decoding} {id : EntityId} (h : Decoded log scope id) :
    ∃ d, log.find? (·.id = id) = some d := by
  obtain ⟨d, hd, -, hid⟩ := h
  exact Option.isSome_iff_exists.1 (find?_isSome.2 ⟨d, hd, decide_eq_true hid⟩)

theorem Graph.Resolved.decoded_of_shows {g : Graph} {log : List Decoding} (h : g.Resolved log)
    {r : Result} (hr : AllDecoded log scope r.ids) {id : EntityId} (hid : g.Shows r id) : Decoded log scope id := by
  induction hid with
  | within hid => exact hr _ hid
  | along _ hx hnav hid ih => exact h.navigations _ _ hx _ hnav _ hid scope ih

/-- What identity means for the values that enumerations have given. -/
structure Concert.Identified (p : Concert Chronicle) : Prop where
  /-- Where identity is resolved, entities are the same exactly if their types and keys are. -/
  same : ∀ scope r r' id id', scope ≠ .nowhere → (scope, r) ∈ p.given → (scope, r') ∈ p.given →
    p.state.world.graph.Shows r id → p.state.world.graph.Shows r' id' →
      ∃ x x', p.state.world.graph.get? id = some x ∧ p.state.world.graph.get? id' = some x' ∧
        (id = id' ↔ x.entityType = x'.entityType ∧ x.identity = x'.identity)
  /-- An entity is what has been decoded first. -/
  first : ∀ scope r id, (scope, r) ∈ p.given → p.state.world.graph.Shows r id →
    ∃ d x, p.state.decodings.find? (·.id = id) = some d ∧ p.state.world.graph.get? id = some x ∧ d.scope = scope ∧
      x.entityType = d.node.entityType ∧ Binding.readAll d.node.key d.reader = .ok x.key ∧
        d.node.readFields d.reader = .ok x.fields
  /-- A manager knows as many entities as types and keys have been decoded in its scope. -/
  tracked : ∀ place, (p.state.world.manager place).known.size =
    (((p.state.decodings.filter (·.scope = .manager place)).map Decoding.label).dedup).length
  /-- Where identity is not resolved, no two decodings lead to the same entity. -/
  apart : p.state.decodings.Pairwise fun d d' => d.scope = .nowhere → d.id ≠ d'.id

theorem Concert.Resolved.identified {p : Concert Chronicle} (h : p.Resolved) : p.Identified := by
  have hgraph := h.state.graph
  constructor
  case same =>
    intro scope r r' id id' hscope hr hr' hid hid'
    obtain ⟨d, hd, rfl, rfl⟩ := hgraph.decoded_of_shows (h.given _ hr) hid
    obtain ⟨d', hd', hscope', rfl⟩ := hgraph.decoded_of_shows (h.given _ hr') hid'
    obtain ⟨x, hx, hlabel⟩ := hgraph.label d hd
    obtain ⟨x', hx', hlabel'⟩ := hgraph.label d' hd'
    refine ⟨x, x', hx, hx', ?_⟩
    calc d.id = d'.id
      _ ↔ d.scope = d'.scope ∧ d.label = d'.label := hgraph.same d hd d' hd' hscope
      _ ↔ x.label = x'.label := by rw [hlabel, hlabel', hscope', and_iff_right rfl]
      _ ↔ _ := Prod.ext_iff
  case first =>
    intro scope r id hr hid
    have hdecoded := hgraph.decoded_of_shows (h.given _ hr) hid
    obtain ⟨d, hfind⟩ := hdecoded.find?
    have hd := mem_of_find?_eq_some hfind
    have hdid : d.id = id := by simpa using find?_some hfind
    obtain ⟨x, hx, hkey, hfields⟩ := hgraph.first id d hfind
    obtain ⟨x', hx', hlabel⟩ := hgraph.label d hd
    rw [hdid, hx, Option.some_inj] at hx'
    subst hx'
    refine ⟨d, x, hfind, hx, hgraph.scope_eq ⟨d, hd, rfl, hdid⟩ hdecoded, (Prod.ext_iff.1 hlabel).1, ?_, hfields⟩
    rw [hkey]
    exact hgraph.read d hd
  case tracked => exact fun place => (h.state.managers place).size_eq
  case apart => exact hgraph.apart

/-- Whatever enumerations over one world do, starting with managers that know nothing: their values are as they were
without the decodings being noted, and identity is resolved as they asked for. -/
theorem Concert.identity_resolved {w : World} (hw : ∀ place, (w.manager place).known = .empty) (cues : List Cue) :
    ((Concert.start ⟨w, []⟩).run .recorded cues).Forgets ((Concert.start w).run .plain cues) ∧
      ((Concert.start ⟨w, []⟩).run .recorded cues).Identified := by
  have hstart : (Concert.start (⟨w, []⟩ : Chronicle)).Forgets (Concert.start w) := ⟨rfl, .nil, rfl⟩
  exact ⟨hstart.run cues, ((Concert.resolved_start hw).run cues).identified⟩

/-- Posts with their authors. -/
def trackedPosts : CompiledQuery :=
  let author : EntityNode := ⟨"Person", [.field 2], [("Name", .field 3)], [], [], true⟩
  .prepared ⟨.entity ⟨"Post", [.field 0], [("Title", .field 1)], [("Author", author)], [], false⟩, []⟩ .trackAll []

/-- A pull waits for its reader while another enumeration gives a post by the same author. -/
def overlapping : List Cue :=
  [.create trackedPosts .plain .asynchronous, .create trackedPosts { Context.plain with detector := 1 } .blocking,
    .pull 0, .pull 1, .resume 0, .resume 0, .pull 0, .resume 0]

/-- The same keys come in integers of two widths. -/
def overlappingWorld : World :=
  .prepared [[[.int32 2, .string "late", .int32 7, .string "A"]],
    [[.int32 1, .string "one", .int64 7, .string "B"], [.int64 2, .string "two", .int32 7, .string "C"]]]

theorem Concert.identity_resolved_overlapping :
    (∀ place, (overlappingWorld.manager place).known = .empty) ∧
      (((Concert.start ⟨overlappingWorld, []⟩).run .recorded overlapping).given.map fun r => (r.1, r.2.entity?)) =
        [(.manager 0, some 0), (.manager 0, some 2), (.manager 0, some 0)] ∧
      (((Concert.start ⟨overlappingWorld, []⟩).run .recorded overlapping).state.world.manager 0).known.size = 3 ∧
      ((Concert.start ⟨overlappingWorld, []⟩).run .recorded overlapping).Forgets
        ((Concert.start overlappingWorld).run .plain overlapping) ∧
      ((Concert.start ⟨overlappingWorld, []⟩).run .recorded overlapping).Identified := by
  have hw (place : Nat) : (overlappingWorld.manager place).known = .empty := by
    cases place with
    | zero => rfl
    | succ place => rfl
  exact ⟨hw, by decide +kernel, by decide +kernel, identity_resolved hw overlapping⟩

end QueryShaping
