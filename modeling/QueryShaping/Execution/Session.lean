import QueryShaping.Execution.Enumeration

/-!
# Sessions

A session is a world with named queries, contexts, managers, cancellation sources and enumerations, which is worked on
step by step. Managers and sources come into being when they are first mentioned.
-/

namespace QueryShaping

structure Session where
  world : World
  queries : List (String × CompiledQuery)
  contexts : List (String × Context)
  managers : List (String × Nat)
  sources : List (String × Nat)
  enumerations : List (String × Enumeration)
  /-- The detectors that are held, under the names of their contexts. -/
  held : List (String × Nat)

/-- What a context starts from. -/
inductive ContextBase where
  | fresh (contextType : String)
  | like (other : String)

/-- How a context is made: what is not given is as in its base. -/
structure ContextSetup where
  base : ContextBase
  manager : Option String
  source : Option String
  parameters : Option Parameters
  strategy : Option Strategy

inductive Step where
  | compile (query : String) (shaped : ShapedQuery) (options : QueryOptions)
  | commandText (query : String) (parameters : Parameters)
  | commandCache (query : String)
  | makeContext (name : String) (setup : ContextSetup)
  | start (name query context : String) (mode : Mode)
  | pull (name : String)
  | next (name : String)
  | pullBoth (first second : String)
  /-- A pull during which a source is cancelled after some milliseconds. -/
  | pullCancelled (name source : String) (millis : Nat)
  | stream (name : String)
  | toList (query context : String) (mode : Mode)
  | phase (name : String)
  | reset (name : String)
  | dispose (name : String)
  | drop (name : String)
  | cancel (source : String)
  | dropSource (source : String)
  | check (context : String)
  | hold (context : String)
  | release (context : String)
  | tracked (manager : String)
  | clearTracked (manager : String)
  | events
  | failNext (count : Nat)
  | createTable (name : String) (columns : List String) (rows : List Row)
  | insert (table : String) (row : Row)

/-- What came of a pull, and where the enumeration stands. -/
structure Pulled where
  item : Except Error (Option Result)
  phase : Phase

/-- What a step answers. -/
inductive Outcome where
  | nothing
  | unknownName
  | fault (e : Error)
  | flag (b : Bool)
  | text (s : String)
  | compiled (q : CompiledQuery)
  | cache (c : CommandCache)
  | context (c : Context) (cancelled : Bool)
  | phase (p : Phase)
  | pulled (p : Pulled)
  | both (first second : Pulled)
  | items (items : List (Except Error Result))
  | values (results : List Result)
  | manager (m : StateManager)
  | events (events : List (String × Error))

/-- The outcome of something that may fail. -/
def Outcome.ofExcept (f : α → Outcome) : Except Error α → Outcome
  | .ok a => f a
  | .error e => .fault e

/-- A named list with a thing added or replaced. -/
def putNamed (name : String) (a : α) (named : List (String × α)) : List (String × α) :=
  (name, a) :: named.filter (·.1 ≠ name)

/-- Work on a session that stops at a name that stands for nothing. -/
abbrev Acting := OptionT (StateM Session)

namespace Session

def start (world : World) : Session := ⟨world, [], [], [], [], [], []⟩

def inWorld (f : World → α × World) : Acting α :=
  modifyGet fun s =>
    let (a, w) := f s.world
    (a, { s with world := w })

def changeWorld (f : World → World) : Acting Unit :=
  modify fun s => { s with world := f s.world }

def known (found : Option α) : Acting α := OptionT.mk (pure found)

def query (name : String) : Acting CompiledQuery := do known ((← get).queries.lookup name)

def context (name : String) : Acting Context := do known ((← get).contexts.lookup name)

def enumeration (name : String) : Acting Enumeration := do known ((← get).enumerations.lookup name)

def keep (name : String) (e : Enumeration) : Acting Unit :=
  modify fun s => { s with enumerations := putNamed name e s.enumerations }

def forget (name : String) : Acting Unit :=
  modify fun s => { s with enumerations := s.enumerations.filter (·.1 ≠ name) }

def manager (name : String) : Acting Nat := do
  match (← get).managers.lookup name with
  | some place => return place
  | none =>
    let place ← inWorld World.addManager
    modify fun s => { s with managers := (name, place) :: s.managers }
    return place

def source (name : String) : Acting Nat := do
  match (← get).sources.lookup name with
  | some place => return place
  | none =>
    let place ← inWorld World.addSource
    modify fun s => { s with sources := (name, place) :: s.sources }
    return place

/-- A context of its own: nobody shares its detector or manager, nothing is tried again and nothing cancels it. -/
def freshContext (w : World) (contextType : String) : Context × World :=
  let (detector, w) := w.addDetector
  let (manager, w) := w.addManager
  (⟨contextType, detector, manager, .once, .empty, none⟩, w)

def baseContext : ContextBase → Acting Context
  | .fresh contextType => inWorld fun w => freshContext w contextType
  | .like other => context other

def makeContext (setup : ContextSetup) : Acting Context := do
  let c ← baseContext setup.base
  let manager ← setup.manager.mapM manager
  let source ← setup.source.mapM source
  return { c with
    manager := manager.getD c.manager
    source := source.or c.source
    parameters := setup.parameters.getD c.parameters
    strategy := setup.strategy.getD c.strategy }

/-- Disposes an enumeration and forgets its name. -/
def drop (name : String) : Acting Unit := do
  match (← get).enumerations.lookup name with
  | none => return
  | some e =>
    changeWorld fun w => (e.dispose w).2
    forget name

/-- Changes the store. -/
def onStore (f : Store → Store × Option Error) : Acting Outcome := do
  let fault ← inWorld fun w =>
    let (store, fault) := f w.store
    (fault, { w with store := store })
  return fault.elim .nothing .fault

/-- Cancels a source after some time. -/
def cancelAfter (source millis : Nat) : Proc World Unit := do
  Proc.pause millis fun _ => false
  Proc.modify fun w => w.cancel source

/-- Leaves the detector that is held under a name. -/
def letGo (name : String) : Acting Unit := do
  match (← get).held.lookup name with
  | none => return
  | some place =>
    changeWorld fun w => w.setDetector place .idle
    modify fun s => { s with held := s.held.filter (·.1 ≠ name) }

/-- Enters the detector of a context and stays there, in place of what was held under its name. -/
def hold (name : String) : Acting Outcome := do
  let place := (← context name).detector
  match ((← get).world.detector place).enter with
  | .error e => return .fault e
  | .ok entered =>
    changeWorld fun w => w.setDetector place entered
    letGo name
    modify fun s => { s with held := (name, place) :: s.held }
    return .nothing

/-- Leaves the detector held under the name of a context, and tells whether somebody is in that of the context. -/
def release (name : String) : Acting Outcome := do
  letGo name
  return .flag ((← get).world.detector (← context name).detector).inUse

end Session

open Session in
/-- Carries out a step. -/
def Step.act : Step → Acting Outcome
  | .compile name shaped options => do
    match ← inWorld fun w => w.compile shaped options with
    | .error e => return .fault e
    | .ok q =>
      modify fun s => { s with queries := putNamed name q s.queries }
      return .compiled q
  | .commandText name parameters => do
    let q ← query name
    return .ofExcept (fun c => .text c.text) (← inWorld fun w => w.command q.commands parameters)
  | .commandCache name => do
    let q ← query name
    return .cache (← known (← get).world.commands[q.commands]?)
  | .makeContext name setup => do
    let c ← Session.makeContext setup
    modify fun s => { s with contexts := putNamed name c s.contexts }
    return .context c (c.isCancelled (← get).world)
  | .start name q c mode => do
    let e := Enumeration.start (← query q) (← context c) mode
    Session.drop name
    keep name e
    return .phase e.phase
  | .pull name => do
    let (item, e) ← inWorld (← enumeration name).pull.run
    keep name e
    return .pulled ⟨item, e.phase⟩
  | .next name => do
    let (item, e) ← inWorld (← enumeration name).next.run
    keep name e
    return .pulled ⟨item.elim (.ok none) fun r => r.map some, e.phase⟩
  | .pullBoth first second => do
    let x ← enumeration first
    let y ← enumeration second
    let ((a, x), (b, y)) ← inWorld (x.pull.together y.pull)
    keep first x
    keep second y
    return .both ⟨a, x.phase⟩ ⟨b, y.phase⟩
  | .pullCancelled name source millis => do
    let place ← Session.source source
    let ((item, e), _) ← inWorld ((← enumeration name).pull.together (cancelAfter place millis))
    keep name e
    return .pulled ⟨item, e.phase⟩
  | .stream name => do
    let items ← inWorld (← enumeration name).collect.run
    forget name
    return .items items
  | .toList q c mode => do
    return .ofExcept .values (← inWorld ((← query q).toList (← context c) mode).run)
  | .phase name => do return .phase (← enumeration name).phase
  | .reset name => do return .ofExcept (fun _ => .nothing) (← enumeration name).reset
  | .dispose name => do
    let e ← inWorld (← enumeration name).dispose
    keep name e
    return .phase e.phase
  | .drop name => do
    Session.drop name
    return .nothing
  | .cancel name => do
    let place ← source name
    changeWorld fun w => w.cancel place
    return .flag true
  | .dropSource name => do
    modify fun s => { s with sources := s.sources.filter (·.1 ≠ name) }
    return .nothing
  | .check name => do
    return if (← context name).isCancelled (← get).world then .fault .cancelled else .nothing
  | .hold name => Session.hold name
  | .release name => Session.release name
  | .tracked name => do
    let place ← manager name
    return .manager ((← get).world.manager place)
  | .clearTracked name => do
    let place ← manager name
    changeWorld fun w => w.setManager place (w.manager place).clear
    return .nothing
  | .events => do return .events (← get).world.events.toList
  | .failNext count => onStore fun s => (s.failNext count, none)
  | .createTable name columns rows => onStore fun s => (s.createTable name columns).insertAll name rows
  | .insert table row => onStore fun s => s.insertAll table [row]

/-- Carries out a step of a session. -/
def Session.perform (s : Session) (step : Step) : Outcome × Session :=
  let (outcome, s) := step.act.run.run s
  (outcome.getD .unknownName, s)

end QueryShaping
