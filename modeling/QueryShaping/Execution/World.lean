import QueryShaping.Entity.Identity
import QueryShaping.Execution.Command
import QueryShaping.Execution.Proc
import QueryShaping.Execution.Retry
import QueryShaping.Execution.Store

/-!
# The world of an enumeration

Everything that enumerations share: the store, the entities, and the managers, detectors, cancellation sources and
commands that contexts and queries refer to by their places.
-/

namespace QueryShaping

/-- Lets one operation in at a time. -/
structure Detector where
  inUse : Bool
deriving DecidableEq

namespace Detector

def idle : Detector := ⟨false⟩

def enter (d : Detector) : Except Error Detector :=
  if d.inUse then .error .concurrencyViolation else .ok ⟨true⟩

end Detector

structure World where
  store : Store
  /-- The milliseconds that the store lets an asynchronous operation wait, if it does. -/
  latency : Option Nat
  graph : Graph
  managers : Array StateManager
  detectors : Array Detector
  /-- Which cancellation sources have been cancelled. -/
  cancelled : Array Bool
  commands : Array CommandCache
  /-- The identity of the next table source that is made up. -/
  nextTable : TableId
  /-- The failures of enumerations with the types of their contexts, in order. -/
  events : Array (String × Error)

/-- What an enumeration runs against. Contexts can share each of these. -/
structure Context where
  contextType : String
  detector : Nat
  manager : Nat
  strategy : Strategy
  parameters : Parameters
  source : Option Nat

/-- Whether operations wait by blocking or by letting others go on. -/
inductive Mode where
  | blocking
  | asynchronous
deriving DecidableEq

/-- A step in the world that can fail. -/
abbrev Action := ExceptT Error (Proc World)

namespace Action

def world : Action World := ExceptT.lift Proc.get

/-- Changes the world. -/
def perform (f : World → α × World) : Action α := ExceptT.lift (Proc.modifyGet f)

/-- Changes the world, also if it fails. -/
def tryPerform (f : World → Except Error α × World) : Action α := ExceptT.mk (Proc.modifyGet f)

def ofExcept (x : Except Error α) : Action α := ExceptT.mk (pure x)

end Action

namespace World

def start (store : Store) (latency : Option Nat) : World :=
  ⟨store, latency, .empty, #[], #[], #[], #[], 1, #[]⟩

/-- A new manager and its place. -/
def addManager (w : World) : Nat × World :=
  (w.managers.size, { w with managers := w.managers.push .empty })

def addDetector (w : World) : Nat × World :=
  (w.detectors.size, { w with detectors := w.detectors.push .idle })

def addSource (w : World) : Nat × World :=
  (w.cancelled.size, { w with cancelled := w.cancelled.push false })

def addCommands (w : World) (select : Select) : Nat × World :=
  (w.commands.size, { w with commands := w.commands.push (.empty select) })

def manager (w : World) (place : Nat) : StateManager := w.managers[place]?.getD .empty

def detector (w : World) (place : Nat) : Detector := w.detectors[place]?.getD .idle

def setManager (w : World) (place : Nat) (m : StateManager) : World :=
  { w with managers := w.managers.setIfInBounds place m }

def setDetector (w : World) (place : Nat) (d : Detector) : World :=
  { w with detectors := w.detectors.setIfInBounds place d }

def cancel (w : World) (source : Nat) : World :=
  { w with cancelled := w.cancelled.setIfInBounds source true }

/-- The wait before an asynchronous operation. Prepared answers are there at once. -/
def delay (w : World) : Option Nat :=
  if w.store.script.isSome then none else w.latency

/-- The command of a cache for these parameters. -/
def command (w : World) (cache : Nat) (parameters : Parameters) : Except Error Command × World :=
  match w.commands[cache]? with
  | none => (.error .faulted, w)
  | some c =>
    let (c, result) := c.get w.store.refusal parameters
    (result, { w with commands := w.commands.setIfInBounds cache c })

def execute (w : World) (select : Select) (parameters : Parameters) : Except Error Reader × World :=
  let (store, result) := w.store.execute select parameters
  (result, { w with store := store })

/-- Records the failure of an enumeration. -/
def report (w : World) (contextType : String) (e : Error) : World :=
  { w with events := w.events.push (contextType, e) }

def closeReader (w : World) (r : Reader) : World :=
  { w with store := (w.store.closeReader r).1 }

end World

namespace Context

def isCancelled (c : Context) (w : World) : Bool :=
  c.source.any fun source => w.cancelled[source]?.getD false

/-- Fails once the context has been cancelled. -/
def check (c : Context) : Action Unit := do
  if c.isCancelled (← Action.world) then throw .cancelled

/-- Lets others go on for so long, unless the context is cancelled meanwhile. -/
def sleep (c : Context) (millis : Nat) : Action Unit := do
  ExceptT.lift (Proc.pause millis c.isCancelled)
  c.check

/-- Waits, if the mode lets operations wait. -/
def sleepIn (c : Context) (mode : Mode) (millis : Nat) : Action Unit :=
  match mode with
  | .blocking => return
  | .asynchronous => c.sleep millis

/-- Starts something that waits, if the mode lets operations wait. Others may go first and cancel it. -/
def beginIn (c : Context) (mode : Mode) : Action Unit := do
  c.check
  match mode with
  | .blocking => return
  | .asynchronous =>
    ExceptT.lift Proc.yield
    c.check

/-- Waits for the store before an asynchronous operation. -/
def awaitStore (c : Context) (mode : Mode) : Action Unit := do
  match (← Action.world).delay with
  | none => return
  | some millis => c.sleepIn mode millis

/-- Executes a select once. -/
def executeOnce (c : Context) (mode : Mode) (select : Select) : Action (Except Error Reader) := do
  c.awaitStore mode
  Action.perform fun w => w.execute select c.parameters

/-- Opens a reader for a select, by the strategy of the context. -/
def openReader (c : Context) (mode : Mode) (select : Select) : Action Reader := do
  c.beginIn mode
  Action.ofExcept (← c.strategy.execute true (c.executeOnce mode select) fun d => c.sleepIn mode d.millis)

/-- Opens a reader for the command of a cache. -/
def openCached (c : Context) (mode : Mode) (cache : Nat) : Action Reader := do
  let command ← Action.tryPerform fun w => w.command cache c.parameters
  c.openReader mode command.select

/-- Moves a reader to its next row, and tells whether there is one. -/
def readRow (c : Context) (mode : Mode) (r : Reader) : Action (Bool × Reader) := do
  c.beginIn mode
  c.awaitStore mode
  Action.ofExcept r.read

end Context

end QueryShaping
