/-!
# Computations that wait

A computation over a shared state may wait. While it waits others can change the state, and it goes on with what it
finds. It is due after so many milliseconds, or as soon as the state wakes it. No single pause is longer than thirty
years.

Two computations at once take turns in rounds. In a round each goes on as long as it is due, the first one before the
second one. Pauses use the round up: when a certain number of them is over, whoever waits has to wait for the next
round. Time moves on when a round begins and nothing is due.
-/

namespace QueryShaping

/-- What a computation waits for. -/
structure Wait (σ : Type) where
  millis : Nat
  /-- Whether the state wakes it before the time is over. -/
  wakes : σ → Bool
  /-- How much it uses up of a round. -/
  cost : Nat

/-- What a computation over `σ` comes to: its value, or a wait with what happens then. The state is the one that the
computation leaves behind at that point. -/
inductive Progress (σ α : Type) where
  | done (value : α) (state : σ)
  | wait (w : Wait σ) (state : σ) (resume : σ → Progress σ α)

namespace Progress

variable {σ α β : Type}

/-- The state when the computation ended or went waiting. -/
def state : Progress σ α → σ
  | .done _ s => s
  | .wait _ s _ => s

def bind : Progress σ α → (α → σ → Progress σ β) → Progress σ β
  | .done a s, f => f a s
  | .wait w s resume, f => .wait w s fun s => (resume s).bind f

/-- Runs to the end with nobody else around. -/
def finish : Progress σ α → α × σ
  | .done a s => (a, s)
  | .wait _ s resume => (resume s).finish

/-- Runs to the end from a state that others have left. -/
def finishFrom : Progress σ α → σ → α × σ
  | .done a _, s => (a, s)
  | .wait _ _ resume, s => (resume s).finish

end Progress

/-- Where two computations stand that take turns. -/
structure Round where
  /-- The milliseconds since the start. -/
  now : Nat
  /-- What is left of the round. -/
  left : Nat
  /-- Whether the first one has had its turn. -/
  firstDone : Bool

namespace Round

/-- What a round starts with. -/
def size : Nat := 128

def start : Round := ⟨0, size, false⟩

/-- When a wait is over and what it uses up. -/
structure Due where
  time : Nat
  woken : Bool
  cost : Nat

/-- How a wait stands that began at some time. -/
def due {σ : Type} (w : Wait σ) (since : Nat) (s : σ) : Due := ⟨since + w.millis, w.wakes s, w.cost⟩

def isOver (r : Round) (d : Due) : Bool := d.woken || d.time ≤ r.now

/-- The round after this one. -/
def following (r : Round) (first second : Due) : Round :=
  ⟨if r.isOver first || r.isOver second then r.now else min first.time second.time, size, false⟩

/-- Ends a wait of the first or the second computation. -/
def take (r : Round) (d : Due) (second : Bool) : Round := ⟨r.now, r.left - d.cost, second⟩

/-- Whether the second of two waiting computations goes on next, and the round in which one of them does. -/
def next (r : Round) (first second : Due) : Bool × Round :=
  if !r.firstDone && 0 < r.left && r.isOver first then (false, r.take first false)
  else if 0 < r.left && r.isOver second then (true, r.take second true)
  else
    let r := r.following first second
    if r.isOver first then (false, r.take first false) else (true, r.take second true)

end Round

namespace Progress

variable {σ α β : Type}

/-- Goes on with the second of two computations as long as it is its turn. -/
def runSecond (due : σ → Round.Due) (alone : σ → α × σ)
    (first : σ → Round → Progress σ β → Nat → (α × β) × σ) :
    (second : Progress σ β) → (since : Nat) → Round → σ → (α × β) × σ
  | .done b _, _, _, s =>
    let (a, s) := alone s
    ((a, b), s)
  | .wait w held resume, since, r, s =>
    match r.next (due s) (Round.due w since s) with
    | (true, r) =>
      let next := resume s
      runSecond due alone first next r.now r next.state
    | (false, r) => first s r (.wait w held resume) since

/-- Runs two computations to their ends. Each one waits since some time. -/
def interleave : (first : Progress σ α) → (since : Nat) → (second : Progress σ β) → (since' : Nat) → Round → σ →
    (α × β) × σ
  | .done a _, _, second, _, _, s =>
    let (b, s) := second.finishFrom s
    ((a, b), s)
  | .wait w _ resume, since, second, since', r, s =>
    runSecond (Round.due w since) (fun s => (resume s).finish)
      (fun s r second since' =>
        let next := resume s
        next.interleave r.now second since' r next.state)
      second since' r s

/-- Gives the first computation its turn in the first round, then starts the second one. -/
def startSecond (second : σ → Progress σ β) : (first : Progress σ α) → Round → σ → (α × β) × σ
  | .done a _, _, s =>
    let (b, s) := (second s).finish
    ((a, b), s)
  | .wait w held resume, r, s =>
    let due := Round.due w 0 s
    if 0 < r.left && r.isOver due then
      let next := resume s
      startSecond second next (r.take due false) next.state
    else
      let started := second s
      interleave (.wait w held resume) 0 started 0 { r with firstDone := true } started.state

end Progress

/-- A computation over a shared state that may wait. -/
def Proc (σ α : Type) : Type := σ → Progress σ α

namespace Proc

variable {σ α β : Type}

instance : Monad (Proc σ) where
  pure a := fun s => .done a s
  bind x f := fun s => (x s).bind f

/-- Reads and changes the state. -/
def modifyGet (f : σ → α × σ) : Proc σ α := fun s =>
  let (a, s) := f s
  .done a s

def get : Proc σ σ := fun s => .done s s

def modify (f : σ → σ) : Proc σ Unit := fun s => .done () (f s)

/-- The milliseconds of thirty years of 365 days, beyond which no pause lasts. -/
def longestPause : Nat := 30 * 365 * 24 * 60 * 60 * 1000

/-- Waits until the time is over or the state wakes it. A longer time is cut to the longest pause. -/
def pause (millis : Nat) (wakes : σ → Bool) : Proc σ Unit := fun s =>
  .wait ⟨min millis longestPause, wakes, 1⟩ s fun s => .done () s

/-- Lets others go first if the round is used up. -/
def yield : Proc σ Unit := fun s =>
  .wait ⟨0, fun _ => false, 0⟩ s fun s => .done () s

/-- Runs a computation by itself. -/
def run (x : Proc σ α) (s : σ) : α × σ := (x s).finish

/-- Runs two computations over one state at the same time. -/
def together (x : Proc σ α) (y : Proc σ β) (s : σ) : (α × β) × σ :=
  let first := x s
  first.startSecond y .start first.state

end Proc

end QueryShaping
