import QueryShaping.Error
import QueryShaping.Json.Basic

/-!
# Retries

A failure that may go away is retried after a delay that doubles each time, up to a bound. Only operations that can be
repeated without harm are tried again.
-/

namespace QueryShaping

/-- A span of time in nanoseconds. -/
structure Duration where
  nanos : Nat
deriving DecidableEq

namespace Duration

def perSecond : Nat := 1000000000

def ofMillis (n : Nat) : Duration := ⟨n * 1000000⟩

def ofSeconds (n : Nat) : Duration := ⟨n * perSecond⟩

/-- The longest span: seconds are counted in 64 bits. -/
def longest : Duration := ⟨UInt64.size * perSecond - 1⟩

/-- A multiple of a span, but never more than the longest one. -/
def scale (d : Duration) (factor : Nat) : Duration :=
  ⟨min (d.nanos * factor) longest.nanos⟩

/-- The whole milliseconds that cover the span. -/
def millis (d : Duration) : Nat :=
  (d.nanos + 999999) / 1000000

def encode (d : Duration) : Json :=
  .object [("secs", .int (d.nanos / perSecond)), ("nanos", .int (d.nanos % perSecond))]

/-- The span of so many seconds and nanoseconds, of which the latter are counted in 32 bits. -/
def ofParts? (secs nanos : Json) : Option Duration := do
  let secs ← secs.nat?
  let nanos ← nanos.nat?
  guard (nanos < UInt32.size)
  let d : Duration := ⟨secs * perSecond + nanos⟩
  guard (d.nanos ≤ longest.nanos)
  return d

/-- Reads a span of seconds and nanoseconds by name, without any other field, or by position. -/
def decode? (j : Json) : Option Duration :=
  match j with
  | .object members => do
    guard (members.all fun (name, _) => name = "secs" || name = "nanos")
    ofParts? (← j.field? "secs") (← j.field? "nanos")
  | .array [secs, nanos] => ofParts? secs nanos
  | _ => none

end Duration

structure RetryPolicy where
  /-- The number of tries after the first one. -/
  maxRetries : Nat := 5
  baseDelay : Duration := .ofMillis 100
  maxDelay : Duration := .ofSeconds 30
deriving DecidableEq

namespace RetryPolicy

/-- The largest number of retries a policy can be given. -/
def mostRetries : Nat := UInt32.size - 1

/-- Delays stop doubling after so many retries. -/
def lastDoubling : Nat := 31

/-- The delay before the retry of this number, counted from zero. -/
def delayFor (p : RetryPolicy) (attempt : Nat) : Duration :=
  ⟨min (p.baseDelay.scale (Nat.pow 2 (min attempt lastDoubling))).nanos p.maxDelay.nanos⟩

def encode (p : RetryPolicy) : Json :=
  .object [("max_retries", .int p.maxRetries), ("base_delay", p.baseDelay.encode), ("max_delay", p.maxDelay.encode)]

def retries? (j : Json) : Option Nat :=
  j.nat?.filter (· ≤ mostRetries)

def memberNames : List String :=
  ["max_retries", "base_delay", "max_delay"]

/-- Reads the parts of a policy; what is missing has its default. -/
def ofMembers? (j : Json) : Option RetryPolicy := do
  let defaults : RetryPolicy := {}
  let maxRetries ← (j.field? "max_retries").elim (some defaults.maxRetries) retries?
  let baseDelay ← (j.field? "base_delay").elim (some defaults.baseDelay) Duration.decode?
  let maxDelay ← (j.field? "max_delay").elim (some defaults.maxDelay) Duration.decode?
  return ⟨maxRetries, baseDelay, maxDelay⟩

/-- Reads a policy by name or by position. -/
def decode? : Json → Option RetryPolicy
  | .object members => ofMembers? (.object members)
  | .array values =>
    if values.length ≤ memberNames.length then ofMembers? (.object (memberNames.zip values)) else none
  | _ => none

variable {m : Type → Type} [Monad m] {α : Type}

/-- Tries an operation, and again after each failure that may go away as long as retries are left. -/
def attempts (p : RetryPolicy) (repeatable : Bool) (operation : m (Except Error α)) (sleep : Duration → m Unit) :
    (left attempt : Nat) → m (Except Error α)
  | 0, _ => operation
  | left + 1, attempt => do
    match ← operation with
    | .ok a => return .ok a
    | .error e =>
      if repeatable && e.isTransient then
        sleep (p.delayFor attempt)
        p.attempts repeatable operation sleep left (attempt + 1)
      else return .error e

end RetryPolicy

/-- How an operation is carried out that may fail. -/
inductive Strategy where
  | once
  | retrying (p : RetryPolicy)

/-- Carries out an operation. -/
def Strategy.execute {m : Type → Type} [Monad m] {α : Type} (s : Strategy) (repeatable : Bool)
    (operation : m (Except Error α)) (sleep : Duration → m Unit) : m (Except Error α) :=
  match s with
  | .once => operation
  | .retrying p => p.attempts repeatable operation sleep p.maxRetries 0

end QueryShaping
