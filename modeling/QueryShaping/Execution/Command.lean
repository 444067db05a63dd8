import QueryShaping.Parameters
import QueryShaping.Error

/-!
# Commands

A command is made of a select for one choice of null parameters, and kept. The number of a command tells it apart from
the others that were made of the same select.
-/

namespace QueryShaping

structure Command where
  number : Nat
  select : Select

def Command.text (c : Command) : String := c.select.text

/-- The commands made of a select so far, the latest first. -/
structure CommandCache where
  select : Select
  commands : List (List (String × Bool) × Command)
  hits : Nat
  misses : Nat

namespace CommandCache

def empty (select : Select) : CommandCache := ⟨select, [], 0, 0⟩

def size (c : CommandCache) : Nat := c.commands.length

/-- The share of look-ups that found a command. -/
def hitRate (c : CommandCache) : Float :=
  if c.hits + c.misses = 0 then 0.0 else c.hits.toFloat / (c.hits + c.misses).toFloat

/-- The command for these parameters. It is made if there is none, unless that is refused. -/
def get (c : CommandCache) (refuse : List (String × Bool) → Option Error) (p : Parameters) :
    CommandCache × Except Error Command :=
  match c.commands.lookup p.nullability with
  | some command => ({ c with hits := c.hits + 1 }, .ok command)
  | none =>
    let missed := { c with misses := c.misses + 1 }
    match refuse p.nullability with
    | some e => (missed, .error e)
    | none =>
      let command : Command := ⟨c.size, c.select⟩
      ({ missed with commands := (p.nullability, command) :: c.commands }, .ok command)

end CommandCache

end QueryShaping
