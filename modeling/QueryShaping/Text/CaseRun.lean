/-!
# Runs of case pairs

The simple case mappings of Unicode are long but regular: over a run of code points at a fixed distance from each
other, the mapping adds one constant. A table of such runs is searched from its start.
-/

namespace QueryShaping.Text

/-- The code points `first, first + step, ..., last`, each mapped to itself plus `shift`. -/
structure CaseRun where
  first : Nat
  last : Nat
  step : Nat
  shift : Int

def CaseRun.covers (r : CaseRun) (n : Nat) : Bool :=
  r.first ≤ n && n ≤ r.last && (n - r.first) % r.step = 0

/-- The run that maps the images back. -/
def CaseRun.reverse (r : CaseRun) : CaseRun :=
  ⟨(r.first + r.shift).toNat, (r.last + r.shift).toNat, r.step, -r.shift⟩

/-- The image of a character under the first run that covers it. -/
def mapByRuns (runs : List CaseRun) (c : Char) : Char :=
  match runs.find? (·.covers c.toNat) with
  | some r => Char.ofNat (c.toNat + r.shift).toNat
  | none => c

/-- Intervals from a code point on, given by how many code points stand before each of them and in it, in turn. -/
def intervalsFrom (start : Nat) : List Nat → List (Nat × Nat)
  | gap :: size :: rest => (start + gap, start + gap + size - 1) :: intervalsFrom (start + gap + size) rest
  | _ => []

/-- Whether a code point lies in one of the given closed intervals. -/
def inIntervals (intervals : List (Nat × Nat)) (c : Char) : Bool :=
  intervals.any fun (low, high) => low ≤ c.toNat && c.toNat ≤ high

end QueryShaping.Text
