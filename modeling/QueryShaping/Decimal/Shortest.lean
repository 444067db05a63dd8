/-!
# Shortest decimals

A binary floating-point number stands for every real that rounds to it. Its shortest decimal has the
fewest digits among the decimals in that interval and, of those, lies nearest to the number itself. The
search goes through the grids of multiples of `10 ^ k` from coarse to fine and takes the first grid with a
point in the interval; only the two grid points around the number have to be tried. All arithmetic is on
natural numbers.
-/

namespace QueryShaping.Decimal

/-- A positive number `mantissa * 2 ^ exponent` with the spacing of its neighbours: the gap above is one
unit of the mantissa, and the gap below is half of one when the number starts a binade. -/
structure Binary where
  mantissa : Nat
  exponent : Int
  startsBinade : Bool
deriving DecidableEq

/-- The parts of an encoded number with `fractionBits` stored bits of mantissa and the given exponent of the
smallest positive number. -/
def Binary.ofFields (fractionBits : Nat) (smallest : Int) (exponentField fraction : Nat) : Binary :=
  if exponentField = 0 then ⟨fraction, smallest, false⟩
  else ⟨Nat.pow 2 fractionBits + fraction, smallest + exponentField - 1, fraction = 0 && 1 < exponentField⟩

/-- A multiple of `10 ^ k` in the rounding interval, the nearest to the number if there are two. -/
def Binary.onGrid (b : Binary) (k : Int) : Option Nat :=
  let scale := Nat.pow 2 b.exponent.toNat * Nat.pow 10 (-k).toNat
  let unit := 4 * Nat.pow 10 k.toNat * Nat.pow 2 (-b.exponent).toNat
  let number := 4 * b.mantissa * scale
  let least := (4 * b.mantissa - if b.startsBinade then 1 else 2) * scale
  let greatest := (4 * b.mantissa + 2) * scale
  let closed := b.mantissa % 2 = 0
  let below := number / unit
  let belowFits := if closed then least ≤ below * unit else least < below * unit
  let aboveFits := if closed then (below + 1) * unit ≤ greatest else (below + 1) * unit < greatest
  if belowFits then
    if aboveFits && unit ≤ 2 * (number - below * unit) then some (below + 1) else some below
  else if aboveFits then some (below + 1)
  else none

/-- Tries the grids `10 ^ k, 10 ^ (k - 1), ...` in turn. -/
def Binary.firstGrid (b : Binary) : Nat → Int → Nat × Int
  | 0, k => (0, k)
  | grids + 1, k =>
    match b.onGrid k with
    | some digits => (digits, k)
    | none => b.firstGrid grids (k - 1)

/-- The digits and the power of ten of the shortest decimal. A number below `2 ^ n` is below
`10 ^ (n / 3 + 1)` for `0 ≤ n` and below `10 ^ (n / 4 + 1)` for `n < 0`, which is where the search starts; its
finest grid has seventeen digits. -/
def Binary.shortest (b : Binary) : Nat × Int :=
  let bits : Int := b.mantissa.log2 + 1 + b.exponent
  let start := (if 0 ≤ bits then Int.fdiv bits 3 else Int.fdiv bits 4) + 1
  b.firstGrid (bits.natAbs / 3 + 24) start

/-- Writes `digits * 10 ^ power` without an exponent. -/
def positional (digits : Nat) (power : Int) : String :=
  let text := (toString digits).toList
  if 0 ≤ power then String.ofList (text ++ List.replicate power.toNat '0')
  else
    let places := (-power).toNat
    let padded := List.replicate (places + 1 - text.length) '0' ++ text
    let whole := padded.length - places
    String.ofList (padded.take whole ++ '.' :: padded.drop whole)

/-- The text of a number given by its sign and fields; an exponent field of `top` marks infinities and
numbers that are none. -/
def fieldsText (fractionBits : Nat) (smallest : Int) (top : Nat) (negative : Bool)
    (exponentField fraction : Nat) : String :=
  let sign := if negative then "-" else ""
  if exponentField = top then
    if fraction = 0 then sign ++ "inf" else "NaN"
  else if exponentField = 0 && fraction = 0 then sign ++ "0"
  else
    let (digits, power) := (Binary.ofFields fractionBits smallest exponentField fraction).shortest
    sign ++ positional digits power

/-- The shortest decimal of the double with these bits. -/
def doubleText (bits : UInt64) : String :=
  let bits := bits.toNat
  fieldsText 52 (-1074) 2047 (Nat.pow 2 63 ≤ bits) (bits / Nat.pow 2 52 % 2048) (bits % Nat.pow 2 52)

/-- The shortest decimal of the single with these bits, by its own width. -/
def singleText (bits : UInt32) : String :=
  let bits := bits.toNat
  fieldsText 23 (-149) 255 (Nat.pow 2 31 ≤ bits) (bits / Nat.pow 2 23 % 256) (bits % Nat.pow 2 23)

end QueryShaping.Decimal
