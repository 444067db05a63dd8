/-!
# The remainder of doubles

The remainder of a division that is truncated toward zero. It is always a double itself, so it is computed on
integers without rounding, and it has the sign of the dividend.
-/

namespace QueryShaping

/-- The magnitude of a finite double as `mantissa * 2 ^ exponent`. -/
def magnitudeParts (x : Float) : Nat × Int :=
  let bits := x.toBits.toNat
  let field : Nat := bits / Nat.pow 2 52 % 2048
  let fraction : Nat := bits % Nat.pow 2 52
  if field = 0 then (fraction, -1074) else (Nat.pow 2 52 + fraction, (field : Int) - 1075)

/-- The bits of the magnitude `mantissa * 2 ^ exponent`, which has to be that of a finite double. -/
def magnitudeBits (mantissa : Nat) (exponent : Int) : Nat :=
  let lowest := max (exponent + mantissa.log2 - 52) (-1074)
  let scaled := mantissa <<< (exponent - lowest).toNat >>> (lowest - exponent).toNat
  if scaled < Nat.pow 2 52 then scaled else (lowest + 1075).toNat * Nat.pow 2 52 + (scaled - Nat.pow 2 52)

def floatRemainder (x y : Float) : Float :=
  if x.isNaN || y.isNaN || x.isInf || y == 0.0 then 0.0 / 0.0
  else if y.isInf then x
  else
    let (mantissa, exponent) := magnitudeParts x
    let (mantissa', exponent') := magnitudeParts y
    let unit := min exponent exponent'
    let remainder := (mantissa <<< (exponent - unit).toNat) % (mantissa' <<< (exponent' - unit).toNat)
    let magnitude := if remainder = 0 then 0 else magnitudeBits remainder unit
    Float.ofBits (UInt64.ofNat (magnitude + if Nat.pow 2 63 ≤ x.toBits.toNat then Nat.pow 2 63 else 0))

end QueryShaping
