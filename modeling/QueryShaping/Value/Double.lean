/-!
# Floating-point numbers by their bits

A floating-point number is the pattern of its bits. As a number it is compared and computed with; as a pattern it also
keeps which of the many patterns that stand for no number it is. Arithmetic hands such a pattern on, made quiet, and an
operation without a result gives a pattern of its own.
-/

namespace QueryShaping

/-- A number of double precision. -/
structure Double where
  bits : UInt64
deriving DecidableEq

/-- A number of single precision. -/
structure Single where
  bits : UInt32
deriving DecidableEq

namespace Double

def ofFloat (x : Float) : Double := ⟨x.toBits⟩

def toFloat (x : Double) : Float := Float.ofBits x.bits

def zero : Double := ⟨0⟩

/-- The double nearest to an integer, and of two the one whose last bit is not set. -/
def ofInt64 (n : Int64) : Double :=
  let magnitude := n.toInt.natAbs
  if magnitude = 0 then zero
  else
    -- Of the 53 bits from the highest one on, the last one stands for this unit.
    let top := magnitude.log2
    let unit := 1 <<< (top - 52)
    let lead := (magnitude <<< (52 - top)) / unit
    let rest := magnitude % unit
    let up := unit < 2 * rest || (unit = 2 * rest && lead % 2 = 1)
    let bits := (top + 1022) <<< 52 + lead + up.toNat
    ⟨UInt64.ofNat (if n < 0 then bits + 0x8000000000000000 else bits)⟩

/-- The usual pattern for no number. -/
def nan : Double := ⟨0x7FF8000000000000⟩

/-- The pattern that an operation gives when its operands have no result. -/
def invalid : Double := ⟨0xFFF8000000000000⟩

/-- Whether the pattern stands for no number. -/
def isNaN (x : Double) : Bool :=
  0x7FF0000000000000 < x.bits &&& 0x7FFFFFFFFFFFFFFF

def isFinite (x : Double) : Bool :=
  x.bits &&& 0x7FF0000000000000 != 0x7FF0000000000000

/-- The place of a number on the line: its magnitude, counted away from the zeros, which share a place. -/
def place (x : Double) : Int :=
  let magnitude := (x.bits &&& 0x7FFFFFFFFFFFFFFF).toNat
  if x.bits < 0x8000000000000000 then magnitude else -magnitude

/-- Doubles are equal as numbers: the two zeros are, and what is no number differs from itself. -/
instance : BEq Double := ⟨fun a b => !a.isNaN && !b.isNaN && a.place == b.place⟩

/-- Sets the bit by which a pattern for no number is quiet. -/
def quiet (x : Double) : Double := ⟨x.bits ||| 0x0008000000000000⟩

def neg (x : Double) : Double := ⟨x.bits ^^^ 0x8000000000000000⟩

def abs (x : Double) : Double := ⟨x.bits &&& 0x7FFFFFFFFFFFFFFF⟩

/-- Applies an operation on numbers. An operand that is no number is the result, the left one before the right one. -/
def combine (op : Float → Float → Float) (a b : Double) : Double :=
  if a.isNaN then a.quiet
  else if b.isNaN then b.quiet
  else
    let result := ofFloat (op a.toFloat b.toFloat)
    if result.isNaN then invalid else result

def add (a b : Double) : Double := a.combine (· + ·) b

def div (a b : Double) : Double := a.combine (· / ·) b

end Double

namespace Single

def ofFloat32 (x : Float32) : Single := ⟨x.toBits⟩

def toFloat32 (x : Single) : Float32 := Float32.ofBits x.bits

def isNaN (x : Single) : Bool :=
  0x7F800000 < x.bits &&& 0x7FFFFFFF

/-- The place of a number on the line, as for doubles. -/
def place (x : Single) : Int :=
  let magnitude := (x.bits &&& 0x7FFFFFFF).toNat
  if x.bits < 0x80000000 then magnitude else -magnitude

instance : BEq Single := ⟨fun a b => !a.isNaN && !b.isNaN && a.place == b.place⟩

def neg (x : Single) : Single := ⟨x.bits ^^^ 0x80000000⟩

/-- The same number as a double. A pattern for no number keeps its sign and its bits, at the upper end. -/
def toDouble (x : Single) : Double :=
  if x.isNaN then
    let sign := (x.bits >>> 31).toUInt64 <<< 63
    let fraction := (x.bits &&& 0x007FFFFF).toUInt64 <<< 29
    Double.quiet ⟨sign ||| 0x7FF0000000000000 ||| fraction⟩
  else .ofFloat x.toFloat32.toFloat

end Single

/-- The nearest single. A pattern for no number keeps its sign and the upper bits. -/
def Double.toSingle (x : Double) : Single :=
  if x.isNaN then
    let sign := (x.bits >>> 63).toUInt32 <<< 31
    let fraction := (x.bits >>> 29).toUInt32 &&& 0x007FFFFF
    ⟨sign ||| 0x7FC00000 ||| fraction⟩
  else .ofFloat32 x.toFloat.toFloat32

end QueryShaping
