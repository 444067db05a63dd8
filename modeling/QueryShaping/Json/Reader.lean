import QueryShaping.Json.Basic

/-!
# Reading JSON

A strict reader for one value with blanks around it and nothing else. An integer without sign of fraction or
exponent that fits in 64 bits, signed or unsigned, is exact; every other number, `-0` among them, is the nearest
double, and must be finite.
-/

namespace QueryShaping.Json

/-- Drops the blanks of the format. -/
def skipBlanks : List Char → List Char
  | c :: cs => if c = ' ' || c = '\n' || c = '\t' || c = '\r' then skipBlanks cs else c :: cs
  | [] => []

def hexValue? (c : Char) : Option Nat :=
  if '0' ≤ c ∧ c ≤ '9' then some (c.toNat - 48)
  else if 'a' ≤ c ∧ c ≤ 'f' then some (c.toNat - 87)
  else if 'A' ≤ c ∧ c ≤ 'F' then some (c.toNat - 55)
  else none

/-- The 16-bit unit written by four hexadecimal digits. -/
def unit16? (a b c d : Char) : Option Nat := do
  return ((← hexValue? a) * 16 + (← hexValue? b)) * 256 + (← hexValue? c) * 16 + (← hexValue? d)

/-- The character of a simple escape. -/
def escaped? : Char → Option Char
  | '"' => some '"'
  | '\\' => some '\\'
  | '/' => some '/'
  | 'b' => some (Char.ofNat 8)
  | 'f' => some (Char.ofNat 12)
  | 'n' => some '\n'
  | 'r' => some '\r'
  | 't' => some '\t'
  | _ => none

/-- The rest of a string after its opening quote; `done` holds what was read, last first. -/
def readText (done : List Char) : List Char → Option (String × List Char)
  | '"' :: rest => some (String.ofList done.reverse, rest)
  | '\\' :: 'u' :: a :: b :: c :: d :: rest =>
    match unit16? a b c d with
    | none => none
    | some high =>
      if 0xD800 ≤ high && high < 0xDC00 then
        match rest with
        | '\\' :: 'u' :: e :: f :: g :: h :: rest =>
          match unit16? e f g h with
          | none => none
          | some low =>
            if 0xDC00 ≤ low && low < 0xE000 then
              readText (Char.ofNat (0x10000 + (high - 0xD800) * 1024 + (low - 0xDC00)) :: done) rest
            else none
        | _ => none
      else if 0xDC00 ≤ high && high < 0xE000 then none
      else readText (Char.ofNat high :: done) rest
  | '\\' :: c :: rest =>
    match escaped? c with
    | some c => readText (c :: done) rest
    | none => none
  | c :: rest => if c.toNat < 32 then none else readText (c :: done) rest
  | [] => none

def digitsValue (digits : List Char) : Nat :=
  digits.foldl (fun n c => n * 10 + (c.toNat - 48)) 0

/-- The digits after a mark, if the mark is there; at least one is needed then. -/
def readFraction : List Char → Option (List Char × List Char)
  | '.' :: rest =>
    let digits := rest.takeWhile Char.isDigit
    if digits.isEmpty then none else some (digits, rest.dropWhile Char.isDigit)
  | rest => some ([], rest)

/-- The exponent, if there is one. -/
def readExponent : List Char → Option (Option Int × List Char)
  | mark :: rest =>
    if mark = 'e' || mark = 'E' then
      let (negative, rest) := match rest with
        | '-' :: rest => (true, rest)
        | '+' :: rest => (false, rest)
        | rest => (false, rest)
      let digits := rest.takeWhile Char.isDigit
      if digits.isEmpty then none
      else
        let n : Int := digitsValue digits
        some (some (if negative then -n else n), rest.dropWhile Char.isDigit)
    else some (none, mark :: rest)
  | [] => some (none, [])

/-- A power of ten that no finite double reaches, and with its sign changed one that rounds to zero. -/
def outermostPower : Int := 400

/-- The nearest double of the number that these digits give, times `10 ^ power`. -/
def nearestDouble (negative : Bool) (digits : List Char) (power : Int) : Float :=
  let n := digitsValue digits
  let x :=
    if n = 0 || power + digits.length < -outermostPower then 0.0
    else if outermostPower < power then 1.0 / 0.0
    else Float.ofScientific n (decide (power < 0)) power.natAbs
  if negative then -x else x

/-- The parts of a written number after its sign. -/
structure Numeral where
  whole : List Char
  fraction : List Char
  exponent : Option Int

def readNumeral (cs : List Char) : Option (Numeral × List Char) := do
  let whole := cs.takeWhile Char.isDigit
  let rest := cs.dropWhile Char.isDigit
  guard (!whole.isEmpty && (whole.length = 1 || whole.head? ≠ some '0'))
  let (fraction, rest) ← readFraction rest
  let (exponent, rest) ← readExponent rest
  return (⟨whole, fraction, exponent⟩, rest)

/-- The number with this sign, if it can be kept. -/
def Numeral.json? (n : Numeral) (negative : Bool) : Option Json := do
  let whole : Int := digitsValue n.whole
  let whole := if negative then -whole else whole
  if n.fraction.isEmpty && n.exponent.isNone && Int64.minValue.toInt ≤ whole && whole < UInt64.size
      && !(negative && whole = 0) then
    return .int whole
  else
    let x := nearestDouble negative (n.whole ++ n.fraction) (n.exponent.getD 0 - n.fraction.length)
    guard x.isFinite
    return .float x

/-- A number after its sign. -/
def readUnsigned (negative : Bool) (cs : List Char) : Option (Json × List Char) := do
  let (n, rest) ← readNumeral cs
  return (← n.json? negative, rest)

mutual

/-- Reads a value; blanks may stand before it. -/
def readValue : Nat → List Char → Option (Json × List Char)
  | 0, _ => none
  | fuel + 1, cs =>
    match skipBlanks cs with
    | 'n' :: 'u' :: 'l' :: 'l' :: rest => some (.null, rest)
    | 't' :: 'r' :: 'u' :: 'e' :: rest => some (.bool true, rest)
    | 'f' :: 'a' :: 'l' :: 's' :: 'e' :: rest => some (.bool false, rest)
    | '"' :: rest => (readText [] rest).map fun (s, rest) => (.string s, rest)
    | '[' :: rest =>
      match skipBlanks rest with
      | ']' :: rest => some (.array [], rest)
      | rest => (readItems fuel rest).map fun (items, rest) => (.array items, rest)
    | '\x7b' :: rest =>
      match skipBlanks rest with
      | '\x7d' :: rest => some (.object [], rest)
      | rest => (readMembers fuel rest).map fun (members, rest) => (.object members, rest)
    | '-' :: rest => readUnsigned true rest
    | rest => readUnsigned false rest

/-- Reads items up to the end of their array. -/
def readItems : Nat → List Char → Option (List Json × List Char)
  | 0, _ => none
  | fuel + 1, cs => do
    let (item, rest) ← readValue fuel cs
    match skipBlanks rest with
    | ',' :: rest =>
      let (items, rest) ← readItems fuel rest
      return (item :: items, rest)
    | ']' :: rest => return ([item], rest)
    | _ => none

/-- Reads members up to the end of their object. -/
def readMembers : Nat → List Char → Option (List (String × Json) × List Char)
  | 0, _ => none
  | fuel + 1, cs =>
    match skipBlanks cs with
    | '"' :: rest => do
      let (name, rest) ← readText [] rest
      match skipBlanks rest with
      | ':' :: rest =>
        let (value, rest) ← readValue fuel rest
        match skipBlanks rest with
        | ',' :: rest =>
          let (members, rest) ← readMembers fuel rest
          return ((name, value) :: members, rest)
        | '\x7d' :: rest => return ([(name, value)], rest)
        | _ => none
      | _ => none
    | _ => none

end

/-- The value that a text holds. Every step of the reader consumes a character or is followed by one that
does, so twice the length of the text is enough. -/
def read? (text : String) : Option Json :=
  let cs := text.toList
  match readValue (2 * cs.length + 2) cs with
  | some (j, rest) => if (skipBlanks rest).isEmpty then some j else none
  | none => none

end QueryShaping.Json
