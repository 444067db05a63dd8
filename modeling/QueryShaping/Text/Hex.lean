/-!
# Hexadecimal text

Bytes are written as two lowercase digits each. Reading works on the UTF-8 bytes of the text and takes
digits of either case; an odd number of bytes is reported before any bad digit.
-/

namespace QueryShaping.Text

/-- Why a text is not a sequence of hexadecimal pairs. -/
inductive HexFault where
  | oddLength
  | badDigit (byte : UInt8) (position : Nat)
deriving DecidableEq

/-- The digit of a number below sixteen. -/
def hexDigit (n : Nat) : Char :=
  if n < 10 then Char.ofNat (48 + n) else Char.ofNat (87 + n)

/-- The value of a digit of either case. -/
def hexDigitValue? (b : UInt8) : Option UInt8 :=
  if 48 ≤ b && b ≤ 57 then some (b - 48)
  else if 97 ≤ b && b ≤ 102 then some (b - 87)
  else if 65 ≤ b && b ≤ 70 then some (b - 55)
  else none

def hexByte (b : UInt8) : List Char :=
  [hexDigit (b.toNat / 16), hexDigit (b.toNat % 16)]

/-- Two digits for each byte. -/
def hexText (bytes : List UInt8) : String :=
  String.ofList (bytes.flatMap hexByte)

/-- The bytes of a list of digit pairs whose first digit stands at `position`. -/
def readHexPairs (position : Nat) : List UInt8 → Except HexFault (List UInt8)
  | [] => .ok []
  | [b] => .error (.badDigit b position)
  | high :: low :: rest =>
    match hexDigitValue? high, hexDigitValue? low with
    | none, _ => .error (.badDigit high position)
    | some _, none => .error (.badDigit low (position + 1))
    | some h, some l => do
      let bytes ← readHexPairs (position + 2) rest
      return (h * 16 + l) :: bytes

/-- The bytes that a text of hexadecimal pairs stands for. -/
def readHex (s : String) : Except HexFault (List UInt8) :=
  let bytes := s.toUTF8.data.toList
  if bytes.length % 2 = 1 then .error .oddLength else readHexPairs 0 bytes

/-- The digits of a number in base sixteen, lowest last, padded with zeros to `width`. -/
def hexNumber (width n : Nat) : String :=
  let digits := Nat.toDigits 16 n
  String.ofList (List.replicate (width - digits.length) '0' ++ digits)

/-- A byte read as a Latin-1 character between single quotes, with an escape where the character has no
glyph of its own. -/
def quotedByte (b : UInt8) : String :=
  let n := b.toNat
  let body :=
    if n = 0 then "\\0"
    else if n = 9 then "\\t"
    else if n = 10 then "\\n"
    else if n = 13 then "\\r"
    else if n = 39 then "\\'"
    else if n = 92 then "\\\\"
    else if n < 32 || (127 ≤ n && n ≤ 160) || n = 173 then
      "\\u\x7b" ++ String.ofList (Nat.toDigits 16 n) ++ "\x7d"
    else String.singleton (Char.ofNat n)
  "'" ++ body ++ "'"

def HexFault.message : HexFault → String
  | .oddLength => "Odd number of digits"
  | .badDigit byte position => "Invalid character " ++ quotedByte byte ++ " at position " ++ toString position

end QueryShaping.Text
