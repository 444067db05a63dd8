import QueryShaping.Text.UppercaseTable
import QueryShaping.Text.CaseProperties

/-!
# Case conversion

Full Unicode lowercase and uppercase of a text. Every character is mapped by itself, with one exception: a
capital sigma becomes the final form when a letter stands before it and none after it, where marks and
similar characters in between do not count.
-/

namespace QueryShaping.Text

/-- Whether the next character that counts is a letter with case. -/
def nextHasCase (cs : List Char) : Bool :=
  match cs.dropWhile (inIntervals ignorableIntervals) with
  | [] => false
  | c :: _ => inIntervals casedIntervals c

/-- The lowercase form of a character outside the sigma rule. -/
def lowerChar (c : Char) : List Char :=
  if c.toNat < 128 then [c.toLower]
  else if c.toNat = 0x130 then ['i', Char.ofNat 0x307]
  else [mapByRuns lowercaseRuns c]

/-- The lowercase form of a text that follows the characters `before`, nearest first. -/
def lowerAfter (before : List Char) : List Char → List Char
  | [] => []
  | c :: rest =>
    let mapped :=
      if c.toNat = 0x3A3 then
        [Char.ofNat (if nextHasCase before && !nextHasCase rest then 0x3C2 else 0x3C3)]
      else lowerChar c
    mapped ++ lowerAfter (c :: before) rest

def lowercase (s : String) : String :=
  String.ofList (lowerAfter [] s.toList)

def upperChar (c : Char) : List Char :=
  if c.toNat < 128 then [c.toUpper]
  else
    match longUppercase.lookup c.toNat with
    | some images => images.map Char.ofNat
    | none => [mapByRuns uppercaseRuns c]

def uppercase (s : String) : String :=
  String.ofList (s.toList.flatMap upperChar)

/-- ASCII letters in upper case, everything else unchanged. -/
def asciiUppercase (s : String) : String :=
  s.map Char.toUpper

end QueryShaping.Text
