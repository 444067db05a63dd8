import QueryShaping.Json.Reader

/-!
# Reading some members of an object

Who wants only some members of an object has the others passed over. What is passed over must be written like JSON,
but nothing is made of it: a number may be too large for a double, and an escape may name half a character.
-/

namespace QueryShaping.Json

/-- Passes over the rest of a string after its opening quote. -/
def skipText : List Char → Option (List Char)
  | '"' :: rest => some rest
  | '\\' :: 'u' :: a :: b :: c :: d :: rest => if (unit16? a b c d).isSome then skipText rest else none
  | '\\' :: c :: rest => if (escaped? c).isSome then skipText rest else none
  | c :: rest => if c.toNat < 32 then none else skipText rest
  | [] => none

/-- Passes over a number after its sign. -/
def skipUnsigned (cs : List Char) : Option (List Char) :=
  (readNumeral cs).map (·.2)

mutual

/-- Passes over a value; blanks may stand before it. -/
def skipValue : Nat → List Char → Option (List Char)
  | 0, _ => none
  | fuel + 1, cs =>
    match skipBlanks cs with
    | 'n' :: 'u' :: 'l' :: 'l' :: rest => some rest
    | 't' :: 'r' :: 'u' :: 'e' :: rest => some rest
    | 'f' :: 'a' :: 'l' :: 's' :: 'e' :: rest => some rest
    | '"' :: rest => skipText rest
    | '[' :: rest =>
      match skipBlanks rest with
      | ']' :: rest => some rest
      | rest => skipItems fuel rest
    | '\x7b' :: rest =>
      match skipBlanks rest with
      | '\x7d' :: rest => some rest
      | rest => skipMembers fuel rest
    | '-' :: rest => skipUnsigned rest
    | rest => skipUnsigned rest

/-- Passes over items up to the end of their array. -/
def skipItems : Nat → List Char → Option (List Char)
  | 0, _ => none
  | fuel + 1, cs => do
    match skipBlanks (← skipValue fuel cs) with
    | ',' :: rest => skipItems fuel rest
    | ']' :: rest => some rest
    | _ => none

/-- Passes over members up to the end of their object. -/
def skipMembers : Nat → List Char → Option (List Char)
  | 0, _ => none
  | fuel + 1, cs => do
    match skipBlanks cs with
    | '"' :: rest =>
      match skipBlanks (← skipText rest) with
      | ':' :: rest =>
        match skipBlanks (← skipValue fuel rest) with
        | ',' :: rest => skipMembers fuel rest
        | '\x7d' :: rest => some rest
        | _ => none
      | _ => none
    | _ => none

end

/-- Reads a member of which the name has been read, if it is wanted. -/
def readWanted (wanted : String → Bool) (fuel : Nat) (name : String) (cs : List Char) :
    Option (List (String × Json) × List Char) :=
  if wanted name then (readValue fuel cs).map fun (value, rest) => ([(name, value)], rest)
  else (skipValue fuel cs).map fun rest => ([], rest)

/-- Reads the wanted members up to the end of their object. -/
def readWantedMembers (wanted : String → Bool) : Nat → List Char → Option (List (String × Json) × List Char)
  | 0, _ => none
  | fuel + 1, cs => do
    match skipBlanks cs with
    | '"' :: rest =>
      let (name, rest) ← readText [] rest
      match skipBlanks rest with
      | ':' :: rest =>
        let (found, rest) ← readWanted wanted fuel name rest
        match skipBlanks rest with
        | ',' :: rest =>
          let (members, rest) ← readWantedMembers wanted fuel rest
          return (found ++ members, rest)
        | '\x7d' :: rest => return (found, rest)
        | _ => none
      | _ => none
    | _ => none

/-- The object that a text holds, with its wanted members only, or the value of another kind. -/
def readSelected? (wanted : String → Bool) (text : String) : Option Json := do
  let cs := text.toList
  let fuel := 2 * cs.length + 2
  let (j, rest) ← match skipBlanks cs with
    | '\x7b' :: rest =>
      match skipBlanks rest with
      | '\x7d' :: rest => some (.object [], rest)
      | rest => (readWantedMembers wanted fuel rest).map fun (members, rest) => (.object members, rest)
    | rest => readValue fuel rest
  if (skipBlanks rest).isEmpty then some j else none

end QueryShaping.Json
