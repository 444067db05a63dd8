import QueryShaping.Json.Basic
import QueryShaping.Decimal.Shortest
import QueryShaping.Text.Hex

/-!
# Writing JSON

The text of a value without blanks. Only quotes, backslashes and control characters are escaped. A double is
written by its shortest decimal, and as `null` when it is not finite.
-/

namespace QueryShaping.Json

def escapeChar (c : Char) : String :=
  if c = '"' then "\\\""
  else if c = '\\' then "\\\\"
  else if c = '\n' then "\\n"
  else if c = '\r' then "\\r"
  else if c = '\t' then "\\t"
  else if c.toNat < 32 then "\\u" ++ Text.hexNumber 4 c.toNat
  else String.singleton c

def quoted (s : String) : String :=
  s.toList.foldl (fun acc c => acc ++ escapeChar c) "\"" ++ "\""

mutual

def render : Json → String
  | .null => "null"
  | .bool b => if b then "true" else "false"
  | .int n => toString n
  | .float x => if x.isFinite then Decimal.doubleText x.toBits else "null"
  | .string s => quoted s
  | .array items => "[" ++ renderItems items ++ "]"
  | .object members => "\x7b" ++ renderMembers members ++ "\x7d"

def renderItems : List Json → String
  | [] => ""
  | [item] => render item
  | item :: items => render item ++ "," ++ renderItems items

def renderMembers : List (String × Json) → String
  | [] => ""
  | [(name, value)] => quoted name ++ ":" ++ render value
  | (name, value) :: members => quoted name ++ ":" ++ render value ++ "," ++ renderMembers members

end

end QueryShaping.Json
