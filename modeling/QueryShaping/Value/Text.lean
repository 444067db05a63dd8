import QueryShaping.Value.Basic
import QueryShaping.Decimal.Shortest
import QueryShaping.Text.Hex

/-!
# Values as text

The literal form of a value in a command.
-/

namespace QueryShaping

/-- A text between single quotes, with the quotes inside it doubled. -/
def quotedLiteral (s : String) : String :=
  "'" ++ String.ofList (s.toList.flatMap fun c => if c = '\'' then ['\'', '\''] else [c]) ++ "'"

def Value.text : Value → String
  | .null => "NULL"
  | .bool b => if b then "TRUE" else "FALSE"
  | .int32 n => toString n.toInt
  | .int64 n => toString n.toInt
  | .float32 x => Decimal.singleText x.bits
  | .float64 x => Decimal.doubleText x.bits
  | .string s => quotedLiteral s
  | .bytes data => "0x" ++ Text.hexText data
  | .timestamp micros => "TIMESTAMP(" ++ toString micros.toInt ++ ")"
  | .uuid u => "UUID('" ++ Text.hexText u.bytes ++ "')"

end QueryShaping
