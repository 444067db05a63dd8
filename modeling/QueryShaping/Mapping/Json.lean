import QueryShaping.Mapping.Basic
import QueryShaping.Value.Json

/-!
# Type mappings as JSON
-/

namespace QueryShaping

def DomainType.encode (t : DomainType) : Json :=
  .string t.name

def DomainType.decode? (j : Json) : Option DomainType :=
  j.unit?.bind DomainType.ofName?

namespace Converter

def encode : Converter → Json
  | .boolToString falseText trueText =>
    .variant "BoolToString" (.object [("false_value", .string falseText), ("true_value", .string trueText)])
  | .boolToZeroOne => .string "BoolToZeroOne"
  | .numberToString => .string "NumberToString"
  | .uuidToString => .string "UuidToString"

def decode? (j : Json) : Option Converter :=
  match j with
  | .object [("BoolToString", payload)] => do
    let falseText ← (← payload.field? "false_value").string?
    let trueText ← (← payload.field? "true_value").string?
    return .boolToString falseText trueText
  | _ =>
    match j.unit? with
    | some "BoolToZeroOne" => some .boolToZeroOne
    | some "NumberToString" => some .numberToString
    | some "UuidToString" => some .uuidToString
    | _ => none

end Converter

namespace TypeMapping

def encode (m : TypeMapping) : Json :=
  .object [("store_type", .string m.storeType), ("domain_type", m.domainType.encode),
    ("converter", .ofOption Converter.encode m.converter)]

def decode? (j : Json) : Option TypeMapping := do
  let f ← j.fields? ["store_type", "domain_type", "converter"]
  let storeType ← (← f.value? "store_type").string?
  let domainType ← DomainType.decode? (← f.value? "domain_type")
  let converter ← f.option? Converter.decode? "converter"
  return ⟨storeType, domainType, converter⟩

end TypeMapping

end QueryShaping
