import QueryShaping.Value.Text
import QueryShaping.Decimal.Integer

/-!
# Type mappings

How a stored value relates to the value that an application sees. A converter goes between the two in
both directions, for instance a boolean that is stored as one of two texts.
-/

namespace QueryShaping

/-- The type of an expression as the application sees it. -/
inductive DomainType where
  | bool
  | int32
  | int64
  | float32
  | float64
  | string
  | bytes
  | timestamp
  | uuid
deriving DecidableEq

namespace DomainType

def name : DomainType → String
  | .bool => "Bool"
  | .int32 => "Int32"
  | .int64 => "Int64"
  | .float32 => "Float32"
  | .float64 => "Float64"
  | .string => "String"
  | .bytes => "Bytes"
  | .timestamp => "Timestamp"
  | .uuid => "Uuid"

def all : List DomainType :=
  [.bool, .int32, .int64, .float32, .float64, .string, .bytes, .timestamp, .uuid]

def ofName? (s : String) : Option DomainType :=
  all.find? (·.name = s)

/-- Whether a value is an instance of the type. Null always is, and narrow numbers widen. -/
def accepts : DomainType → Value → Bool
  | _, .null => true
  | .bool, .bool _ => true
  | .int32, .int32 _ => true
  | .int64, .int32 _ => true
  | .int64, .int64 _ => true
  | .float32, .float32 _ => true
  | .float64, .float32 _ => true
  | .float64, .float64 _ => true
  | .string, .string _ => true
  | .bytes, .bytes _ => true
  | .timestamp, .timestamp _ => true
  | .uuid, .uuid _ => true
  | _, _ => false

/-- Widens a number to the variant of the type. -/
def coerce : DomainType → Value → Value
  | .int64, .int32 n => .int64 n.toInt64
  | .float64, .float32 x => .float64 x.toDouble
  | _, v => v

/-- The type of a literal. -/
def ofValue? : Value → Option DomainType
  | .null => none
  | .bool _ => some .bool
  | .int32 _ => some .int32
  | .int64 _ => some .int64
  | .float32 _ => some .float32
  | .float64 _ => some .float64
  | .string _ => some .string
  | .bytes _ => some .bytes
  | .timestamp _ => some .timestamp
  | .uuid _ => some .uuid

end DomainType

/-- A conversion between domain values and stored values. -/
inductive Converter where
  | boolToString (falseText trueText : String)
  | boolToZeroOne
  | numberToString
  | uuidToString
deriving DecidableEq

/-- Why a converter refuses a value. -/
inductive ConversionReason where
  | unexpectedDomainValue
  | unexpectedStoredValue
  | notABooleanLiteral
  | notZeroOrOne
  | notAnInteger (fault : Decimal.IntegerFault)
  | notHexadecimal (fault : Text.HexFault)
  | notSixteenBytes
deriving DecidableEq

def ConversionReason.message : ConversionReason → String
  | .unexpectedDomainValue => "unexpected domain value"
  | .unexpectedStoredValue => "unexpected stored value"
  | .notABooleanLiteral => "not a recognised boolean literal"
  | .notZeroOrOne => "expected 0 or 1"
  | .notAnInteger fault => fault.message
  | .notHexadecimal fault => fault.message
  | .notSixteenBytes => "expected 16 bytes"

/-- The short name of a converter. -/
def Converter.name : Converter → String
  | .boolToString .. => "BoolToString"
  | .boolToZeroOne => "BoolToZeroOne"
  | .numberToString => "NumberToString"
  | .uuidToString => "UuidToString"

structure ConversionError where
  converter : Converter
  value : Value
  reason : ConversionReason

def ConversionError.message (e : ConversionError) : String :=
  "cannot convert " ++ e.value.text ++ " using " ++ e.converter.name ++ ": " ++ e.reason.message

namespace Converter

/-- Booleans stored as `Y` and `N`. -/
def yesNo : Converter := .boolToString "N" "Y"

/-- The domain type that the converter produces. -/
def domainType : Converter → DomainType
  | .boolToString .. => .bool
  | .boolToZeroOne => .bool
  | .numberToString => .int64
  | .uuidToString => .uuid

/-- The stored form of a domain value. -/
def store (c : Converter) (v : Value) : Except ConversionError Value :=
  let refuse := Except.error ⟨c, v, .unexpectedDomainValue⟩
  match v with
  | .null => .ok .null
  | _ =>
    match c with
    | .boolToString falseText trueText =>
      match v with
      | .bool b => .ok (.string (if b then trueText else falseText))
      | _ => refuse
    | .boolToZeroOne =>
      match v with
      | .bool b => .ok (.int32 (if b then 1 else 0))
      | _ => refuse
    | .numberToString =>
      match v.int64? with
      | some n => .ok (.string (toString n.toInt))
      | none => refuse
    | .uuidToString =>
      match v with
      | .uuid u => .ok (.string (Text.hexText u.bytes))
      | _ => refuse

/-- The domain value of a stored text. -/
def loadText (c : Converter) (s : String) : Except ConversionReason Value :=
  match c with
  | .boolToString falseText trueText =>
    if s = trueText then .ok (.bool true)
    else if s = falseText then .ok (.bool false)
    else .error .notABooleanLiteral
  | .boolToZeroOne => .error .notZeroOrOne
  | .numberToString =>
    match Decimal.readInteger s with
    | .ok n => .ok (.int64 (Int64.ofInt n))
    | .error fault => .error (.notAnInteger fault)
  | .uuidToString =>
    match Text.readHex s with
    | .error fault => .error (.notHexadecimal fault)
    | .ok data => if h : data.length = 16 then .ok (.uuid ⟨data, h⟩) else .error .notSixteenBytes

/-- The domain value of a stored value that is neither null nor a text. -/
def loadOther (c : Converter) (v : Value) : Except ConversionReason Value :=
  match c with
  | .boolToZeroOne =>
    match v.int64? with
    | some n => if n = 0 then .ok (.bool false) else if n = 1 then .ok (.bool true) else .error .notZeroOrOne
    | none => .error .notZeroOrOne
  | _ => .error .unexpectedStoredValue

/-- The domain form of a stored value. -/
def load (c : Converter) (v : Value) : Except ConversionError Value :=
  let result : Except ConversionReason Value := match v with
    | .null => .ok .null
    | .string s => c.loadText s
    | _ => c.loadOther v
  match result with
  | .ok d => .ok d
  | .error reason => .error ⟨c, v, reason⟩

end Converter

/-- The mapping of a column: how its type is called in the store, what it is in the domain, and the converter
between the two if the representations differ. -/
structure TypeMapping where
  storeType : String
  domainType : DomainType
  converter : Option Converter
deriving DecidableEq

namespace TypeMapping

/-- A mapping without conversion. -/
def plain (storeType : String) (domainType : DomainType) : TypeMapping :=
  ⟨storeType, domainType, none⟩

/-- A mapping through a converter, which decides the domain type. -/
def converted (storeType : String) (converter : Converter) : TypeMapping :=
  ⟨storeType, converter.domainType, some converter⟩

def hasConverter (m : TypeMapping) : Bool :=
  m.converter.isSome

/-- A boolean of the domain that is stored through a converter. -/
def isConvertedBool (m : TypeMapping) : Bool :=
  m.domainType = .bool && m.converter.isSome

end TypeMapping

/-- A value in the stored form that a mapping asks for. -/
def storeWith (mapping : Option TypeMapping) (v : Value) : Except ConversionError Value :=
  match mapping.bind TypeMapping.converter with
  | some converter => converter.store v
  | none => .ok v

end QueryShaping
