import QueryShaping.Json.Selective

/-!
# Options of a query
-/

namespace QueryShaping

/-- Whether collections are joined into one command or loaded by commands of their own. -/
inductive Splitting where
  | single
  | split
deriving DecidableEq

/-- What happens to the identity of entities: a manager resolves it across enumerations, each occurrence is an
instance of its own, or identity is resolved within one enumeration. -/
inductive Tracking where
  | trackAll
  | none
  | identityResolution
deriving DecidableEq

namespace Splitting

def name : Splitting → String
  | .single => "SingleQuery"
  | .split => "SplitQuery"

def decode? (j : Json) : Option Splitting :=
  match j.unit? with
  | some "SingleQuery" => some .single
  | some "SplitQuery" => some .split
  | _ => Option.none

end Splitting

namespace Tracking

def name : Tracking → String
  | .trackAll => "TrackAll"
  | .none => "NoTracking"
  | .identityResolution => "NoTrackingWithIdentityResolution"

def decode? (j : Json) : Option Tracking :=
  match j.unit? with
  | some "TrackAll" => some .trackAll
  | some "NoTracking" => some .none
  | some "NoTrackingWithIdentityResolution" => some .identityResolution
  | _ => Option.none

def isTracking (t : Tracking) : Bool := t = .trackAll

def resolvesIdentity (t : Tracking) : Bool := t ≠ .none

end Tracking

structure QueryOptions where
  splitting : Splitting := .single
  tracking : Tracking := .trackAll
  /-- Whether stored booleans are compared with true where they stand as conditions. -/
  compensateConvertedBools : Bool := true
  /-- Whether a pull fails that starts while another one of its context has not returned. -/
  detectConcurrentAccess : Bool := true
deriving DecidableEq

namespace QueryOptions

def isSplit (o : QueryOptions) : Bool := o.splitting = .split

def encode (o : QueryOptions) : Json :=
  .object [("splitting", .string o.splitting.name), ("tracking", .string o.tracking.name),
    ("compensate_converted_bools", .bool o.compensateConvertedBools),
    ("detect_concurrent_access", .bool o.detectConcurrentAccess)]

/-- Sets the option of a name; other names mean nothing. -/
def setMember? (o : QueryOptions) (name : String) (value : Json) : Option QueryOptions :=
  match name with
  | "splitting" => (Splitting.decode? value).map fun s => { o with splitting := s }
  | "tracking" => (Tracking.decode? value).map fun t => { o with tracking := t }
  | "compensate_converted_bools" => value.bool?.map fun b => { o with compensateConvertedBools := b }
  | "detect_concurrent_access" => value.bool?.map fun b => { o with detectConcurrentAccess := b }
  | _ => some o

def memberNames : List String :=
  ["splitting", "tracking", "compensate_converted_bools", "detect_concurrent_access"]

def setMembers? (o : QueryOptions) (members : List (String × Json)) : Option QueryOptions :=
  members.foldlM (fun o (name, value) => o.setMember? name value) o

/-- Reads options by name or by position; what is missing has its default, and no option may be given twice. -/
def decode? : Json → Option QueryOptions
  | .object members =>
    if (members.filter fun (name, _) => memberNames.contains name).map (·.1) |>.Nodup then setMembers? {} members
    else none
  | .array values => if values.length ≤ memberNames.length then setMembers? {} (memberNames.zip values) else none
  | _ => none

/-- Reads options from text; members that are none of them are passed over. -/
def ofText? (text : String) : Option QueryOptions :=
  (Json.readSelected? memberNames.contains text).bind decode?

end QueryOptions

end QueryShaping
