import JourneyPlanner.Json.Record

/-!
Attributes of stops and trips that come from a small choice of values, with the
names they have in documents.
-/

namespace JourneyPlanner

/-- Whether passengers may get on or off at a stop. -/
inductive PickDrop where
  | scheduled
  | unavailable
  | callAgency
  | askDriver
  deriving DecidableEq, Repr, Inhabited

namespace PickDrop

def ofCode : Nat → PickDrop
  | 1 => .unavailable
  | 2 => .callAgency
  | 3 => .askDriver
  | _ => .scheduled

def isRoutable (p : PickDrop) : Bool :=
  p != .unavailable

def name : PickDrop → String
  | .scheduled => "scheduled"
  | .unavailable => "none"
  | .callAgency => "call_agency"
  | .askDriver => "coordinate_with_driver"

def all : List PickDrop := [.scheduled, .unavailable, .callAgency, .askDriver]

def toJson (p : PickDrop) : Json :=
  .str p.name

def ofJson : Json → Reading PickDrop :=
  Json.readChoice (all.map fun p => (p.name, p))

/-- Takes a code of one byte as well as a name. -/
def ofCodeOrName : Json → Reading PickDrop
  | .int n => if 0 ≤ n ∧ n ≤ 255 then .ok (ofCode n.toNat) else .error .mismatch
  | j => ofJson j

end PickDrop

/-- How suitable a stop is for changing between trips. -/
inductive TransferPriority where
  | discouraged
  | allowed
  | recommended
  | preferred
  deriving DecidableEq, Repr, Inhabited

namespace TransferPriority

def name : TransferPriority → String
  | .discouraged => "discouraged"
  | .allowed => "allowed"
  | .recommended => "recommended"
  | .preferred => "preferred"

def all : List TransferPriority := [.discouraged, .allowed, .recommended, .preferred]

def toJson (p : TransferPriority) : Json :=
  .str p.name

def ofJson : Json → Reading TransferPriority :=
  Json.readChoice (all.map fun p => (p.name, p))

end TransferPriority

/-- Whether a wheelchair or a bike may be taken along. -/
inductive Permission where
  | unknown
  | allowed
  | notAllowed
  deriving DecidableEq, Repr, Inhabited

namespace Permission

def name : Permission → String
  | .unknown => "unknown"
  | .allowed => "allowed"
  | .notAllowed => "not_allowed"

def all : List Permission := [.unknown, .allowed, .notAllowed]

def toJson (p : Permission) : Json :=
  .str p.name

def ofJson : Json → Reading Permission :=
  Json.readChoice (all.map fun p => (p.name, p))

end Permission

/-- What real-time information has done to a trip. -/
inductive LiveState where
  | scheduled
  | updated
  | canceled
  | added
  | modified
  deriving DecidableEq, Repr, Inhabited

namespace LiveState

def name : LiveState → String
  | .scheduled => "scheduled"
  | .updated => "updated"
  | .canceled => "canceled"
  | .added => "added"
  | .modified => "modified"

def all : List LiveState := [.scheduled, .updated, .canceled, .added, .modified]

def toJson (s : LiveState) : Json :=
  .str s.name

def ofJson : Json → Reading LiveState :=
  Json.readChoice (all.map fun s => (s.name, s))

end LiveState
end JourneyPlanner
