/-!
JSON values. Objects keep their members in document order, repeated names
included; whole numbers are kept apart from numbers with a fraction or exponent.
What has the form of a value but no meaning is kept as such, for a reader may
have no use for it: a number that is too large, a text with half of a surrogate
pair, an object with such a name, and what is nested too deep.
-/

namespace JourneyPlanner

inductive Json where
  | null
  | bool (b : Bool)
  | int (n : Int)
  | real (x : Float)
  | str (s : String)
  | arr (items : List Json)
  | obj (members : List (String × Json))
  | unreadable
  deriving Inhabited

namespace Json

/-- The value of the last member of that name. -/
def get? (name : String) : Json → Option Json
  | .obj members => (members.reverse.find? fun m => m.1 == name).map (·.2)
  | _ => none

def strings (xs : List String) : Json :=
  .arr (xs.map .str)

def ints (xs : List Int) : Json :=
  .arr (xs.map .int)

def nats (xs : List Nat) : Json :=
  .arr (xs.map fun n => .int (Int.ofNat n))

def nullable {α : Type} (write : α → Json) : Option α → Json
  | none => .null
  | some a => write a

def bools (xs : List Bool) : Json :=
  .arr (xs.map .bool)

/-- Puts `value` at its place among members sorted by name, over an older
member of that name. -/
def insertMember (name : String) (value : Json) : List (String × Json) → List (String × Json)
  | [] => [(name, value)]
  | (k, v) :: rest =>
    if name = k then (k, value) :: rest
    else if name < k then (name, value) :: (k, v) :: rest
    else (k, v) :: insertMember name value rest

mutual

/-- Sorts the members of every object by name; of a repeated name the last
member stays. -/
def canonical : Json → Json
  | .arr items => .arr (canonicalItems items)
  | .obj members => .obj (canonicalMembers members [])
  | j => j

def canonicalItems : List Json → List Json
  | [] => []
  | j :: js => canonical j :: canonicalItems js

def canonicalMembers : List (String × Json) → List (String × Json) → List (String × Json)
  | [], acc => acc
  | (k, v) :: rest, acc => canonicalMembers rest (insertMember k (canonical v) acc)

end

mutual

/-- No part of the value is unreadable. -/
def isReadable : Json → Bool
  | .unreadable => false
  | .arr items => areReadable items
  | .obj members => haveReadable members
  | _ => true

def areReadable : List Json → Bool
  | [] => true
  | j :: js => isReadable j && areReadable js

def haveReadable : List (String × Json) → Bool
  | [] => true
  | (_, v) :: rest => isReadable v && haveReadable rest

end

end Json
end JourneyPlanner
