import JourneyPlanner.Json.Number

/-!
Reading records from JSON. A record is written as an object, where unknown
members are ignored and a known one may stand once, or as the list of its fields
in order. Of several faults the one that comes first in the document is
reported; missing fields come after everything that is there.
-/

namespace JourneyPlanner

/-- Why a JSON value does not read as a record. -/
inductive Misreading where
  | mismatch
  | invalidTime (text : String)
  deriving DecidableEq, Repr

namespace Misreading

/-- Only a clock text that denotes no time has a message of its own. -/
def message? : Misreading → Option String
  | .mismatch => none
  | .invalidTime text => some ("invalid time '" ++ text ++ "'")

end Misreading

abbrev Reading := Except Misreading

structure Record where
  members : List (String × Json)
  /-- Written as a list: every field before a given one is given too. -/
  isList : Bool
  /-- Position of a repeated or surplus field. -/
  surplus : Option Nat

namespace Record

/-- Position of the first member of a known name that was there before. -/
def repeated? (names : List String) : Nat → List String → List (String × Json) → Option Nat
  | _, _, [] => none
  | i, seen, (k, _) :: rest =>
    if seen.contains k then some i
    else repeated? names (i + 1) (if names.contains k then k :: seen else seen) rest

def ofMembers (names : List String) (members : List (String × Json)) : Record :=
  ⟨members, false, repeated? names 0 [] members⟩

def ofItems (names : List String) (items : List Json) : Record :=
  ⟨names.zip items, true, if names.length < items.length then some names.length else none⟩

/-- The record with the given field names. -/
def ofJson (names : List String) : Json → Reading Record
  | .obj members => .ok (ofMembers names members)
  | .arr items => .ok (ofItems names items)
  | _ => .error .mismatch

end Record

/-- The value of a field, or its fault and where that stands. -/
inductive Field (α : Type) where
  | given (value : α)
  | faulty (position : Nat) (cause : Misreading)

namespace Field

def map {α β : Type} (f : α → β) : Field α → Field β
  | .given a => .given (f a)
  | .faulty i e => .faulty i e

/-- Keeps the earlier of two faults. -/
def seq {α β : Type} (f : Field (α → β)) (x : Field α) : Field β :=
  match f, x with
  | .given f, .given a => .given (f a)
  | .given _, .faulty i e => .faulty i e
  | .faulty i e, .given _ => .faulty i e
  | .faulty i e, .faulty j d => if j < i then .faulty j d else .faulty i e

instance : Functor Field where
  map := Field.map

instance : Seq Field where
  seq f x := Field.seq f (x ())

instance : Pure Field where
  pure := .given

def ofReading {α : Type} (position : Nat) : Reading α → Field α
  | .ok a => .given a
  | .error e => .faulty position e

end Field

namespace Record

variable {α : Type}

/-- The member of that name and its position. -/
def find? (name : String) : Nat → List (String × Json) → Option (Nat × Json)
  | _, [] => none
  | i, (k, v) :: rest => if k = name then some (i, v) else find? name (i + 1) rest

def missing (r : Record) : Field α :=
  .faulty r.members.length .mismatch

/-- Reads the field, or takes `otherwise` when it is not there. -/
def field (r : Record) (name : String) (read : Json → Reading α) (otherwise : Field α) : Field α :=
  match find? name 0 r.members with
  | some (i, v) => Field.ofReading i (read v)
  | none => otherwise

def required (r : Record) (name : String) (read : Json → Reading α) : Field α :=
  r.field name read r.missing

def withDefault (r : Record) (name : String) (default : α) (read : Json → Reading α) : Field α :=
  r.field name read (.given default)

/-- A missing field and null both read as `none`. -/
def optional (r : Record) (name : String) (read : Json → Reading α) : Field (Option α) :=
  let readNull : Json → Reading (Option α)
    | .null => .ok none
    | j => (read j).map some
  r.field name readNull (.given none)

/-- Like `optional`, but a list has to give it. -/
def nullable (r : Record) (name : String) (read : Json → Reading α) : Field (Option α) :=
  let readNull : Json → Reading (Option α)
    | .null => .ok none
    | j => (read j).map some
  r.field name readNull (if r.isList then r.missing else .given none)

/-- The record's value, unless a repeated or surplus field comes first. -/
def finish (r : Record) (value : Field α) : Reading α :=
  match value, r.surplus with
  | .given a, none => .ok a
  | .given _, some _ => .error .mismatch
  | .faulty _ e, none => .error e
  | .faulty i e, some j => if i < j then .error e else .error .mismatch

end Record

namespace Json

def readString : Json → Reading String
  | .str s => .ok s
  | _ => .error .mismatch

def readBool : Json → Reading Bool
  | .bool b => .ok b
  | _ => .error .mismatch

def readIntWithin (lo hi : Int) : Json → Reading Int
  | .int n => if lo ≤ n ∧ n ≤ hi then .ok n else .error .mismatch
  | _ => .error .mismatch

/-- A natural number up to `hi`. -/
def readNatUpTo (hi : Nat) : Json → Reading Nat
  | .int n => if 0 ≤ n ∧ n ≤ hi then .ok n.toNat else .error .mismatch
  | _ => .error .mismatch

def readFloat : Json → Reading Float
  | .real x => .ok x
  | .int n =>
    .ok (negateIf (decide (n < 0)) n.natAbs.toUInt64.toFloat)
  | _ => .error .mismatch

def readItems {α : Type} (read : Json → Reading α) : List Json → Reading (List α)
  | [] => .ok []
  | j :: js =>
    match read j with
    | .error e => .error e
    | .ok a =>
      match readItems read js with
      | .error e => .error e
      | .ok as => .ok (a :: as)

def readList {α : Type} (read : Json → Reading α) : Json → Reading (List α)
  | .arr items => readItems read items
  | _ => .error .mismatch

/-- A name out of a fixed choice, bare or as the only member of an object with
the value null. -/
def readChoice {α : Type} (choices : List (String × α)) : Json → Reading α
  | .str s =>
    match choices.lookup s with
    | some a => .ok a
    | none => .error .mismatch
  | .obj [(s, .null)] =>
    match choices.lookup s with
    | some a => .ok a
    | none => .error .mismatch
  | _ => .error .mismatch

/-- Splits a record with a tag into the tag's text and the members beside it. A
list gives the tag first. -/
def readTagged (tag : String) : Json → Reading (String × Json)
  | .obj members =>
    match members.filter fun m => m.1 == tag with
    | [(_, .str s)] => .ok (s, .obj (members.filter fun m => m.1 != tag))
    | _ => .error .mismatch
  | .arr (.str s :: items) => .ok (s, .arr items)
  | _ => .error .mismatch

end Json
end JourneyPlanner
