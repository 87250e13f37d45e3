import JourneyPlanner.Association
import JourneyPlanner.Json.Basic

/-!
The tables of an outline. A heading opens a table, or one more item of a list of
tables; a key with dots in it opens tables on its way. Every key is given once.
A table that a heading has opened, or a whole value, is not opened again; a table
that is only on the way to another one may get a heading later, and one that
dotted keys have made may only get more dotted keys.
-/

namespace JourneyPlanner.Outline

/-- What has made a table. -/
inductive Origin where
  | heading
  /-- It is on the way to a table with a heading. -/
  | implied
  | dotted

inductive Node where
  | value (v : Json)
  | table (origin : Origin) (members : List (String × Node))
  /-- A list of tables, the one that is open first. -/
  | tables (items : List (List (String × Node)))

abbrev Members := List (String × Node)

mutual

def Node.toJson : Node → Json
  | .value v => v
  | .table _ ms => .obj (membersJson ms)
  | .tables items => .arr (itemsJson items).reverse

def membersJson : List (String × Node) → List (String × Json)
  | [] => []
  | (k, n) :: rest => (k, n.toJson) :: membersJson rest

def itemsJson : List (List (String × Node)) → List Json
  | [] => []
  | ms :: rest => .obj (membersJson ms) :: itemsJson rest

end

/-- Alters the table that a path of headings leads to, opening it if needed. -/
def alterAt? (alter : Members → Option Members) : List String → Members → Option Members
  | [], ms => alter ms
  | k :: path, ms =>
    match Association.find? k ms with
    | none => (alterAt? alter path []).map fun inner => Association.put k (.table .implied inner) ms
    | some (.table origin inner) =>
      (alterAt? alter path inner).map fun inner => Association.put k (.table origin inner) ms
    | some (.tables (inner :: others)) =>
      (alterAt? alter path inner).map fun inner =>
        Association.put k (.tables (inner :: others)) ms
    | some (.tables []) => none
    | some (.value _) => none

/-- Opens a table by its heading. -/
def openTable? (k : String) (ms : Members) : Option Members :=
  match Association.find? k ms with
  | none => some (Association.put k (.table .heading []) ms)
  | some (.table .implied inner) => some (Association.put k (.table .heading inner) ms)
  | some _ => none

/-- Opens the next item of a list of tables. -/
def openItem? (k : String) (ms : Members) : Option Members :=
  match Association.find? k ms with
  | none => some (Association.put k (.tables [[]]) ms)
  | some (.tables items) => some (Association.put k (.tables ([] :: items)) ms)
  | some _ => none

/-- Adds a value under a key of one or more parts. The table that gets it is the
one that is open, or one made by dotted keys. -/
def insertAt? (value : Json) : List String → Members → Option Members
  | [], _ => none
  | [k], ms =>
    match Association.find? k ms with
    | none => some (Association.put k (.value value) ms)
    | some _ => none
  | k :: l :: path, ms =>
    match Association.find? k ms with
    | none =>
      (insertAt? value (l :: path) []).map fun inner => Association.put k (.table .dotted inner) ms
    | some (.table .dotted inner) =>
      (insertAt? value (l :: path) inner).map fun inner =>
        Association.put k (.table .dotted inner) ms
    | some (.table .implied inner) =>
      if path.isEmpty then none
      else (insertAt? value (l :: path) inner).map fun inner =>
        Association.put k (.table .implied inner) ms
    | some (.tables (inner :: others)) =>
      if path.isEmpty then none
      else (insertAt? value (l :: path) inner).map fun inner =>
        Association.put k (.tables (inner :: others)) ms
    | some _ => none

end JourneyPlanner.Outline
