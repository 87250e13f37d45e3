import JourneyPlanner.Ordered
import JourneyPlanner.Timetable.Basic

/-!
Tables of walks between stops. Of several walks between the same stops the
shortest is kept, and walks from a stop to itself are dropped.
-/

namespace JourneyPlanner

/-- A walk as it was given. -/
structure Walk where
  source : Nat
  target : Nat
  duration : Time
  deriving DecidableEq

namespace Walks

/-- Keeps the shorter of two walks between the same stops. -/
def keepShortest (table : List ((Nat × Nat) × Time)) (w : Walk) : List ((Nat × Nat) × Time) :=
  if w.source = w.target then table
  else
    Association.alter (w.source, w.target)
      (fun old => match old with
        | some d => min d w.duration
        | none => w.duration) table

def shortest (walks : List Walk) : List ((Nat × Nat) × Time) :=
  walks.foldl keepShortest []

def before (a b : Transfer) : Bool :=
  decide (a.target < b.target) || (a.target == b.target && decide (a.duration < b.duration))

/-- Walks that leave each stop, ascending by target. -/
def outgoing (table : List ((Nat × Nat) × Time)) (numStops : Nat) : Rows Transfer :=
  Rows.ofLists <| (List.range numStops).map fun s =>
    Ordered.sort before <|
      (table.filter fun e => e.1.1 == s).map fun e => ⟨e.1.2, e.2⟩

/-- Walks that reach each stop, ascending by source. -/
def incoming (table : List ((Nat × Nat) × Time)) (numStops : Nat) : Rows Transfer :=
  Rows.ofLists <| (List.range numStops).map fun s =>
    Ordered.sort before <|
      (table.filter fun e => e.1.2 == s).map fun e => ⟨e.1.1, e.2⟩

end Walks
end JourneyPlanner
