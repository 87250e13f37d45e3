import JourneyPlanner.Clock
import JourneyPlanner.Flags
import JourneyPlanner.Trip.Attributes

/-!
Pools of equal values. A pool numbers its distinct values by first appearance and
counts how often a value was looked up and how often it was there already.
-/

namespace JourneyPlanner

structure Pool (α : Type) where
  values : List α := []
  lookups : Nat := 0
  hits : Nat := 0

namespace Pool

variable {α : Type} [BEq α]

/-- The shared value with its number, and the pool after the look-up. -/
def share (p : Pool α) (value : α) : (Nat × α) × Pool α :=
  match p.values.findIdx? (· == value) with
  | some i => ((i, p.values.getD i value), { p with lookups := p.lookups + 1, hits := p.hits + 1 })
  | none =>
    ((p.values.length, value), { p with values := p.values ++ [value], lookups := p.lookups + 1 })

end Pool

structure SharingStats where
  lookups : Nat
  hits : Nat
  distinct : Nat
  deriving DecidableEq, Repr

/-- One pool for each kind of column of the stop times, and one for texts. -/
structure Pools where
  times : Pool (List Time) := {}
  sequences : Pool (List Nat) := {}
  pickDrops : Pool (List PickDrop) := {}
  headsigns : Pool (List (Option String)) := {}
  flags : Pool Flags := {}
  texts : Pool String := {}

namespace Pools

def stats (p : Pools) : SharingStats where
  lookups := p.times.lookups + p.sequences.lookups + p.pickDrops.lookups + p.headsigns.lookups
    + p.flags.lookups + p.texts.lookups
  hits := p.times.hits + p.sequences.hits + p.pickDrops.hits + p.headsigns.hits + p.flags.hits
    + p.texts.hits
  distinct := p.times.values.length + p.sequences.values.length + p.pickDrops.values.length
    + p.headsigns.values.length + p.flags.values.length + p.texts.values.length

end Pools
end JourneyPlanner
