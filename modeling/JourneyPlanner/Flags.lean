import JourneyPlanner.Ordered

/-!
Rows of flags, kept as the positions at which they are set.
-/

namespace JourneyPlanner

structure Flags where
  length : Nat
  /-- Ascending. -/
  positions : List Nat
  deriving DecidableEq

namespace Flags

def ofList (row : List Bool) : Flags where
  length := row.length
  positions := (row.zipIdx.filter (·.1)).map (·.2)

/-- A row of the given length; no value if a position lies beyond it. -/
def ofPositions? (length : Nat) (positions : List Nat) : Option Flags :=
  if positions.all fun p => decide (p < length) then
    some ⟨length, Ordered.ascending positions⟩
  else none

end Flags
end JourneyPlanner
