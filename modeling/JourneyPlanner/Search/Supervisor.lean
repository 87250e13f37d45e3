import JourneyPlanner.Routing.Journey

/-!
What ends a search early. A search asks its supervisor before each iteration and
before each round; what happens outside may depend on how often it was asked and
on how many arrivals were reported by then.
-/

namespace JourneyPlanner

structure Supervisor where
  isCancelled : Nat → Nat → Bool := fun _ _ => false
  /-- Milliseconds since the search began. -/
  elapsed : Nat → Nat := fun _ => 0

namespace Supervisor

/-- Cancels before the search begins. -/
def cancelled : Supervisor where
  isCancelled _ _ := true

/-- Cancels once that many arrivals were reported. -/
def afterReports (n : Nat) : Supervisor where
  isCancelled _ reports := decide (1 ≤ n) && decide (n ≤ reports)

def expired (s : Supervisor) (timeout : Option Nat) (checks : Nat) : Bool :=
  timeout.any fun limit => decide (limit ≤ s.elapsed checks)

/-- Why to stop now, if at all; being cancelled comes before being out of time. -/
def verdict (s : Supervisor) (timeout : Option Nat) (checks reports : Nat) :
    Option SearchStatus :=
  if s.isCancelled checks reports then some .cancelled
  else if s.expired timeout checks then some .timedOut
  else none

end Supervisor
end JourneyPlanner
