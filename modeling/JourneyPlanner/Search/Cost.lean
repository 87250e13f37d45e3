import JourneyPlanner.Json.Number
import JourneyPlanner.Routing.Journey
import JourneyPlanner.Routing.Request

/-!
Costs of the parts of a journey. Weights are turned into whole factors once, so
that costs are exact and do not depend on the order in which they are added.
Sums and products stay at the greatest 64 bit number once they reach it.
-/

namespace JourneyPlanner

namespace Cost

def plus (a b : Cost) : Cost :=
  min (a + b) Json.greatestWord

def times (a b : Cost) : Cost :=
  min (a * b) Json.greatestWord

def total (costs : List Cost) : Cost :=
  costs.foldl plus 0

theorem plus_le_plus {a b c d : Cost} (hac : a ≤ c) (hbd : b ≤ d) : plus a b ≤ plus c d := by
  delta Cost plus at *
  omega

end Cost

/-- Penalties and factors in hundredths of a second. -/
structure CostRates where
  board : Cost
  transfer : Cost
  discouraged : Cost
  walk : Cost
  wait : Cost
  transit : Cost
  deriving DecidableEq

namespace CostRates

/-- Negative durations count as none. -/
def seconds (duration : Time) : Cost :=
  duration.toNat

def penalty (duration : Time) : Cost :=
  Cost.times (seconds duration) 100

/-- Rounded to hundredths, halves away from zero. -/
def factor (reluctance : Float) : Cost :=
  let hundredths := reluctance * 100.0
  let whole := hundredths.toUInt64
  if 0.5 ≤ hundredths - whole.toFloat then whole.toNat + 1 else whole.toNat

def ofWeights (w : CostWeights) : CostRates where
  board := penalty w.board
  transfer := penalty w.transfer
  discouraged := penalty w.discouragedTransfer
  walk := factor w.walkReluctance
  wait := factor w.waitReluctance
  transit := factor w.transitReluctance

def walking (r : CostRates) (duration : Time) : Cost :=
  Cost.times r.walk (seconds duration)

def riding (r : CostRates) (duration : Time) : Cost :=
  Cost.times r.transit (seconds duration)

/-- Catching the first trip costs no waiting, since one leaves just in time. -/
def firstBoarding (r : CostRates) : Cost :=
  r.board

/-- Catching a trip after another one. -/
def changing (r : CostRates) (wait : Time) (discouraged : Bool) : Cost :=
  Cost.plus
    (Cost.plus (Cost.plus r.board r.transfer) (Cost.times r.wait (seconds wait)))
    (if discouraged then r.discouraged else 0)

end CostRates
end JourneyPlanner
