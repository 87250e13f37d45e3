import JourneyPlanner.Calendar.Date

/-!
Consecutive dates around a date. A window that leaves the calendar has no value.
-/

namespace JourneyPlanner

/-- A step out of the range of dates. -/
structure WindowFault where
  date : Date
  days : Int
  deriving DecidableEq

namespace WindowFault

def message (f : WindowFault) : String :=
  if f.days < 0 then f.date.text ++ " - " ++ toString f.days.natAbs ++ " days"
  else f.date.text ++ " + " ++ toString f.days.natAbs ++ " days"

end WindowFault

namespace Date

/-- Dates from `day` on, `count` of them. -/
def consecutive (d : Date) (count : Nat) : List Date :=
  (List.range count).filterMap fun k => d.addDays? (Int.ofNat k)

/-- From `before` days before the date to `after` days after it, ascending. The number of
dates is counted in 32 bits. -/
def window (d : Date) (before after : Nat) : Except WindowFault (List Date) :=
  match d.addDays? (-(before : Int)) with
  | none => .error ⟨d, -(before : Int)⟩
  | some first =>
    let total := (before + after + 1) % 4294967296
    if first.day + total - 1 ≤ lastDayNumber then .ok (first.consecutive total)
    else .error ⟨first, lastDayNumber - first.day + 1⟩

end Date
end JourneyPlanner
