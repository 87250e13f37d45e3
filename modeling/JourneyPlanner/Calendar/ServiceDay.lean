import JourneyPlanner.Calendar.Zone
import JourneyPlanner.Fault

/-!
The start of service of a date: twelve hours before local noon. That is midnight
on ordinary days and keeps to the published times on days with a clock change.
-/

namespace JourneyPlanner.ServiceDay

/-- Local clocks have to show noon of the date at one instant. -/
def start (date : Date) (zone : Zone) : Except DataFault Instant :=
  match zone.instantsAt (date.day * 86400 + 43200) with
  | [noon] => .ok (noon - 43200)
  | _ => .error (.noonUnresolved date zone.name)

/-- Seconds from `start` to an instant with a part of a second, truncated toward
zero and kept in 32 bits. -/
def secondsSince (start instant : Instant) (nanos : Nat) : Time :=
  Time.wrap (Int.tdiv ((instant - start) * 1000000000 + nanos) 1000000000)

/-- The local date of an instant, if it is in the range of dates. -/
def localDate? (instant : Instant) (zone : Zone) : Option Date :=
  Date.ofDay? ((instant + zone.offsetAt instant) / 86400)

/-- The local date and the seconds since the start of its service. -/
def dateAndTime (instant : Instant) (nanos : Nat) (zone : Zone) : Except DataFault (Date × Time) :=
  match localDate? instant zone with
  | none => .error (.instantOutsideCalendar instant)
  | some date =>
    match start date zone with
    | .error e => .error e
    | .ok begin => .ok (date, secondsSince begin instant nanos)

end JourneyPlanner.ServiceDay
