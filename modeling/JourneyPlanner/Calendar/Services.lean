import JourneyPlanner.Association
import JourneyPlanner.Calendar.Date
import JourneyPlanner.Index

/-!
Which service runs on which date. Services get codes 0, 1, … in the order in
which their ids are first used. The period spans every date that was ever added
and does not shrink when a service is removed from a date.
-/

namespace JourneyPlanner

structure ServiceCalendar where
  serviceIds : List String := []
  /-- Codes of the services that run on a date. -/
  running : List (Date × List Nat) := []
  period : Option (Date × Date) := none
  deriving DecidableEq

namespace ServiceCalendar

def empty : ServiceCalendar := {}

/-- The code of a service, registered on first use. -/
def register (c : ServiceCalendar) (serviceId : String) : Nat × ServiceCalendar :=
  match c.serviceIds.findIdx? (· == serviceId) with
  | some code => (code, c)
  | none => (c.serviceIds.length, { c with serviceIds := c.serviceIds ++ [serviceId] })

def serviceId? (c : ServiceCalendar) (code : Nat) : Option String :=
  c.serviceIds[code]?

def numServices (c : ServiceCalendar) : Nat :=
  c.serviceIds.length

def extend (date : Date) : Option (Date × Date) → Date × Date
  | none => (date, date)
  | some (first, last) => (first.min date, last.max date)

def addDate (c : ServiceCalendar) (code : Nat) (date : Date) : ServiceCalendar :=
  { c with
    running := Association.alter date (fun codes =>
      let codes := codes.getD []
      if codes.contains code then codes else code :: codes) c.running
    period := some (extend date c.period) }

/-- Adds a date by any code; no value if no table has an entry for the code. -/
def addDate? (c : ServiceCalendar) (code : Nat) (date : Date) : Option ServiceCalendar :=
  if Index.hasEntry code then some (c.addDate code date) else none

def removeDate (c : ServiceCalendar) (code : Nat) (date : Date) : ServiceCalendar :=
  { c with running := Association.adjust date (fun codes => codes.filter (· != code)) c.running }

def isActive (c : ServiceCalendar) (code : Nat) (date : Date) : Bool :=
  match Association.find? date c.running with
  | some codes => codes.contains code
  | none => false

end ServiceCalendar
end JourneyPlanner
