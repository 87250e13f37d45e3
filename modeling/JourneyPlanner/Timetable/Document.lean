import JourneyPlanner.Timetable.Builder

/-!
A timetable as a JSON document: its time zone, stops, services, trips,
frequencies and transfers. Stop indices follow the order of the stops.
-/

namespace JourneyPlanner

structure StopRecord where
  stopId : String
  name : Option String
  priority : TransferPriority

structure ServiceRecord where
  serviceId : String
  dates : List Date
  /-- Exceptions that remove single dates. -/
  removed : List Date

structure TransferRecord where
  source : String
  target : String
  duration : Time

structure TimetableDocument where
  zoneName : String
  stops : List StopRecord
  services : List ServiceRecord
  trips : List TripRecord
  frequencies : List FrequencyRecord
  transfers : List TransferRecord

inductive DocumentFault where
  | unknownZone (name : String)
  | fault (fault : Fault)

namespace DocumentFault

def message : DocumentFault → String
  | .unknownZone name => "unknown time zone " ++ name
  | .fault f => f.message

end DocumentFault

namespace StopRecord

def ofJson (j : Json) : Reading StopRecord := do
  let r ← Record.ofJson ["stop_id", "name", "transfer_priority"] j
  r.finish <| StopRecord.mk
    <$> r.required "stop_id" Json.readString
    <*> r.optional "name" Json.readString
    <*> r.withDefault "transfer_priority" .allowed TransferPriority.ofJson

end StopRecord

namespace ServiceRecord

def ofJson (j : Json) : Reading ServiceRecord := do
  let r ← Record.ofJson ["service_id", "dates", "removed"] j
  r.finish <| ServiceRecord.mk
    <$> r.required "service_id" Json.readString
    <*> r.required "dates" (Json.readList Date.ofJson)
    <*> r.withDefault "removed" [] (Json.readList Date.ofJson)

end ServiceRecord

namespace TransferRecord

def ofJson (j : Json) : Reading TransferRecord := do
  let r ← Record.ofJson ["from", "to", "duration"] j
  r.finish <| TransferRecord.mk
    <$> r.required "from" Json.readString
    <*> r.required "to" Json.readString
    <*> r.required "duration" Json.readTime

end TransferRecord

namespace TimetableDocument

def ofJson (j : Json) : Reading TimetableDocument := do
  let r ← Record.ofJson ["time_zone", "stops", "services", "trips", "frequencies", "transfers"] j
  r.finish <| TimetableDocument.mk
    <$> r.withDefault "time_zone" "UTC" Json.readString
    <*> r.required "stops" (Json.readList StopRecord.ofJson)
    <*> r.required "services" (Json.readList ServiceRecord.ofJson)
    <*> r.required "trips" (Json.readList TripRecord.ofJson)
    <*> r.withDefault "frequencies" [] (Json.readList FrequencyRecord.ofJson)
    <*> r.withDefault "transfers" [] (Json.readList TransferRecord.ofJson)

/-- Every stop record sets the priority of its stop. A fault keeps the notices
that came before it. -/
def addStops (b : Builder) : List StopRecord → Builder × Option Fault
  | [] => (b, none)
  | s :: rest =>
    let b := (b.addStop s.stopId s.name).2
    match b.setPriority s.stopId s.priority with
    | .error e => (b, some e)
    | .ok b => addStops b rest

def addService (b : Builder) (s : ServiceRecord) : Builder :=
  s.removed.foldl (fun b date => b.removeServiceDate s.serviceId date)
    (b.addServiceDates s.serviceId s.dates)

def addTransfers (b : Builder) : List TransferRecord → Builder × Option Fault
  | [] => (b, none)
  | t :: rest =>
    match b.addTransfer t.source t.target t.duration with
    | .error e => (b, some e)
    | .ok b => addTransfers b rest

def fill (d : TimetableDocument) (b : Builder) : Builder × Option Fault :=
  match addStops b d.stops with
  | (b, some e) => (b, some e)
  | (b, none) =>
    let b := d.services.foldl addService b
    let b := d.trips.foldl Builder.addTrip b
    let b := d.frequencies.foldl Builder.addFrequency b
    addTransfers b d.transfers

/-- The timetable of the document, with the notices of making it. -/
def build (d : TimetableDocument) : List Notice × Except DocumentFault Timetable :=
  match Zone.named? d.zoneName with
  | none => ([], .error (.unknownZone d.zoneName))
  | some zone =>
    match d.fill { zone := zone } with
    | (b, some e) => (b.notices.toList, .error (.fault e))
    | (b, none) =>
      match b.build with
      | (notices, .error e) => (b.notices.toList ++ notices, .error (.fault e))
      | (notices, .ok timetable) => (b.notices.toList ++ notices, .ok timetable)

end TimetableDocument
end JourneyPlanner
